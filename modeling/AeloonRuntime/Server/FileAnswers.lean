import AeloonRuntime.Lib.SortedRows
import AeloonRuntime.Server.FileRequests
import Mathlib.Data.String.Basic

namespace AeloonRuntime

open Py FileTree SortedRows

/-!
# File answers — what is listed of a directory, and read of a file

`runtime_server.py`: the answers of `fs.list`, `fs.read` and `artifact.download`.

* `threadPath_solid` — what they are about is reached by plain names;
* `entryOf_eq_ok_iff`, `entries_eq_ok_iff` — the entries of the items of a directory;
* `directory_listing_iff` — a directory is listed if and only if nothing in it is a link or outside the boundary;
* `text_reading` — what is read of a text is its beginning;
* `artifact_download_iff` — what is downloaded is the file.
-/

/-! ### Nodes at solid places -/

/-- What stands in a directory is not called `..`. -/
def Disk.Dotless (disk : Disk) : Prop :=
  ∀ place name, (disk.tree.find? (place ++ [name])).isSome = true → name ≠ ".."

/-- The entry of an item that is no link. -/
def Disk.record (disk : Disk) (place : List String) (name : String) : ListedFile where
  name
  kind := if disk.tree.isDirAt (place ++ [name]) then "directory" else "file"
  size := if disk.tree.isDirAt (place ++ [name]) then 0 else (disk.data (place ++ [name])).length
  mtime := disk.mtime (place ++ [name])

section Solid

variable {disk : Disk} {place : List String} {name : String}

theorem isFile_solid (h : Solid disk.tree place) : disk.isFile place = !disk.tree.isDirAt place := by
  obtain ⟨node, hnode⟩ := Option.isSome_iff_exists.mp h.found
  have hplain := h.plain
  rw [isLinkAt, hnode] at hplain
  rw [Disk.isFile, isDirAt, stat_solid h hnode, hnode]
  cases node with
  | symlink target => cases hplain
  | dir entries => rfl
  | file => rfl

theorem reach_solid (h : Solid disk.tree place) : disk.reach place = .ok place := by
  rw [Disk.reach, walk_solid h]
  exact if_pos h.found

/-- The names in a directory are those of nodes. -/
theorem found_of_mem_names (h : Solid disk.tree place) (hname : name ∈ disk.names place) :
    (disk.tree.find? (place ++ [name])).isSome = true := by
  obtain ⟨node, hnode⟩ := Option.isSome_iff_exists.mp h.found
  rw [Disk.names, stat_solid h hnode] at hname
  rw [find?_concat, hnode]
  cases node with
  | symlink target => cases hname
  | file => cases hname
  | dir entries =>
    obtain ⟨entry, hentry, rfl⟩ := List.mem_map.mp hname
    exact List.lookup_isSome_iff.mpr ⟨entry, hentry, beq_self_eq_true _⟩

end Solid

namespace FileServer

variable {server : FileServer} {disk : Disk} {params : Dict} {place : List String} {name : String}
  {roots : List (List String)} {entry : ListedFile}

/-- What a request names is reached by plain names. -/
theorem threadPath_solid (h : server.threadPath disk params = .ok place) : Solid disk.tree place := by
  unfold threadPath at h
  split at h
  · obtain ⟨root, -, h⟩ := Results.bind_eq_ok_iff.mp h
    match hpath : pathOf params with
    | .str relative =>
      rw [hpath] at h
      obtain ⟨⟨⟩, -, h⟩ := Results.bind_eq_ok_iff.mp h
      obtain ⟨result, hresult, h⟩ := Results.bind_eq_ok_iff.mp h
      obtain rfl := Results.pure_eq_ok_iff.mp h
      exact (allowedPath_solid (ofPath_eq_ok_iff.mp hresult)).1
    | .null | .bool _ | .int _ | .float _ | .arr _ | .obj _ =>
      rw [hpath] at h
      cases h
  · obtain ⟨workspace, -, h⟩ := Results.bind_eq_ok_iff.mp h
    obtain ⟨result, hresult, h⟩ := Results.bind_eq_ok_iff.mp h
    obtain rfl := Results.pure_eq_ok_iff.mp h
    obtain ⟨-, -, -, -, -, -, hsolid⟩ := threadRelativePath_path (ofPath_eq_ok_iff.mp hresult)
    exact hsolid rfl

/-! ### Listings -/

theorem record_eq (h : Solid disk.tree (place ++ [name])) :
    { name
      kind := if disk.isDir (place ++ [name]) then "directory" else "file"
      size := if disk.isFile (place ++ [name]) then (disk.data (place ++ [name])).length else 0
      mtime := disk.mtime (place ++ [name]) : ListedFile } = disk.record place name := by
  rw [isFile_solid h, Disk.isDir, isDir_solid h, Disk.record]
  cases disk.tree.isDirAt (place ++ [name]) <;> rfl

/-- An item is listed if and only if it is no link and inside the boundary. -/
theorem entryOf_eq_ok_iff (h : Solid disk.tree place) (hdir : disk.tree.isDirAt place = true) (hname : name ≠ "..")
    (hfound : (disk.tree.find? (place ++ [name])).isSome = true) :
    entryOf disk roots place name = .ok entry
      ↔ disk.tree.isLinkAt (place ++ [name]) = false ∧ (∃ root ∈ roots, isWithin (place ++ [name]) root = true)
        ∧ disk.record place name = entry := by
  have hlink := h.isLink_concat hdir hname
  unfold entryOf
  constructor
  · intro hentry
    obtain ⟨resolved, hresolved, hentry⟩ := Results.bind_eq_ok_iff.mp hentry
    obtain ⟨⟨⟩, hinside, hentry⟩ := Results.bind_eq_ok_iff.mp hentry
    obtain ⟨⟨⟩, hclear, hentry⟩ := Results.bind_eq_ok_iff.mp hentry
    obtain ⟨reached, hreached, hentry⟩ := Results.bind_eq_ok_iff.mp hentry
    -- the item is no link, so it resolves to itself and is what is looked at
    have hplain : disk.tree.isLinkAt (place ++ [name]) = false := by
      have hcheck := FileError.require_eq_ok_iff.mp hclear
      rwa [hlink, Bool.not_eq_true'] at hcheck
    have hsolid := h.concat hname hfound hplain
    have hresolve := PathPolicy.resolved_eq_ok_iff.mp (ofPath_eq_ok_iff.mp hresolved)
    obtain rfl := Option.some.inj ((resolve_solid hsolid).symm.trans hresolve)
    obtain rfl := Except.ok.inj ((reach_solid hsolid).symm.trans hreached)
    refine ⟨hplain, List.any_eq_true.mp (FileError.require_eq_ok_iff.mp hinside), ?_⟩
    rw [← record_eq hsolid]
    exact Results.pure_eq_ok_iff.mp hentry
  · rintro ⟨hplain, hinside, rfl⟩
    have hsolid := h.concat hname hfound hplain
    rw [← record_eq hsolid]
    refine Results.bind_eq_ok_iff.mpr
      ⟨_, ofPath_eq_ok_iff.mpr (PathPolicy.resolved_eq_ok_iff.mpr (resolve_solid hsolid)), ?_⟩
    refine Results.bind_eq_ok_iff.mpr ⟨(), FileError.require_eq_ok_iff.mpr (List.any_eq_true.mpr hinside), ?_⟩
    refine Results.bind_eq_ok_iff.mpr ⟨(), FileError.require_eq_ok_iff.mpr ?_, ?_⟩
    · rw [hlink, hplain]
      rfl
    · exact Results.bind_eq_ok_iff.mpr ⟨_, reach_solid hsolid, rfl⟩

/-- The order of `fs.list` is one to sort with: the directories first, and both kinds by their lowered names. -/
theorem comparison_listedBefore (server : FileServer) (disk : Disk) (place : List String) :
    Comparison (server.listedBefore disk place) where
  trans := by
    intro a b c
    unfold listedBefore
    -- two items of one kind are compared by their names, two of different kinds by the kind
    cases disk.isDir (place ++ [a]) <;> cases disk.isDir (place ++ [b]) <;> cases disk.isDir (place ++ [c]) <;> simp
    all_goals exact le_trans
  total := by
    intro a b
    unfold listedBefore
    cases disk.isDir (place ++ [a]) <;> cases disk.isDir (place ++ [b]) <;> simp
    all_goals exact le_total _ _

/-- The entries of some items of a directory. -/
theorem entries_eq_ok_iff {names : List String} {listing : List ListedFile} (hdisk : disk.Dotless)
    (h : Solid disk.tree place) (hdir : disk.tree.isDirAt place = true)
    (hnames : ∀ name ∈ names, name ∈ disk.names place) :
    names.mapM (entryOf disk roots place) = .ok listing
      ↔ (∀ name ∈ names, disk.tree.isLinkAt (place ++ [name]) = false
          ∧ ∃ root ∈ roots, isWithin (place ++ [name]) root = true)
        ∧ listing = names.map (disk.record place) := by
  induction names generalizing listing with
  | nil =>
    rw [List.mapM_nil, Results.pure_eq_ok_iff]
    exact ⟨fun hnil => ⟨fun name hname => absurd hname List.not_mem_nil, hnil.symm⟩, fun hnil => hnil.2.symm⟩
  | cons name names ih =>
    obtain ⟨hfirst, hrest⟩ := List.forall_mem_cons.mp hnames
    have hfound := found_of_mem_names h hfirst
    rw [Results.mapM_cons_eq_ok_iff, List.forall_mem_cons, List.map_cons]
    constructor
    · rintro ⟨entry, rest, hentry, hlater, rfl⟩
      obtain ⟨hplain, hinside, rfl⟩ := (entryOf_eq_ok_iff h hdir (hdisk _ _ hfound) hfound).mp hentry
      obtain ⟨hall, rfl⟩ := (ih hrest).mp hlater
      exact ⟨⟨⟨hplain, hinside⟩, hall⟩, rfl⟩
    · rintro ⟨⟨⟨hplain, hinside⟩, hall⟩, rfl⟩
      have hentry := (entryOf_eq_ok_iff h hdir (hdisk _ _ hfound) hfound).mpr ⟨hplain, hinside, rfl⟩
      exact ⟨_, _, hentry, (ih hrest).mpr ⟨hall, rfl⟩, rfl⟩

/-- What a request needs for its listing. -/
theorem fsList_eq_ok_iff {listing : List ListedFile} (hdisk : disk.Dotless) :
    server.fsList disk params = .ok listing
      ↔ ∃ place roots, server.threadPath disk params = .ok place ∧ disk.tree.isDirAt place = true
          ∧ server.boundary disk params = .ok roots
          ∧ (∀ name ∈ disk.names place, disk.tree.isLinkAt (place ++ [name]) = false
              ∧ ∃ root ∈ roots, isWithin (place ++ [name]) root = true)
          ∧ listing = ((disk.names place).mergeSort (server.listedBefore disk place)).map (disk.record place) := by
  unfold fsList
  constructor
  · intro h
    obtain ⟨place, hplace, h⟩ := Results.bind_eq_ok_iff.mp h
    obtain ⟨⟨⟩, hcheck, h⟩ := Results.bind_eq_ok_iff.mp h
    obtain ⟨roots, hroots, h⟩ := Results.bind_eq_ok_iff.mp h
    have hsolid := threadPath_solid hplace
    have hdir := FileError.require_eq_ok_iff.mp hcheck
    rw [Disk.isDir, isDir_solid hsolid] at hdir
    obtain ⟨hall, rfl⟩ := (entries_eq_ok_iff hdisk hsolid hdir fun name hname => List.mem_mergeSort.mp hname).mp h
    exact ⟨place, roots, hplace, hdir, hroots, fun name hname => hall name (List.mem_mergeSort.mpr hname), rfl⟩
  · rintro ⟨place, roots, hplace, hdir, hroots, hall, rfl⟩
    have hsolid := threadPath_solid hplace
    have hcheck : disk.isDir place = true := by rw [Disk.isDir, isDir_solid hsolid, hdir]
    refine Results.bind_eq_ok_iff.mpr ⟨place, hplace, ?_⟩
    refine Results.bind_eq_ok_iff.mpr ⟨(), FileError.require_eq_ok_iff.mpr hcheck, ?_⟩
    refine Results.bind_eq_ok_iff.mpr ⟨roots, hroots, ?_⟩
    refine (entries_eq_ok_iff hdisk hsolid hdir fun name hname => List.mem_mergeSort.mp hname).mpr ⟨?_, rfl⟩
    exact fun name hname => hall name (List.mem_mergeSort.mp hname)

/-- What a client sees first: a directory in front of a file, and otherwise the lower one of the lowered names. -/
def Before (server : FileServer) (a b : ListedFile) : Prop :=
  a.kind = "directory" ∧ b.kind = "file" ∨ a.kind = b.kind ∧ server.lower a.name ≤ server.lower b.name

theorem before_of_listedBefore {a b : String} (ha : Solid disk.tree (place ++ [a]))
    (hb : Solid disk.tree (place ++ [b])) (h : server.listedBefore disk place a b = true) :
    server.Before (disk.record place a) (disk.record place b) := by
  revert h
  unfold listedBefore Before Disk.record
  rw [Disk.isDir, Disk.isDir, isDir_solid ha, isDir_solid hb]
  cases disk.tree.isDirAt (place ++ [a]) <;> cases disk.tree.isDirAt (place ++ [b]) <;> simp

/-- **Listing a directory.** `fs.list` answers if and only if the request names a directory in which nothing is a link
    or outside the boundary; then there is an entry for every item, the directories in front of the files. -/
theorem directory_listing_iff (server : FileServer) (disk : Disk) (params : Dict) (listing : List ListedFile)
    (hdisk : disk.Dotless) :
    (server.fsList disk params = .ok listing
      ↔ ∃ place roots, server.threadPath disk params = .ok place ∧ disk.tree.isDirAt place = true
          ∧ server.boundary disk params = .ok roots
          ∧ (∀ name ∈ disk.names place, disk.tree.isLinkAt (place ++ [name]) = false
              ∧ ∃ root ∈ roots, isWithin (place ++ [name]) root = true)
          ∧ listing = ((disk.names place).mergeSort (server.listedBefore disk place)).map (disk.record place))
      ∧ (server.fsList disk params = .ok listing → listing.Pairwise server.Before) := by
  refine ⟨fsList_eq_ok_iff hdisk, fun h => ?_⟩
  obtain ⟨place, roots, hplace, hdir, -, hall, rfl⟩ := (fsList_eq_ok_iff hdisk).mp h
  have hsolid := threadPath_solid hplace
  -- an item that is no link is reached by plain names, as the directory is
  have hitem (name : String) (hname : name ∈ (disk.names place).mergeSort (server.listedBefore disk place)) :
      Solid disk.tree (place ++ [name]) := by
    have hname := List.mem_mergeSort.mp hname
    have hfound := found_of_mem_names hsolid hname
    exact hsolid.concat (hdisk _ _ hfound) hfound (hall name hname).1
  refine List.pairwise_map.mpr (((comparison_listedBefore server disk place).pairwise_sort _).imp_of_mem ?_)
  intro a b ha hb hab
  exact before_of_listedBefore (hitem a ha) (hitem b hb) hab

/-- A tree without links. -/
def sampleFiles : Disk where
  tree := ⟨[("ws", .dir [("docs", .dir []), ("notes", .file)])]⟩
  data := fun _ => (encodeUtf8 ['é']).data.toList
  mtime := sampleDisk.mtime

theorem dotless_sampleFiles : sampleFiles.Dotless := by
  rintro place _ h rfl
  rw [find?_concat] at h
  -- the root, the workspace, and what is in it
  match place with
  | [] => exact absurd h (by decide)
  | [first] =>
    by_cases hfirst : first = "ws"
    · subst hfirst
      exact absurd h (by decide)
    · simp [sampleFiles, find?, below, child, List.lookup_cons, beq_false_of_ne hfirst] at h
  | first :: second :: rest =>
    by_cases hfirst : first = "ws"
    · subst hfirst
      by_cases hdocs : second = "docs"
      · subst hdocs
        cases rest <;> simp [sampleFiles, find?, below, child] at h
      · by_cases hnotes : second = "notes"
        · subst hnotes
          cases rest <;> simp [sampleFiles, find?, below, child, List.lookup_cons] at h
        · simp [sampleFiles, find?, below, child, List.lookup_cons, beq_false_of_ne hdocs, beq_false_of_ne hnotes] at h
    · simp [sampleFiles, find?, below, child, List.lookup_cons, beq_false_of_ne hfirst] at h

/-- The entries of the root. -/
theorem directory_listing_root :
    sampleFileServer.fsList sampleFiles [("root", .str "/ws")]
      = .ok (["docs", "notes"].map (sampleFiles.record ["ws"])) := by
  refine (directory_listing_iff _ _ _ _ dotless_sampleFiles).1.mpr ⟨["ws"], [["ws"]], ?_, by decide, ?_, by decide, ?_⟩
  · decide +kernel
  · rfl
  · rw [List.mergeSort_of_pairwise (by decide +kernel)]
    rfl

/-! ### Reading -/

/-- The beginning of a text that is encoded: a character that is cut becomes another one. -/
theorem decodeReplace_take (text : List Char) (n : Nat) :
    ∃ front cut, decodeReplace ((encodeUtf8 text).data.toList.take n) = front ++ cut ∧ front <+: text
      ∧ cut.length ≤ 1 := by
  refine ⟨_, _, decodeReplace_eq_flush _, ?_, length_utf8Flush_le _⟩
  have hwhole := decodeReplace_append ((encodeUtf8 text).data.toList.take n) ((encodeUtf8 text).data.toList.drop n)
  rw [List.take_append_drop, decodeReplace_encode] at hwhole
  exact ⟨_, hwhole.symm⟩

/-- What `fs.read` answers of a file. -/
theorem fsRead_file {requested : Int} (hplace : server.threadPath disk params = .ok place)
    (hfile : disk.tree.isDirAt place = false) (hmax : maxBytesOf params = .ok requested) (hpos : 0 ≤ requested) :
    server.fsRead disk params
      = .ok { content := decodeReplace ((disk.data place).take (min requested.toNat fileBytes))
              truncated := min requested.toNat fileBytes < (disk.data place).length
              encoding := "utf-8" } := by
  have hsolid := threadPath_solid hplace
  have hcheck : disk.isFile place = true := by rw [isFile_solid hsolid, hfile, Bool.not_false]
  unfold fsRead
  refine Results.bind_eq_ok_iff.mpr ⟨place, hplace, ?_⟩
  refine Results.bind_eq_ok_iff.mpr ⟨(), FileError.require_eq_ok_iff.mpr hcheck, ?_⟩
  refine Results.bind_eq_ok_iff.mpr ⟨requested, hmax, ?_⟩
  refine Results.bind_eq_ok_iff.mpr ⟨(), FileError.require_eq_ok_iff.mpr (decide_eq_true hpos), ?_⟩
  refine Results.bind_eq_ok_iff.mpr ⟨place, reach_solid hsolid, Results.pure_eq_ok_iff.mpr ?_⟩
  -- one byte more than the limit is read, which tells whether there is more
  have hlonger : min requested.toNat fileBytes < ((disk.data place).take (min requested.toNat fileBytes + 1)).length
      ↔ min requested.toNat fileBytes < (disk.data place).length := by
    rw [List.length_take]
    omega
  rw [List.take_take, min_eq_left (Nat.le_succ _), decide_eq_decide.mpr hlonger]

/-- **Downloading a file.** `artifact.download` gives all bytes of a file that is not too large, to a client that names
    a thread. -/
theorem artifact_download_iff (server : FileServer) (disk : Disk) (params : Dict) (bytes : List UInt8) :
    (∃ answer, server.artifactDownload disk params = .ok answer ∧ Base64.decode answer.dataBase64 = some bytes)
      ↔ (∃ workspace, server.requireThread params = .ok workspace)
        ∧ ∃ place, server.threadPath disk params = .ok place ∧ disk.tree.isDirAt place = false
            ∧ disk.data place = bytes ∧ bytes.length ≤ fileBytes := by
  unfold artifactDownload
  constructor
  · rintro ⟨answer, h, hdecode⟩
    obtain ⟨workspace, hthread, h⟩ := Results.bind_eq_ok_iff.mp h
    obtain ⟨place, hplace, h⟩ := Results.bind_eq_ok_iff.mp h
    obtain ⟨⟨⟩, hfile, h⟩ := Results.bind_eq_ok_iff.mp h
    obtain ⟨reached, hreached, h⟩ := Results.bind_eq_ok_iff.mp h
    obtain ⟨⟨⟩, hfits, h⟩ := Results.bind_eq_ok_iff.mp h
    have hsolid := threadPath_solid hplace
    obtain rfl := Except.ok.inj ((reach_solid hsolid).symm.trans hreached)
    obtain rfl := Results.pure_eq_ok_iff.mp h
    obtain rfl := Option.some.inj ((Base64.decode_encode _).symm.trans hdecode)
    have hcheck := FileError.require_eq_ok_iff.mp hfile
    rw [isFile_solid hsolid, Bool.not_eq_true'] at hcheck
    exact ⟨⟨workspace, hthread⟩, place, hplace, hcheck, rfl,
      of_decide_eq_true (FileError.require_eq_ok_iff.mp hfits)⟩
  · rintro ⟨⟨workspace, hthread⟩, place, hplace, hfile, rfl, hfits⟩
    have hsolid := threadPath_solid hplace
    have hcheck : disk.isFile place = true := by rw [isFile_solid hsolid, hfile, Bool.not_false]
    refine ⟨⟨Base64.encode (disk.data place), server.mimeType place⟩, ?_, Base64.decode_encode _⟩
    refine Results.bind_eq_ok_iff.mpr ⟨workspace, hthread, ?_⟩
    refine Results.bind_eq_ok_iff.mpr ⟨place, hplace, ?_⟩
    refine Results.bind_eq_ok_iff.mpr ⟨(), FileError.require_eq_ok_iff.mpr hcheck, ?_⟩
    refine Results.bind_eq_ok_iff.mpr ⟨place, reach_solid hsolid, ?_⟩
    exact Results.bind_eq_ok_iff.mpr ⟨(), FileError.require_eq_ok_iff.mpr (decide_eq_true hfits), rfl⟩

end FileServer

end AeloonRuntime
