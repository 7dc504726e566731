import Mathlib.Data.List.Nodup
import Mathlib.Logic.Function.Basic
import AeloonRuntime.Lib.Json
import AeloonRuntime.Lib.Transition

namespace AeloonRuntime

open Py

/-!
# Blob store — uploaded attachments, their rows and their shared files

`RuntimeStore` keeps the content of an attachment in a file that is named by its digest, so that equal
contents share one file.

* `BlobStore` — the tables and the files, with the calls that still have files to unlink;
* `BlobStore.step` — what a call does under the lock, and each `unlink` that is done without it;
* `Matched` — every row has its file, and every file a row or a call that is about to unlink it;
* `blobs_match` — that is so behind every run in which no upload meets a call that may still unlink
  its file;
* `upload_meets_unlink` — the upload that loses its file.
-/

/-! ### The store -/

/-- The place of a blob: `root / f"{digest}.blob"`. -/
structure BlobPath where
  root : List String
  digest : String
  deriving DecidableEq

/-- A row of `attachments`.  `data` is the content that was uploaded for it: the table has no such
    column. -/
structure AttachmentRow where
  id : String
  name : String
  mimeType : Option String
  sizeBytes : Nat
  storagePath : BlobPath
  data : List UInt8
  deriving DecidableEq

/-- A row of `threads`. -/
structure ThreadRow where
  id : String
  projectId : String

/-- A row of `turns`: its thread, and the value of `attachments_json` unless that is no JSON text. -/
structure TurnRow where
  threadId : String
  attachments : Option Json

/-- A call that has left its section under the lock. -/
inductive BlobCall where
  /-- `delete_thread` or `remove_project`, with the paths that it has still to unlink. -/
  | unlinking (paths : List BlobPath)
  /-- `cleanup_orphan_attachments` with the paths of the rows, before `glob`. -/
  | listing (root : List String) (referenced : List BlobPath)
  /-- The same, with the candidates that it has still to pass. -/
  | sweeping (referenced candidates : List BlobPath)

/-- The call has nothing left to do. -/
def BlobCall.finished : BlobCall → Bool
  | .unlinking paths => paths.isEmpty
  | .listing _ _ => false
  | .sweeping _ candidates => candidates.isEmpty

/-- The call may still unlink the blob. -/
def BlobCall.mayUnlink (path : BlobPath) : BlobCall → Bool
  | .unlinking paths => path ∈ paths
  | .listing root referenced => path.root = root ∧ path ∉ referenced
  | .sweeping referenced candidates => path ∈ candidates ∧ path ∉ referenced

/-- The tables of the store, its files, and the calls behind their sections. -/
structure BlobStore where
  blobs : BlobPath → Option (List UInt8) := fun _ => none
  rows : List AttachmentRow := []
  projects : List String := []
  threads : List ThreadRow := []
  turns : List TurnRow := []
  calls : List BlobCall := []

/-- What happens next. -/
inductive BlobEvent where
  /-- `add_attachment`; `committed` is false when the database raises. -/
  | add (id name : String) (mimeType : Option String) (data : List UInt8) (root : List String)
    (committed : Bool)
  | deleteAttachment (id : String)
  | deleteThread (id : String)
  | removeProject (id : String)
  /-- `cleanup_orphan_attachments` reads the rows. -/
  | cleanup (root : List String)
  /-- Its `glob` lists these blobs. -/
  | list (call : Nat) (candidates : List BlobPath)
  /-- A call comes to its next path. -/
  | next (call : Nat)
  /-- Another method of the store changes the other tables. -/
  | edit (projects : List String) (threads : List ThreadRow) (turns : List TurnRow)

namespace BlobStore

/-- The ids that a turn names. -/
def turnIds : Option Json → List String
  | some (.arr values) => values.filterMap fun value => match value with
    | .str id => if id = "" then none else some id
    | .obj item => match Dict.get item "id" with
      | some (.str id) => some id
      | _ => none
    | _ => none
  | _ => []

/-- `_attachment_ids_for_threads`. -/
def attachmentIdsForThreads (turns : List TurnRow) (threadIds : List String) : List String :=
  (turns.filter fun turn => turn.threadId ∈ threadIds).flatMap fun turn => turnIds turn.attachments

/-- No row has the path. -/
def unreferenced (rows : List AttachmentRow) (path : BlobPath) : Bool :=
  rows.all fun row => row.storagePath ≠ path

/-- The ids among the candidates that no turn names. -/
def deletable (s : BlobStore) (candidates : List String) : List String :=
  candidates.filter (· ∉ attachmentIdsForThreads s.turns (s.threads.map (·.id)))

/-- `_delete_unreferenced_attachments`: the paths that no row has any more. -/
def deleteUnreferenced (s : BlobStore) (candidates : List String) : BlobStore × List BlobPath :=
  let kept := s.rows.filter (·.id ∉ s.deletable candidates)
  let paths := ((s.rows.filter (·.id ∈ s.deletable candidates)).map (·.storagePath)).eraseDups
  ({ s with rows := kept }, paths.filter (unreferenced kept))

/-- The threads go, with their turns. -/
def withoutThreads (s : BlobStore) (threadIds : List String) : BlobStore :=
  { s with
    threads := s.threads.filter (·.id ∉ threadIds)
    turns := s.turns.filter (·.threadId ∉ threadIds) }

/-- The transaction of `delete_thread` and `remove_project`: the threads go, and the attachments that only
    their turns have named. -/
def deleteThreads (s : BlobStore) (threadIds : List String) : BlobStore :=
  let (left, paths) :=
    (s.withoutThreads threadIds).deleteUnreferenced (attachmentIdsForThreads s.turns threadIds)
  { left with calls := left.calls ++ [.unlinking paths] }

/-- `Path(path).unlink(missing_ok=True)`. -/
def unlink (s : BlobStore) (path : BlobPath) : BlobStore :=
  { s with blobs := Function.update s.blobs path none }

variable (sha256 : List UInt8 → String)

/-- `add_attachment`, which holds the lock throughout. -/
def add (s : BlobStore) (row : AttachmentRow) (committed : Bool) : BlobStore :=
  let present := (s.blobs row.storagePath).any fun content => sha256 content = row.storagePath.digest
  if committed ∧ row.id ∉ s.rows.map (·.id) then
    { s with
      blobs := if present then s.blobs else Function.update s.blobs row.storagePath (some row.data)
      rows := s.rows ++ [row] }
  else if present then s
  -- The file that the call has put in place goes again.
  else s.unlink row.storagePath

/-- The row that `add_attachment` writes. -/
def newRow (id name : String) (mimeType : Option String) (data : List UInt8) (root : List String) :
    AttachmentRow :=
  ⟨id, name, mimeType, data.length, ⟨root, sha256 data⟩, data⟩

/-- `delete_attachment`, which holds the lock throughout. -/
def deleteAttachment (s : BlobStore) (id : String) : BlobStore :=
  match s.rows.find? (·.id = id) with
  | none => s
  | some row =>
    let kept := s.rows.filter (·.id ≠ id)
    let left := { s with rows := kept }
    if unreferenced kept row.storagePath then left.unlink row.storagePath else left

/-- One call under the lock, or one step of a call behind it. -/
def step (s : BlobStore) : BlobEvent → Option BlobStore
  | .add id name mimeType data root committed => some (s.add sha256 (newRow sha256 id name mimeType data root) committed)
  | .deleteAttachment id => some (s.deleteAttachment id)
  | .deleteThread id =>
    some (if id ∈ s.threads.map (·.id) then s.deleteThreads [id] else s)
  | .removeProject id =>
    let left : BlobStore := { s with projects := s.projects.filter (· ≠ id) }
    some (if id ∈ s.projects then left.deleteThreads ((s.threads.filter (·.projectId = id)).map (·.id)) else s)
  | .cleanup root => some { s with calls := s.calls ++ [.listing root (s.rows.map (·.storagePath))] }
  | .list call candidates => match s.calls[call]? with
    | some (.listing root referenced) =>
      if candidates.all fun path => path.root = root ∧ (s.blobs path).isSome then
        some { s with calls := s.calls.set call (.sweeping referenced candidates) }
      else none
    | _ => none
  | .next call => match s.calls[call]? with
    | some (.unlinking (path :: paths)) =>
      some { s.unlink path with calls := s.calls.set call (.unlinking paths) }
    | some (.sweeping referenced (path :: candidates)) =>
      let left := if path ∈ referenced then s else s.unlink path
      some { left with calls := s.calls.set call (.sweeping referenced candidates) }
    | _ => none
  | .edit projects threads turns => some { s with projects := projects, threads := threads, turns := turns }

/-- The event takes the row of that id away. -/
def deletes (s : BlobStore) (id : String) : BlobEvent → Bool
  | .deleteAttachment other => other = id
  | .deleteThread thread => thread ∈ s.threads.map (·.id)
      ∧ id ∈ (s.withoutThreads [thread]).deletable (attachmentIdsForThreads s.turns [thread])
  | .removeProject project =>
    let threads := (s.threads.filter (·.projectId = project)).map (·.id)
    project ∈ s.projects ∧ id ∈ (s.withoutThreads threads).deletable (attachmentIdsForThreads s.turns threads)
  | _ => false

/-! ### The invariant -/

/-- Every row has its file, and every file has a row or a call that is about to unlink it. -/
structure Matched (s : BlobStore) : Prop where
  ids : (s.rows.map (·.id)).Nodup
  digests : ∀ row ∈ s.rows, row.storagePath.digest = sha256 row.data
  sizes : ∀ row ∈ s.rows, row.sizeBytes = row.data.length
  contents : ∀ row ∈ s.rows, s.blobs row.storagePath = some row.data
  addressed : ∀ path content, s.blobs path = some content → sha256 content = path.digest
  covered : ∀ path content, s.blobs path = some content →
    (∃ row ∈ s.rows, row.storagePath = path) ∨ ∃ paths, .unlinking paths ∈ s.calls ∧ path ∈ paths
  spared : ∀ call ∈ s.calls, ∀ row ∈ s.rows, call.mayUnlink row.storagePath = false

/-- The condition on an upload: its file, if it is there, has its content, and no call may still unlink
    it. -/
def Clear (s : BlobStore) : BlobEvent → Prop
  | .add id _ _ data root committed =>
    committed = true → id ∉ s.rows.map (·.id) →
      (∀ content ∈ s.blobs ⟨root, sha256 data⟩, content = data)
        ∧ ∀ call ∈ s.calls, call.mayUnlink ⟨root, sha256 data⟩ = false
  | _ => True

instance (s : BlobStore) : ∀ e, Decidable (Clear sha256 s e)
  | .add _ _ _ _ _ _ => inferInstanceAs (Decidable (_ → _ → _ ∧ _))
  | .deleteAttachment _ | .deleteThread _ | .removeProject _ | .cleanup _ | .list _ _ | .next _ | .edit _ _ _ =>
    inferInstanceAs (Decidable True)

variable {sha256} {s t : BlobStore}

theorem unreferenced_iff {rows : List AttachmentRow} {path : BlobPath} :
    unreferenced rows path = true ↔ ∀ row ∈ rows, row.storagePath ≠ path := by
  simp [unreferenced]

/-- The empty store is matched. -/
theorem matched_empty (sha256 : List UInt8 → String) : ({} : BlobStore).Matched sha256 :=
  ⟨by simp, by simp, by simp, by simp, nofun, nofun, by simp⟩

/-- The file of a path that no row has goes. -/
theorem Matched.unlink (h : s.Matched sha256) {path : BlobPath} (hfree : ∀ row ∈ s.rows, row.storagePath ≠ path) :
    (s.unlink path).Matched sha256 := by
  have hleft : ∀ other content, (s.unlink path).blobs other = some content →
      other ≠ path ∧ s.blobs other = some content := by
    intro other content hcontent
    by_cases hother : other = path
    · simp [BlobStore.unlink, hother] at hcontent
    · exact ⟨hother, by simpa [BlobStore.unlink, Function.update_of_ne hother] using hcontent⟩
  refine { h with contents := ?_, addressed := ?_, covered := ?_ }
  · intro row hrow
    show Function.update s.blobs path none row.storagePath = _
    rw [Function.update_of_ne (hfree row hrow)]
    exact h.contents row hrow
  · exact fun other content hcontent => h.addressed other content (hleft other content hcontent).2
  · exact fun other content hcontent => h.covered other content (hleft other content hcontent).2

/-- A row comes, with its file. -/
theorem Matched.add (h : s.Matched sha256) {row : AttachmentRow} (hid : row.id ∉ s.rows.map (·.id))
    (hdigest : row.storagePath.digest = sha256 row.data) (hsize : row.sizeBytes = row.data.length)
    (hsame : ∀ content ∈ s.blobs row.storagePath, content = row.data)
    (hclear : ∀ call ∈ s.calls, call.mayUnlink row.storagePath = false) :
    (s.add sha256 row true).Matched sha256 := by
  have hblobs : (s.add sha256 row true).blobs = Function.update s.blobs row.storagePath (some row.data) := by
    rw [BlobStore.add, if_pos ⟨rfl, hid⟩]
    cases hblob : s.blobs row.storagePath with
    | none => simp
    | some content =>
      obtain rfl := hsame content hblob
      simp [hdigest, ← hblob]
  have hrows : (s.add sha256 row true).rows = s.rows ++ [row] := by rw [BlobStore.add, if_pos ⟨rfl, hid⟩]
  have hcalls : (s.add sha256 row true).calls = s.calls := by rw [BlobStore.add, if_pos ⟨rfl, hid⟩]
  refine ⟨?_, ?_, ?_, ?_, ?_, ?_, ?_⟩
  · rw [hrows, List.map_append, List.nodup_append]
    refine ⟨h.ids, by simp, ?_⟩
    rintro other hother _ hmem rfl
    rw [List.map_singleton, List.mem_singleton] at hmem
    exact hid (hmem ▸ hother)
  · rw [hrows]
    exact List.forall_mem_append.mpr ⟨h.digests, by simpa using hdigest⟩
  · rw [hrows]
    exact List.forall_mem_append.mpr ⟨h.sizes, by simpa using hsize⟩
  · rw [hrows, hblobs]
    refine List.forall_mem_append.mpr ⟨?_, by simp⟩
    intro other hother
    by_cases hpath : other.storagePath = row.storagePath
    · have hcontent := h.contents other hother
      rw [hpath] at hcontent
      rw [hpath, Function.update_self, hsame _ hcontent]
    · rw [Function.update_of_ne hpath]
      exact h.contents other hother
  · rw [hblobs]
    intro path content hcontent
    by_cases hpath : path = row.storagePath
    · subst hpath
      rw [Function.update_self] at hcontent
      obtain rfl := Option.some.inj hcontent
      exact hdigest.symm
    · rw [Function.update_of_ne hpath] at hcontent
      exact h.addressed path content hcontent
  · rw [hblobs, hrows, hcalls]
    intro path content hcontent
    by_cases hpath : path = row.storagePath
    · exact .inl ⟨row, by simp, hpath.symm⟩
    · rw [Function.update_of_ne hpath] at hcontent
      refine (h.covered path content hcontent).imp_left ?_
      rintro ⟨other, hother, hother'⟩
      exact ⟨other, List.mem_append_left _ hother, hother'⟩
  · rw [hrows, hcalls]
    intro call hcall
    exact List.forall_mem_append.mpr ⟨h.spared call hcall, by simpa using hclear call hcall⟩

/-- An upload that does not commit takes its file away again. -/
theorem Matched.add_failed (h : s.Matched sha256) {row : AttachmentRow} {committed : Bool}
    (hfailed : ¬ (committed = true ∧ row.id ∉ s.rows.map (·.id))) :
    (s.add sha256 row committed).Matched sha256 := by
  rw [BlobStore.add, if_neg hfailed]
  split
  · exact h
  · rename_i habsent
    refine h.unlink ?_
    intro other hother hpath
    have hcontent := h.contents other hother
    rw [hpath] at hcontent
    exact habsent (by simp [hcontent, ← h.digests other hother, hpath])

/-- Rows go, and a call is to unlink the files that no row has any more. -/
theorem Matched.dropRows (h : s.Matched sha256) {p : AttachmentRow → Bool} {paths : List BlobPath}
    (hpaths : ∀ path ∈ paths, unreferenced (s.rows.filter p) path = true)
    (hall : ∀ row ∈ s.rows, p row = false → unreferenced (s.rows.filter p) row.storagePath = true →
      row.storagePath ∈ paths) :
    { s with rows := s.rows.filter p, calls := s.calls ++ [.unlinking paths] : BlobStore }.Matched sha256 := by
  have hsub : ∀ row ∈ s.rows.filter p, row ∈ s.rows := fun row hrow => (List.mem_filter.mp hrow).1
  refine ⟨h.ids.sublist (List.filter_sublist.map _), fun row hrow => h.digests row (hsub row hrow),
    fun row hrow => h.sizes row (hsub row hrow), fun row hrow => h.contents row (hsub row hrow),
    h.addressed, ?_, ?_⟩
  · intro path content hcontent
    by_cases hkept : ∃ row ∈ s.rows.filter p, row.storagePath = path
    · exact .inl hkept
    · refine .inr ?_
      rcases h.covered path content hcontent with ⟨row, hrow, rfl⟩ | ⟨pending, hpending, hpath⟩
      · have hfree : unreferenced (s.rows.filter p) row.storagePath = true :=
          unreferenced_iff.mpr fun other hother heq => hkept ⟨other, hother, heq⟩
        have hgone : p row = false := by
          cases hp : p row with
          | false => rfl
          | true => exact absurd ⟨row, List.mem_filter.mpr ⟨hrow, hp⟩, rfl⟩ hkept
        exact ⟨paths, by simp, hall row hrow hgone hfree⟩
      · exact ⟨pending, List.mem_append_left _ hpending, hpath⟩
  · intro call hcall row hrow
    rcases List.mem_append.mp hcall with hcall | hcall
    · exact h.spared call hcall row (hsub row hrow)
    · obtain rfl := List.mem_singleton.mp hcall
      rw [BlobCall.mayUnlink, decide_eq_false_iff_not]
      exact fun hmem => unreferenced_iff.mp (hpaths _ hmem) row hrow rfl

/-- The other tables do not matter. -/
theorem Matched.edit (h : s.Matched sha256) (projects : List String) (threads : List ThreadRow)
    (turns : List TurnRow) :
    { s with projects := projects, threads := threads, turns := turns : BlobStore }.Matched sha256 :=
  ⟨h.ids, h.digests, h.sizes, h.contents, h.addressed, h.covered, h.spared⟩

theorem Matched.deleteThreads (h : s.Matched sha256) (threadIds : List String) :
    (s.deleteThreads threadIds).Matched sha256 := by
  refine (h.dropRows ?_ ?_).edit s.projects (s.threads.filter (·.id ∉ threadIds))
    (s.turns.filter (·.threadId ∉ threadIds))
  · exact fun path hpath => (List.mem_filter.mp hpath).2
  · intro row hrow hgone hfree
    refine List.mem_filter.mpr ⟨?_, hfree⟩
    rw [List.mem_eraseDups]
    refine List.mem_map.mpr ⟨row, List.mem_filter.mpr ⟨hrow, ?_⟩, rfl⟩
    simpa using hgone

theorem Matched.deleteAttachment (h : s.Matched sha256) (id : String) :
    (s.deleteAttachment id).Matched sha256 := by
  rw [BlobStore.deleteAttachment]
  split
  · exact h
  rename_i row hfound
  obtain ⟨hid, hrow⟩ : row.id = id ∧ row ∈ s.rows :=
    ⟨by simpa using List.find?_some hfound, List.mem_of_find?_eq_some hfound⟩
  have hsub : ∀ other ∈ s.rows.filter (·.id ≠ id), other ∈ s.rows :=
    fun other hother => (List.mem_filter.mp hother).1
  have hkept : ∀ other ∈ s.rows, other.storagePath ≠ row.storagePath → other ∈ s.rows.filter (·.id ≠ id) := by
    intro other hother hne
    refine List.mem_filter.mpr ⟨hother, ?_⟩
    rw [decide_eq_true_eq]
    intro heq
    obtain rfl : other = row := List.inj_on_of_nodup_map h.ids hother hrow (heq.trans hid.symm)
    exact hne rfl
  have hcovered : ∀ path content, s.blobs path = some content → path ≠ row.storagePath →
      (∃ other ∈ s.rows.filter (·.id ≠ id), other.storagePath = path)
        ∨ ∃ paths, .unlinking paths ∈ s.calls ∧ path ∈ paths := by
    intro path content hcontent hne
    refine (h.covered path content hcontent).imp_left ?_
    rintro ⟨other, hother, rfl⟩
    exact ⟨other, hkept other hother hne, rfl⟩
  have hids : ((s.rows.filter (·.id ≠ id)).map (·.id)).Nodup := h.ids.sublist (List.filter_sublist.map _)
  simp only
  split
  · rename_i hfree
    have hblobs : ∀ path content, Function.update s.blobs row.storagePath none path = some content →
        path ≠ row.storagePath ∧ s.blobs path = some content := by
      intro path content hcontent
      by_cases hpath : path = row.storagePath
      · simp [hpath] at hcontent
      · exact ⟨hpath, by rwa [Function.update_of_ne hpath] at hcontent⟩
    refine ⟨hids, fun other hother => h.digests other (hsub other hother),
      fun other hother => h.sizes other (hsub other hother), ?_,
      fun path content hcontent => h.addressed path content (hblobs path content hcontent).2,
      fun path content hcontent => ?_, fun call hcall other hother => h.spared call hcall other (hsub other hother)⟩
    · intro other hother
      show Function.update s.blobs row.storagePath none other.storagePath = _
      rw [Function.update_of_ne (unreferenced_iff.mp hfree other hother)]
      exact h.contents other (hsub other hother)
    · exact hcovered path content (hblobs path content hcontent).2 (hblobs path content hcontent).1
  · rename_i hshared
    obtain ⟨other, hother, hpath⟩ : ∃ other ∈ s.rows.filter (·.id ≠ id), other.storagePath = row.storagePath := by
      by_contra hnone
      exact hshared (unreferenced_iff.mpr fun other hother heq => hnone ⟨other, hother, heq⟩)
    refine ⟨hids, fun other hother => h.digests other (hsub other hother),
      fun other hother => h.sizes other (hsub other hother),
      fun other hother => h.contents other (hsub other hother), h.addressed, fun path content hcontent => ?_,
      fun call hcall other hother => h.spared call hcall other (hsub other hother)⟩
    by_cases hsame : path = row.storagePath
    · exact .inl ⟨other, hother, hpath.trans hsame.symm⟩
    · exact hcovered path content hcontent hsame

/-! ### The steps -/

theorem mem_of_mem_set {call : Nat} {old new other : BlobCall} {calls : List BlobCall}
    (hold : calls[call]? = some old) (h : other ∈ calls) (hne : other ≠ old) : other ∈ calls.set call new := by
  obtain ⟨i, hi⟩ := List.mem_iff_getElem?.mp h
  refine List.mem_iff_getElem?.mpr ⟨i, ?_⟩
  rw [List.getElem?_set_ne]
  · exact hi
  · rintro rfl
    exact hne (Option.some.inj (hi.symm.trans hold))

/-- A call goes on: it may unlink no more than before, and what it leaves out is not there. -/
theorem Matched.setCall (h : s.Matched sha256) {call : Nat} {old new : BlobCall} (hold : s.calls[call]? = some old)
    (hless : ∀ path, new.mayUnlink path = true → old.mayUnlink path = true)
    (hcover : ∀ paths, old = .unlinking paths → ∃ paths', new = .unlinking paths'
      ∧ ∀ path ∈ paths, path ∈ paths' ∨ s.blobs path = none) :
    { s with calls := s.calls.set call new : BlobStore }.Matched sha256 := by
  have hmem : old ∈ s.calls := List.mem_of_getElem? hold
  refine { h with covered := ?_, spared := ?_ }
  · intro path content hcontent
    refine (h.covered path content hcontent).imp_right ?_
    rintro ⟨paths, hpaths, hpath⟩
    by_cases hsame : BlobCall.unlinking paths = old
    · obtain ⟨paths', rfl, hleft⟩ := hcover paths hsame.symm
      rcases hleft path hpath with hpath' | hnone
      · have hlt : call < s.calls.length := (List.getElem?_eq_some_iff.mp hold).1
        exact ⟨paths', List.mem_iff_getElem?.mpr ⟨call, by simp [hlt]⟩, hpath'⟩
      · rw [show s.blobs path = _ from hcontent] at hnone
        exact absurd hnone nofun
    · exact ⟨paths, mem_of_mem_set hold hpaths hsame, hpath⟩
  · intro other hother row hrow
    rcases List.mem_or_eq_of_mem_set hother with hother | rfl
    · exact h.spared other hother row hrow
    · by_contra hmay
      rw [Bool.not_eq_false] at hmay
      exact absurd (hless _ hmay) (by simp [h.spared old hmem row hrow])

/-- A row that the event does not take away stays. -/
theorem row_kept {e : BlobEvent} {row : AttachmentRow} (hrow : row ∈ s.rows) (hkept : s.deletes row.id e = false)
    (hstep : s.step sha256 e = some t) : row ∈ t.rows := by
  cases e with
  | add id name mimeType data root committed =>
    obtain rfl := Option.some.inj hstep
    rw [BlobStore.add]
    split
    · exact List.mem_append_left _ hrow
    · split <;> exact hrow
  | deleteAttachment id =>
    obtain rfl := Option.some.inj hstep
    have hne : row.id ≠ id := by simpa [deletes, eq_comm] using hkept
    rw [BlobStore.deleteAttachment]
    split
    · exact hrow
    · simp only
      split <;> exact List.mem_filter.mpr ⟨hrow, by simpa using hne⟩
  | deleteThread id =>
    obtain rfl := Option.some.inj hstep
    split
    · rename_i hthere
      simp only [deletes, decide_eq_false_iff_not, not_and] at hkept
      exact List.mem_filter.mpr ⟨hrow, decide_eq_true (hkept hthere)⟩
    · exact hrow
  | removeProject id =>
    obtain rfl := Option.some.inj hstep
    split
    · rename_i hthere
      simp only [deletes, decide_eq_false_iff_not, not_and] at hkept
      exact List.mem_filter.mpr ⟨hrow, decide_eq_true (hkept hthere)⟩
    · exact hrow
  | cleanup root =>
    obtain rfl := Option.some.inj hstep
    exact hrow
  | list call candidates =>
    simp only [step] at hstep
    split at hstep
    · split at hstep
      · obtain rfl := Option.some.inj hstep
        exact hrow
      · simp at hstep
    · simp at hstep
  | next call =>
    simp only [step] at hstep
    split at hstep
    · obtain rfl := Option.some.inj hstep
      exact hrow
    · obtain rfl := Option.some.inj hstep
      split <;> exact hrow
    · simp at hstep
  | edit projects threads turns =>
    obtain rfl := Option.some.inj hstep
    exact hrow

/-- **One step** keeps the rows and the files matched, when an upload meets no call that may still unlink
    its file. -/
theorem matched_step {e : BlobEvent} (h : s.Matched sha256) (hclear : s.Clear sha256 e)
    (hstep : s.step sha256 e = some t) : t.Matched sha256 := by
  cases e with
  | add id name mimeType data root committed =>
    obtain rfl := Option.some.inj hstep
    by_cases hnew : committed = true ∧ id ∉ s.rows.map (·.id)
    · obtain ⟨rfl, hid⟩ := hnew
      obtain ⟨hsame, hspared⟩ := hclear rfl hid
      exact h.add hid rfl rfl hsame hspared
    · exact h.add_failed hnew
  | deleteAttachment id =>
    obtain rfl := Option.some.inj hstep
    exact h.deleteAttachment id
  | deleteThread id =>
    obtain rfl := Option.some.inj hstep
    split
    · exact h.deleteThreads [id]
    · exact h
  | removeProject id =>
    obtain rfl := Option.some.inj hstep
    split
    · exact (h.edit _ s.threads s.turns).deleteThreads _
    · exact h
  | cleanup root =>
    obtain rfl := Option.some.inj hstep
    refine { h with covered := ?_, spared := ?_ }
    · intro path content hcontent
      refine (h.covered path content hcontent).imp_right ?_
      rintro ⟨paths, hpaths, hpath⟩
      exact ⟨paths, List.mem_append_left _ hpaths, hpath⟩
    · intro call hcall row hrow
      rcases List.mem_append.mp hcall with hcall | hcall
      · exact h.spared call hcall row hrow
      · obtain rfl := List.mem_singleton.mp hcall
        have hmem : row.storagePath ∈ s.rows.map (·.storagePath) := List.mem_map_of_mem hrow
        simp only [BlobCall.mayUnlink, decide_eq_false_iff_not]
        exact fun hmay => hmay.2 hmem
  | list call candidates =>
    simp only [step] at hstep
    split at hstep
    · rename_i root referenced hcall
      split at hstep
      · rename_i hthere
        obtain rfl := Option.some.inj hstep
        refine h.setCall hcall ?_ nofun
        intro path hmay
        simp only [BlobCall.mayUnlink, decide_eq_true_eq] at hmay ⊢
        have hroot := List.all_eq_true.mp hthere path hmay.1
        rw [decide_eq_true_eq] at hroot
        exact ⟨hroot.1, hmay.2⟩
      · simp at hstep
    · simp at hstep
  | next call =>
    simp only [step] at hstep
    split at hstep
    · rename_i path paths hcall
      obtain rfl := Option.some.inj hstep
      have hfree : ∀ row ∈ s.rows, row.storagePath ≠ path := by
        rintro row hrow rfl
        have hspared := h.spared _ (List.mem_of_getElem? hcall) row hrow
        simp [BlobCall.mayUnlink] at hspared
      refine (h.unlink hfree).setCall (s := s.unlink path) hcall ?_ ?_
      · intro other hother
        simp only [BlobCall.mayUnlink, decide_eq_true_eq] at hother ⊢
        exact List.mem_cons_of_mem _ hother
      · intro all hall
        obtain rfl := BlobCall.unlinking.inj hall
        refine ⟨paths, rfl, ?_⟩
        intro other hother
        rcases List.mem_cons.mp hother with rfl | hother
        · exact .inr (by simp [BlobStore.unlink])
        · exact .inl hother
    · rename_i referenced path candidates hcall
      obtain rfl := Option.some.inj hstep
      have hless : ∀ other, BlobCall.mayUnlink other (.sweeping referenced candidates) = true →
          BlobCall.mayUnlink other (.sweeping referenced (path :: candidates)) = true := by
        intro other hother
        simp only [BlobCall.mayUnlink, decide_eq_true_eq] at hother ⊢
        exact ⟨List.mem_cons_of_mem _ hother.1, hother.2⟩
      split
      · exact h.setCall hcall hless nofun
      · rename_i hunreferenced
        have hfree : ∀ row ∈ s.rows, row.storagePath ≠ path := by
          rintro row hrow rfl
          have hspared := h.spared _ (List.mem_of_getElem? hcall) row hrow
          simp [BlobCall.mayUnlink, hunreferenced] at hspared
        exact (h.unlink hfree).setCall (s := s.unlink path) hcall hless nofun
    · simp at hstep
  | edit projects threads turns =>
    obtain rfl := Option.some.inj hstep
    exact h.edit projects threads turns

/-- A whole run does. -/
theorem matched_run {events : List BlobEvent} (hstart : s.Matched sha256)
    (hclear : Transition.EveryStep (step sha256) (Clear sha256) s events)
    (hrun : Transition.run (step sha256) s events = some t) : t.Matched sha256 :=
  Transition.run_invariant (fun _ _ _ h hclear hstep => matched_step h hclear hstep) hstart hclear hrun

/-- **Blobs match rows.** In every run in which no upload meets another content of its digest, or a call
    that may still unlink its file: every row has its file with its content, and when the calls have
    finished no file is without a row. -/
theorem blobs_match {events : List BlobEvent} (hstart : s.Matched sha256)
    (hclear : Transition.EveryStep (step sha256) (Clear sha256) s events)
    (hrun : Transition.run (step sha256) s events = some t) :
    (∀ row ∈ t.rows, t.blobs row.storagePath = some row.data)
      ∧ ((∀ call ∈ t.calls, call.finished = true) →
          ∀ path content, t.blobs path = some content → ∃ row ∈ t.rows, row.storagePath = path) := by
  have h := matched_run hstart hclear hrun
  refine ⟨h.contents, ?_⟩
  intro hfinished path content hcontent
  rcases h.covered path content hcontent with hrow | ⟨paths, hpaths, hpath⟩
  · exact hrow
  · have hempty := hfinished _ hpaths
    rw [BlobCall.finished, List.isEmpty_iff] at hempty
    rw [hempty] at hpath
    exact absurd hpath List.not_mem_nil

/-! ### An upload behind a deletion -/

/-- The digests of the contents that are used below. -/
def sampleSha256 (data : List UInt8) : String :=
  if data = [] then "e3b0c44298fc1c149afbf4c8996fb92427ae41e4649b934ca495991b7852b855"
  else if data = [1] then "4bf5122f344554c53bde2ebb8cd2b7e3d1600ad631c385a5d7cce23c7785459a"
  else "0000000000000000000000000000000000000000000000000000000000000000"

/-- An attachment of one byte that a turn names, and the deletion of the thread. -/
def sampleDeletion : List BlobEvent :=
  [.edit ["p"] [⟨"t", "p"⟩] [⟨"t", some (.arr [.str "a"])⟩], .add "a" "one.bin" none [1] ["data"] true,
    .deleteThread "t"]

/-- The same content is uploaded again. -/
def sampleUpload : BlobEvent := .add "b" "one.bin" none [1] ["data"] true

/-- The upload comes behind the `unlink` of the deletion. -/
theorem blobs_match_upload :
    ∃ t, Transition.run (step sampleSha256) {} (sampleDeletion ++ [.next 0, sampleUpload]) = some t
      ∧ t.rows.length = 1
      ∧ (∀ row ∈ t.rows, t.blobs row.storagePath = some row.data)
      ∧ ((∀ call ∈ t.calls, call.finished = true) →
          ∀ path content, t.blobs path = some content → ∃ row ∈ t.rows, row.storagePath = path) := by
  obtain ⟨t, hrun, hone⟩ : ∃ t, Transition.run (step sampleSha256) {}
      (sampleDeletion ++ [.next 0, sampleUpload]) = some t ∧ t.rows.length = 1 :=
    Transition.exists_run (by decide +kernel)
  exact ⟨t, hrun, hone, blobs_match (matched_empty _) (by decide +kernel) hrun⟩

/-- The upload comes between the transaction of the deletion and its `unlink`: its row is there, and its
    file is not. -/
theorem upload_meets_unlink :
    ∃ t, Transition.run (step sampleSha256) {} (sampleDeletion ++ [sampleUpload, .next 0]) = some t
      ∧ ¬ ∀ row ∈ t.rows, t.blobs row.storagePath = some row.data := by
  obtain ⟨t, hrun, hlost⟩ : ∃ t, Transition.run (step sampleSha256) {}
      (sampleDeletion ++ [sampleUpload, .next 0]) = some t
      ∧ t.rows.any (fun row => (t.blobs row.storagePath).isNone) = true :=
    Transition.exists_run (by decide +kernel)
  obtain ⟨row, hrow, hnone⟩ := List.any_eq_true.mp hlost
  refine ⟨t, hrun, ?_⟩
  intro hall
  rw [hall row hrow] at hnone
  simp at hnone

end BlobStore

end AeloonRuntime
