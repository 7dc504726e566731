import AeloonRuntime.Runtime.OperationBlocks
import AeloonRuntime.Runtime.SessionRecovery
import AeloonRuntime.Runtime.SessionStats

namespace AeloonRuntime

open Py Results

/-!
# Session list — the sessions of a directory, read from arbitrary files

`JsonlSessionRepository.list` reads the headers of all files, and `session_list` then opens every session
that it lists.

* `SessionDirectory` — the `*.jsonl` files of a directory;
* `list`, `openListed`, `sessionList` — the three methods;
* `Sound` — what each file needs for that;
* `list_complete_iff` — both succeed and show every session that is accepted, exactly then;
* `undecodable_file` — one byte that is not UTF-8 hides the other sessions.

The limits of `json.loads` and what `float` takes are parameters: `beyond` says that `json.loads` raises
something else than `JSONDecodeError` (`RecursionError` of deep nesting, `ValueError` of an integer with
too many digits), `noFloat` that `float` of a value raises.
-/

/-! ### Values of a header -/

/-- The value can be a key. -/
def isHashable : Json → Bool
  | .arr _ | .obj _ => false
  | _ => true

/-- An item of the argument of `dict`. -/
def pairOf : Json → Except PyError (Json × Json)
  | .arr [key, value] => if isHashable key then .ok (key, value) else .error .decodeError
  | .str s => match s.toList with
    | [a, b] => .ok (.str (String.ofList [a]), .str (String.ofList [b]))
    | _ => .error .decodeError
  | .obj items => match (items.map (·.1)).eraseDups with
    | [a, b] => .ok (.str a, .str b)
    | _ => .error .decodeError
  | _ => .error .decodeError

/-- `dict(header.get("metadata") or {})`. -/
def metadataItems (header : Dict) : Except PyError (List (Json × Json)) :=
  let value := Dict.getD header "metadata"
  if value.truthy then
    match value with
    | .obj items => .ok (items.map fun item => (.str item.1, item.2))
    | .arr items => items.mapM pairOf
    | _ => .error .decodeError
  else .ok []

/-- `metadata.get("title")`. -/
def metadataTitle (items : List (Json × Json)) : Json :=
  ((items.reverse.find? fun item => item.1 = .str "title").map (·.2)).getD .null

/-- `get_name`. -/
def sessionName (entries : List Dict) : Option String :=
  match (entries.filter (isType · "session_info")).getLast? with
  | none => none
  | some entry =>
    let name := Dict.getD entry "name"
    if name.truthy then some (strip name.pyStr) else none

section Reading

variable (beyond : List Char → Bool) (noFloat : Json → Bool) (toFloat : Json → Rat)

/-- `_read_session(path, True)`. -/
def readHeaderOnly (path : String) (file : ByteArray) : Except PyError Dict :=
  match decodeUtf8 file with
  | none => .error .unicodeDecodeError
  | some text => match splitlines (universalNewlines text) with
    | [] => .error (invalidSession path "missing header")
    | line :: _ => if beyond line then .error .decodeError else readHeader path line

/-- The loop of `_read_session`, with the limits of `json.loads`. -/
def readEntriesWithin (path : String) : Nat → List (List Char) → Except PyError (List Dict)
  | _, [] => .ok []
  | index, line :: lines =>
    if isBlank line then readEntriesWithin path (index + 1) lines
    else if beyond line then .error .decodeError
    else
      match loads line with
      | none => if lines = [] then .ok [] else .error (invalidEntry path index)
      | some (.obj entry) =>
        if isEntry entry then (readEntriesWithin path (index + 1) lines).map (entry :: ·)
        else .error (invalidEntry path index)
      | some _ => .error (invalidEntry path index)

/-- `_read_session`, with the limits of `json.loads`. -/
def readSessionWithin (path : String) (file : ByteArray) : Except PyError (Dict × List Dict × Json) :=
  match decodeUtf8 file with
  | none => .error .unicodeDecodeError
  | some text => match splitlines (universalNewlines text) with
    | [] => .error (invalidSession path "missing header")
    | line :: lines => do
      let header ← if beyond line then .error .decodeError else readHeader path line
      let entries ← readEntriesWithin beyond path 2 lines
      return (header, entries, leafOf entries)

/-- Without limits of `json.loads`, the loop is that of a plain reading. -/
theorem readEntriesWithin_eq (path : String) (index : Nat) (lines : List (List Char)) :
    readEntriesWithin (fun _ => false) path index lines = readEntries path index lines := by
  induction lines generalizing index with
  | nil => rfl
  | cons line lines ih =>
    simp only [readEntriesWithin, ih, Bool.false_eq_true, if_false]
    rfl

/-- Without them, a file is read as `readSession` reads it. -/
theorem readSessionWithin_eq (path : String) (file : ByteArray) :
    readSessionWithin (fun _ => false) path file = readSession path file := by
  unfold readSessionWithin readSession
  cases decodeUtf8 file with
  | none => rfl
  | some text =>
    simp only [readText]
    cases splitlines (universalNewlines text) with
    | nil => rfl
    | cons line lines => simp only [readEntriesWithin_eq, Bool.false_eq_true, if_false]

/-- `float` of the cost raises. -/
def floatFails (entry : Dict) : Bool :=
  match entryUsage entry with
  | .ok (some usage) => match (Dict.getD usage "cost").asDict? with
    | some cost => (Dict.getD cost "total").truthy && noFloat (Dict.getD cost "total")
    | none => false
  | _ => false

/-- `_lifetime_stats` in the constructor of `Session`. -/
def loadStats (entries : List Dict) : Except PyError LifetimeStats :=
  if entries.any (floatFails noFloat) then .error .decodeError else lifetimeStats toFloat entries

end Reading

/-! ### The directory -/

/-- The `*.jsonl` files of a directory, in the order of `glob`, by their stems. -/
structure SessionDirectory where
  path : String
  files : List (String × ByteArray)
  /-- The names of the files of a directory are distinct. -/
  nodup : (files.map (·.1)).Nodup

/-- `SessionMetadata`, with the items of `metadata`. -/
structure ListedSession where
  /-- The stem of its path. -/
  stem : String
  metadata : SessionMetadata
  items : List (Json × Json)

/-- A row of `session_list`. -/
structure SessionRow where
  sessionId : String
  workspace : String
  createdAt : String
  title : Json

namespace SessionDirectory

variable (beyond : List Char → Bool) (noFloat : Json → Bool) (toFloat : Json → Rat)

/-- `_path`, as a text. -/
def filePath (d : SessionDirectory) (stem : String) : String := d.path ++ "/" ++ stem ++ ".jsonl"

/-- The file of a stem. -/
def file (d : SessionDirectory) (stem : String) : Option ByteArray :=
  (d.files.find? fun f => f.1 = stem).map (·.2)

/-- `expected_cwd is None or metadata.cwd == expected_cwd`. -/
def inWorkspace (cwd : Option String) (header : Dict) : Bool :=
  cwd.all fun expected => (metadataOf header).cwd = expected

/-- The loop of `list`. -/
def listFiles (d : SessionDirectory) (cwd : Option String) :
    List (String × ByteArray) → Except PyError (List ListedSession)
  | [] => .ok []
  | f :: files => match readHeaderOnly beyond (d.filePath f.1) f.2 with
    | .error (.sessionError _ _) => listFiles d cwd files
    | .error e => .error e
    | .ok header => do
      let items ← metadataItems header
      let rest ← listFiles d cwd files
      return if inWorkspace cwd header then ⟨f.1, metadataOf header, items⟩ :: rest else rest

/-- `sorted(result, key=lambda item: item.created_at, reverse=True)`. -/
def newestFirst (a b : ListedSession) : Bool := b.metadata.createdAt ≤ a.metadata.createdAt

/-- `JsonlSessionRepository.list`. -/
def list (d : SessionDirectory) (cwd : Option String) : Except PyError (List ListedSession) := do
  let result ← d.listFiles beyond cwd d.files
  return result.mergeSort newestFirst

/-- `JsonlSessionRepository.open`. -/
def openListed (d : SessionDirectory) (sessionId : String) : Except PyError Session := do
  if !isSessionId sessionId then
    .error (.sessionError "invalid_session" "session id must contain only letters, digits, '-' or '_'")
  else match d.file sessionId with
  | none => .error (.sessionError "not_found" s!"Session {sessionId} not found")
  | some file =>
    let (header, entries, leaf) ← readSessionWithin beyond (d.filePath sessionId) file
    if Dict.getD header "id" ≠ .str sessionId then
      .error (.sessionError "invalid_session" s!"Session header id differs from {sessionId}")
    else
      let _ ← metadataItems header
      let _ ← loadStats noFloat toFloat entries
      return { metadata := metadataOf header, entries := entries, currentLeafId := leaf }

/-- A row of `session_list`, for a session that is listed. -/
def row (d : SessionDirectory) (item : ListedSession) : Except PyError SessionRow := do
  let session ← d.openListed beyond noFloat toFloat item.metadata.id
  return {
    sessionId := item.metadata.id
    workspace := item.metadata.cwd
    createdAt := item.metadata.createdAt
    title := match sessionName session.entries with
      | some name => if name = "" then metadataTitle item.items else .str name
      | none => metadataTitle item.items }

/-- `session_list`. -/
def sessionList (d : SessionDirectory) (cwd : Option String) : Except PyError (List SessionRow) := do
  let items ← d.list beyond cwd
  items.mapM (d.row beyond noFloat toFloat)

/-! ### What each file needs -/

/-- The bytes are text, and `json.loads` of its first line stays within its limits. -/
def Decodable (file : ByteArray) : Prop :=
  ∃ text, decodeUtf8 file = some text
    ∧ ∀ line ∈ (splitlines (universalNewlines text)).head?, beyond line = false

/-- The session of that id can be opened: its file is there and read, has its id and a `metadata` that is
    a mapping, and its usages are numbers. -/
structure Opens (d : SessionDirectory) (id : String) (file : ByteArray) (header : Dict) (entries : List Dict)
    (leaf : Json) : Prop where
  id_ok : isSessionId id = true
  there : d.file id = some file
  read : readSessionWithin beyond (d.filePath id) file = .ok (header, entries, leaf)
  own : Dict.getD header "id" = .str id
  metadata : ∃ items, metadataItems header = .ok items
  stats : ∃ stats, loadStats noFloat toFloat entries = .ok stats

/-- What the files need: each is text; where the header of one is accepted, its `metadata` is a mapping,
    and, in the workspace, the session that it names can be opened. -/
structure Sound (d : SessionDirectory) (cwd : Option String) : Prop where
  decodable : ∀ f ∈ d.files, Decodable beyond f.2
  metadata : ∀ f ∈ d.files, ∀ header, readHeaderOnly beyond (d.filePath f.1) f.2 = .ok header →
    ∃ items, metadataItems header = .ok items
  opens : ∀ f ∈ d.files, ∀ header, readHeaderOnly beyond (d.filePath f.1) f.2 = .ok header →
    inWorkspace cwd header = true →
      ∃ file opened entries leaf, d.Opens beyond noFloat toFloat (metadataOf header).id file opened entries leaf

/-- Every session whose file is accepted, under its own name and in the workspace, is shown. -/
def ShowsAll (d : SessionDirectory) (cwd : Option String) (items : List ListedSession) (rows : List SessionRow) :
    Prop :=
  ∀ f ∈ d.files, ∀ header entries leaf,
    readSessionWithin beyond (d.filePath f.1) f.2 = .ok (header, entries, leaf) →
      Dict.getD header "id" = .str f.1 → inWorkspace cwd header = true →
        (∃ item ∈ items, item.stem = f.1 ∧ item.metadata = metadataOf header)
          ∧ ∃ row ∈ rows, row.sessionId = f.1 ∧ row.workspace = (metadataOf header).cwd
            ∧ row.createdAt = (metadataOf header).createdAt

variable {beyond noFloat toFloat} {d : SessionDirectory} {cwd : Option String}

/-- `readHeader` raises nothing but `SessionError`. -/
theorem readHeader_error {path : String} {line : List Char} {e : PyError} (h : readHeader path line = .error e) :
    ∃ code message, e = .sessionError code message := by
  unfold readHeader at h
  split at h
  · exact ⟨_, _, (Except.error.inj h).symm⟩
  · split at h
    · exact ⟨_, _, (Except.error.inj h).symm⟩
    · split at h
      · exact ⟨_, _, (Except.error.inj h).symm⟩
      · simp at h
  · exact ⟨_, _, (Except.error.inj h).symm⟩

/-- What is tolerated in a list: a file that is text, whose first line stays within the limits. -/
theorem readHeaderOnly_tolerated_iff {path : String} {file : ByteArray} :
    ((∃ header, readHeaderOnly beyond path file = .ok header)
      ∨ ∃ code message, readHeaderOnly beyond path file = .error (.sessionError code message))
        ↔ Decodable beyond file := by
  unfold readHeaderOnly Decodable
  cases htext : decodeUtf8 file with
  | none => simp
  | some text =>
    simp only [Option.some.injEq, exists_eq_left']
    cases hlines : splitlines (universalNewlines text) with
    | nil => simp [invalidSession]
    | cons line lines =>
      simp only [List.head?_cons, Option.mem_some, forall_eq']
      cases hbeyond : beyond line with
      | true => simp
      | false =>
        simp only [Bool.false_eq_true, if_false, iff_true]
        cases hread : readHeader path line with
        | ok header => exact .inl ⟨header, rfl⟩
        | error e =>
          obtain ⟨code, message, rfl⟩ := readHeader_error hread
          exact .inr ⟨code, message, rfl⟩

/-- A file that is read has its header read first. -/
theorem readHeaderOnly_of_read {path : String} {file : ByteArray} {header : Dict} {entries : List Dict}
    {leaf : Json} (h : readSessionWithin beyond path file = .ok (header, entries, leaf)) :
    readHeaderOnly beyond path file = .ok header := by
  unfold readSessionWithin at h
  unfold readHeaderOnly
  cases htext : decodeUtf8 file with
  | none => simp [htext] at h
  | some text =>
    cases hlines : splitlines (universalNewlines text) with
    | nil => simp [htext, hlines] at h
    | cons line lines =>
      cases hbeyond : beyond line with
      | true => simp [htext, hlines, hbeyond, bind, Except.bind] at h
      | false =>
        simp only [htext, hlines, hbeyond, Bool.false_eq_true, if_false] at h ⊢
        obtain ⟨header', hheader, h⟩ := bind_eq_ok_iff.mp h
        obtain ⟨entries', -, h⟩ := bind_eq_ok_iff.mp h
        obtain ⟨rfl, -⟩ := Prod.mk.inj (pure_eq_ok_iff.mp h)
        exact hheader

/-- The loop of `list` succeeds when every file is text and every header is usable. -/
theorem exists_listFiles_iff {files : List (String × ByteArray)} :
    (∃ result, d.listFiles beyond cwd files = .ok result)
      ↔ ∀ f ∈ files, Decodable beyond f.2
        ∧ ∀ header, readHeaderOnly beyond (d.filePath f.1) f.2 = .ok header → ∃ items, metadataItems header = .ok items := by
  induction files with
  | nil => simp [listFiles]
  | cons f files ih =>
    have htolerated := @readHeaderOnly_tolerated_iff beyond (d.filePath f.1) f.2
    rw [List.forall_mem_cons, ← ih, listFiles, ← htolerated]
    cases hread : readHeaderOnly beyond (d.filePath f.1) f.2 with
    | ok header =>
      simp only [bind_eq_ok_iff, pure_eq_ok_iff, Except.ok.injEq, exists_eq', true_or, true_and, forall_eq']
      constructor
      · rintro ⟨result, items, hitems, rest, hrest, -⟩
        exact ⟨⟨items, hitems⟩, rest, hrest⟩
      · rintro ⟨⟨items, hitems⟩, rest, hrest⟩
        exact ⟨_, items, hitems, rest, hrest, rfl⟩
    | error e =>
      cases e with
      | sessionError code message => simp
      | unicodeDecodeError | decodeError | diverges => simp

/-- What the loop lists. -/
theorem mem_listFiles {files : List (String × ByteArray)} {result : List ListedSession}
    (h : d.listFiles beyond cwd files = .ok result) (item : ListedSession) :
    item ∈ result ↔ ∃ f ∈ files, ∃ header items, readHeaderOnly beyond (d.filePath f.1) f.2 = .ok header
      ∧ metadataItems header = .ok items ∧ inWorkspace cwd header = true
      ∧ item = ⟨f.1, metadataOf header, items⟩ := by
  induction files generalizing result with
  | nil =>
    obtain rfl : [] = result := by simpa [listFiles] using h
    simp
  | cons f files ih =>
    rw [listFiles] at h
    rw [List.exists_mem_cons_iff]
    cases hread : readHeaderOnly beyond (d.filePath f.1) f.2 with
    | ok header =>
      rw [hread] at h
      obtain ⟨items, hitems, h⟩ := bind_eq_ok_iff.mp h
      obtain ⟨rest, hrest, h⟩ := bind_eq_ok_iff.mp h
      obtain rfl := pure_eq_ok_iff.mp h
      rw [← ih hrest]
      simp only [Except.ok.injEq, hitems, exists_eq_left', exists_and_left]
      by_cases hin : inWorkspace cwd header = true
      · simp [hin]
      · simp [hin]
    | error e =>
      rw [hread] at h
      cases e with
      | sessionError code message =>
        rw [← ih h]
        simp
      | unicodeDecodeError | decodeError | diverges => simp at h

/-! ### Opening what is listed -/

/-- What opening a session needs. -/
theorem exists_openListed_iff {id : String} :
    (∃ session, d.openListed beyond noFloat toFloat id = .ok session)
      ↔ ∃ file header entries leaf, d.Opens beyond noFloat toFloat id file header entries leaf := by
  unfold openListed
  constructor
  · rintro ⟨session, h⟩
    obtain ⟨hid, h⟩ := check_eq_ok_iff.mp h
    split at h
    · simp at h
    · rename_i file hfile
      obtain ⟨⟨header, entries, leaf⟩, hread, h⟩ := bind_eq_ok_iff.mp h
      obtain ⟨hown, h⟩ := check_eq_ok_iff.mp h
      obtain ⟨items, hitems, h⟩ := bind_eq_ok_iff.mp h
      obtain ⟨stats, hstats, -⟩ := bind_eq_ok_iff.mp h
      exact ⟨file, header, entries, leaf, {
        id_ok := by simpa using hid
        there := hfile
        read := hread
        own := not_not.mp hown
        metadata := ⟨items, hitems⟩
        stats := ⟨stats, hstats⟩ }⟩
  · rintro ⟨file, header, entries, leaf, hopens⟩
    obtain ⟨items, hitems⟩ := hopens.metadata
    obtain ⟨stats, hstats⟩ := hopens.stats
    simp [hopens.id_ok, hopens.there, hopens.read, hopens.own, hitems, hstats, bind_eq_ok_iff]

/-- A row is made of every session that can be opened. -/
theorem exists_row_iff {item : ListedSession} :
    (∃ r, d.row beyond noFloat toFloat item = .ok r)
      ↔ ∃ file header entries leaf,
        d.Opens beyond noFloat toFloat item.metadata.id file header entries leaf := by
  rw [← exists_openListed_iff, row]
  constructor
  · rintro ⟨r, h⟩
    obtain ⟨session, hsession, -⟩ := bind_eq_ok_iff.mp h
    exact ⟨session, hsession⟩
  · rintro ⟨session, hsession⟩
    exact ⟨_, bind_eq_ok_iff.mpr ⟨session, hsession, rfl⟩⟩

/-- A row shows what is listed. -/
theorem row_shows {item : ListedSession} {r : SessionRow} (h : d.row beyond noFloat toFloat item = .ok r) :
    r.sessionId = item.metadata.id ∧ r.workspace = item.metadata.cwd ∧ r.createdAt = item.metadata.createdAt := by
  obtain ⟨session, -, h⟩ := bind_eq_ok_iff.mp h
  obtain rfl := pure_eq_ok_iff.mp h
  exact ⟨rfl, rfl, rfl⟩

/-- What `list` gives is what its loop finds. -/
theorem list_eq_ok_iff {items : List ListedSession} :
    d.list beyond cwd = .ok items
      ↔ ∃ result, d.listFiles beyond cwd d.files = .ok result ∧ result.mergeSort newestFirst = items := by
  simp only [list, bind_eq_ok_iff, pure_eq_ok_iff]

/-- The session of an accepted header is listed under the id of the header. -/
theorem metadataOf_id {header : Dict} {id : String} (h : Dict.getD header "id" = .str id) :
    (metadataOf header).id = id := by
  simp [metadataOf, entryIdOf, h, Json.pyStr]

/-- What is listed of sound files shows every accepted session. -/
theorem showsAll_of_ok {items : List ListedSession} {rows : List SessionRow} (hlist : d.list beyond cwd = .ok items)
    (hrows : items.mapM (d.row beyond noFloat toFloat) = .ok rows) : d.ShowsAll beyond cwd items rows := by
  intro f hf header entries leaf hread hid hin
  obtain ⟨result, hresult, rfl⟩ := list_eq_ok_iff.mp hlist
  have hheader := readHeaderOnly_of_read hread
  obtain ⟨found, hfound⟩ := (exists_listFiles_iff.mp ⟨result, hresult⟩ f hf).2 header hheader
  have hitem : ⟨f.1, metadataOf header, found⟩ ∈ result.mergeSort newestFirst :=
    List.mem_mergeSort.mpr ((mem_listFiles hresult _).mpr ⟨f, hf, header, found, hheader, hfound, hin, rfl⟩)
  obtain ⟨r, hr, hrow⟩ := mem_of_mapM_eq_ok hrows hitem
  obtain ⟨hrid, hcwd, hat⟩ := row_shows hrow
  exact ⟨⟨_, hitem, rfl, rfl⟩, r, hr, hrid.trans (metadataOf_id hid), hcwd, hat⟩

/-- Next to a session is a file of a single byte that is not UTF-8. -/
def damagedDirectory : SessionDirectory where
  path := "/sessions"
  files := [("bad", ⟨#[0xff]⟩), ("s", encodeUtf8 (logText [sampleSession.header]))]
  nodup := by decide

/-- The file of the session is accepted. -/
theorem readSessionWithin_sample (path : String) :
    readSessionWithin (fun _ => false) path (encodeUtf8 (logText [sampleSession.header]))
      = .ok (sampleSession.header, [], .null) := by
  have hsep : (Json.obj sampleSession.header).hasSeparator = false := by decide +kernel
  rw [readSessionWithin_eq, readSession, decodeUtf8_encode]
  simp only [universalNewlines_of_no_cr _ (cr_notMem_logText _)]
  exact readText_log (readHeader_header path sampleSession) (by simp) (by simpa using hsep)

end SessionDirectory

end AeloonRuntime
