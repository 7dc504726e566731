import AeloonRuntime.Lib.JsonText
import AeloonRuntime.Runtime.Session

namespace AeloonRuntime

open Py

/-!
# Session file — the writer and the reader

The file of a session is a header line and one line for every entry.  `_persist` appends the line of
an entry behind whatever the file ends with; `_read_session` decodes the file, splits it with
`str.splitlines` and reads the lines back, and lets a last line pass that is not JSON.

* `FileSession` — a session with the bytes of its file, `FileSession.run` a history of calls;
* `Logged` — the file is the log of the header and the entries, at any point of a history;
* `readText_log` — a log without U+0085, U+2028 and U+2029 reads back;
* `readText_torn_inside` — a record that one of them splits is a torn line.
-/

/-! ### Writing -/

/-- The line that `_persist` writes for an entry. -/
def recordLine (entry : Dict) : List Char := dumps (.obj entry) ++ ['\n']

/-- The text of a header and the entries behind it. -/
def logText (records : List Dict) : List Char := records.flatMap recordLine

/-- `_append`: the text goes behind the last byte of the file. -/
def appendText (file : ByteArray) (text : List Char) : ByteArray := file ++ encodeUtf8 text

/-- `_path` takes letters, digits, `-` and `_`. -/
def isSessionId (id : String) : Bool :=
  id ≠ "" && id.toList.all fun c => c.isAlphanum || c = '-' || c = '_'

/-- What `create` is called with, once it has its id, its time and the resolved directory. -/
structure NewSession where
  id : String
  timestamp : String
  cwd : String
  parentSessionPath : Option String := none
  metadata : Dict := []
  /-- `_path` has accepted the id. -/
  id_ok : isSessionId id = true
  /-- An ISO time is a text. -/
  timestamp_ne : timestamp ≠ ""
  /-- A resolved path is absolute. -/
  cwd_ne : cwd ≠ ""

/-- The header that `create` writes. -/
def NewSession.header (n : NewSession) : Dict :=
  [("type", .str "session"), ("version", .int 3), ("id", .str n.id), ("timestamp", .str n.timestamp),
    ("cwd", .str n.cwd)]
  ++ Session.optionalItem "parentSession" ((n.parentSessionPath.filter (· ≠ "")).map .str)
  ++ (if n.metadata = [] then [] else [("metadata", .obj n.metadata)])

/-- `_metadata`. -/
def metadataOf (header : Dict) : SessionMetadata :=
  { id := entryIdOf header
    createdAt := (Dict.getD header "timestamp").pyStr
    cwd := (Dict.getD header "cwd").pyStr }

/-- A session with the bytes of its file. -/
structure FileSession where
  session : Session
  file : ByteArray

/-- `create`, for a path that does not exist. -/
def NewSession.create (n : NewSession) : FileSession :=
  { session := { metadata := metadataOf n.header, entries := [], currentLeafId := .null }
    file := encodeUtf8 (recordLine n.header) }

namespace FileSession

/-- A call, with the line that it persists. -/
def call (fs : FileSession) (stamp : Stamp) (op : Session.Op) : Except PyError FileSession :=
  (op.apply fs.session stamp).map fun (entry, s) => ⟨s, appendText fs.file (recordLine entry)⟩

/-- A call, whether it raises or not. -/
def step (fs : FileSession) (c : Stamp × Session.Op) : FileSession :=
  match fs.call c.1 c.2 with
  | .ok fs' => fs'
  | .error _ => fs

/-- A history of calls; one that raises leaves the session as it was. -/
def run (fs : FileSession) (calls : List (Stamp × Session.Op)) : FileSession := calls.foldl step fs

end FileSession

/-! ### Reading -/

/-- `SessionError("invalid_session", …)` for a file. -/
def invalidSession (path what : String) : PyError :=
  .sessionError "invalid_session" s!"Invalid JSONL session {path}: {what}"

/-- `SessionError("invalid_entry", …)` for a line. -/
def invalidEntry (path : String) (index : Nat) : PyError :=
  .sessionError "invalid_entry" s!"Invalid JSONL session {path}: line {index}"

/-- `isinstance(value, str) and value`. -/
def isText : Json → Bool
  | .str s => s ≠ ""
  | _ => false

/-- The header of a file. -/
def readHeader (path : String) (line : List Char) : Except PyError Dict :=
  match loads line with
  | none => .error (invalidSession path "bad header")
  | some (.obj header) =>
    if !isType header "session" || !(Dict.getD header "version").eqInt 3 then
      .error (invalidSession path "unsupported header")
    else
      match ["id", "timestamp", "cwd"].find? fun key => !isText (Dict.getD header key) with
      | some key => .error (invalidSession path s!"missing {key}")
      | none => .ok header
  | some _ => .error (invalidSession path "unsupported header")

/-- An entry has the four leading keys. -/
def isEntry (entry : Dict) : Bool := Session.entryKeys.all (Dict.contains entry)

/-- The loop of `_read_session` over the lines behind the header, `index` the number of the next
    line.  A last line that is not JSON ends the loop. -/
def readEntries (path : String) : Nat → List (List Char) → Except PyError (List Dict)
  | _, [] => .ok []
  | index, line :: lines =>
    if isBlank line then readEntries path (index + 1) lines
    else
      match loads line with
      | none => if lines = [] then .ok [] else .error (invalidEntry path index)
      | some (.obj entry) =>
        if isEntry entry then (readEntries path (index + 1) lines).map (entry :: ·)
        else .error (invalidEntry path index)
      | some _ => .error (invalidEntry path index)

/-- The leaf after an entry: the target of a `leaf` record, else the entry itself. -/
def leafAfter (entry : Dict) : Json :=
  if isType entry "leaf" then Dict.getD entry "targetId" else .str (entryIdOf entry)

/-- The leaf that the last entry determines. -/
def leafOf (entries : List Dict) : Json := entries.foldl (fun _ entry => leafAfter entry) .null

/-- `_read_session` behind the decoding of the file. -/
def readText (path : String) (text : List Char) : Except PyError (Dict × List Dict × Json) :=
  match splitlines text with
  | [] => .error (invalidSession path "missing header")
  | line :: lines => do
    let header ← readHeader path line
    let entries ← readEntries path 2 lines
    return (header, entries, leafOf entries)

/-- `_read_session`. -/
def readSession (path : String) (file : ByteArray) : Except PyError (Dict × List Dict × Json) :=
  match decodeUtf8 file with
  | none => .error .unicodeDecodeError
  | some text => readText path (universalNewlines text)

/-- `JsonlSessionRepository.open`, of the session's file if there is one. -/
def openSession (path sessionId : String) (file : Option ByteArray) : Except PyError Session :=
  if !isSessionId sessionId then
    .error (.sessionError "invalid_session"
      "session id must contain only letters, digits, '-' or '_'")
  else
    match file with
    | none => .error (.sessionError "not_found" s!"Session {sessionId} not found")
    | some file => do
      let (header, entries, leaf) ← readSession path file
      if Dict.getD header "id" ≠ .str sessionId then
        .error (.sessionError "invalid_session" s!"Session header id differs from {sessionId}")
      else
        return { metadata := metadataOf header, entries := entries, currentLeafId := leaf }

/-! ### Reading a log back -/

/-- A `dict` as the writer builds an entry: `type` comes first, and the leading keys are there. -/
structure IsRecord (entry : Dict) : Prop where
  head : ∃ kind items, entry = ("type", kind) :: items
  entry : isEntry entry = true

/-- The text of a `dict` starts with its brace. -/
theorem dumps_obj_eq (items : Dict) : ∃ body, dumps (.obj items) = '{' :: (body ++ ['}']) :=
  ⟨dumpsMembers items, by simp [dumps]⟩

/-- A part of a record is not blank. -/
theorem isBlank_of_torn {items : Dict} {torn rest : List Char}
    (htext : dumps (.obj items) = torn ++ rest) (htorn : torn ≠ []) (more : List Char) :
    isBlank (torn ++ more) = false := by
  obtain ⟨body, hbody⟩ := dumps_obj_eq items
  cases torn with
  | nil => exact absurd rfl htorn
  | cons c torn =>
    rw [hbody] at htext
    obtain ⟨rfl, -⟩ : '{' = c ∧ _ := by simpa using htext
    have hbrace : isSpace '{' = false := by decide
    simp [isBlank, hbrace]

theorem isBlank_dumps (items : Dict) : isBlank (dumps (.obj items)) = false := by
  obtain ⟨body, hbody⟩ := dumps_obj_eq items
  have hne : dumps (.obj items) ≠ [] := by simp [hbody]
  simpa using isBlank_of_torn (List.append_nil _).symm hne []

/-- A boundary in a record stands behind its brace and is no `\r`. -/
theorem boundary_in_record {items : Dict} {line rest : List Char} {b : Char}
    (htext : dumps (.obj items) = line ++ b :: rest) (hb : isLineBoundary b = true) :
    line ≠ [] ∧ b ≠ '\r' := by
  constructor
  · rintro rfl
    obtain ⟨body, hbody⟩ := dumps_obj_eq items
    rw [hbody, List.nil_append] at htext
    obtain ⟨rfl, -⟩ := List.cons.inj htext
    exact absurd hb (by decide)
  · rintro rfl
    have hmem : '\r' ∈ dumps (.obj items) := by simp [htext]
    exact absurd (mem_dumps _ hmem).1 (by decide)

/-- The lines of a log whose records are one line each. -/
theorem splitlines_log (records : List Dict) (rest : List Char)
    (hsep : ∀ r ∈ records, (Json.obj r).hasSeparator = false) :
    splitlines (logText records ++ rest)
      = records.map (fun r => dumps (.obj r)) ++ splitlines rest := by
  induction records with
  | nil => rfl
  | cons r records ih =>
    have hline := (hasSeparator_eq_false_iff _).mp (hsep r (by simp))
    have ih' := ih fun r hr => hsep r (by simp [hr])
    have hassoc : logText (r :: records) ++ rest
        = dumps (.obj r) ++ '\n' :: (logText records ++ rest) := by
      simp [logText, recordLine]
    rw [hassoc, splitlines_line _ _ hline (by decide) (by decide), ih']
    rfl

/-- The entries of a log are read one after the other. -/
theorem readEntries_records (path : String) (index : Nat) (records : List Dict)
    (lines : List (List Char)) (hrec : ∀ r ∈ records, isEntry r = true) :
    readEntries path index (records.map (fun r => dumps (.obj r)) ++ lines)
      = (readEntries path (index + records.length) lines).map (records ++ ·) := by
  induction records generalizing index with
  | nil => cases h : readEntries path index lines <;> simp [h, Except.map]
  | cons r records ih =>
    have ih' := ih (index + 1) fun r hr => hrec r (by simp [hr])
    have hr : isEntry r = true := hrec r (by simp)
    rw [List.map_cons, List.cons_append, readEntries, isBlank_dumps, loads_dumps]
    simp only [Bool.false_eq_true, if_false, hr, if_true]
    rw [ih', List.length_cons, show index + 1 + records.length = index + (records.length + 1) by omega]
    cases readEntries path (index + (records.length + 1)) lines <;> rfl

/-- A torn line passes as the last one. -/
theorem readEntries_torn_last {path : String} {index : Nat} {line : List Char}
    (hblank : isBlank line = false) (hloads : loads line = none) :
    readEntries path index [line] = .ok [] := by
  simp [readEntries, hblank, hloads]

/-- A torn line that is not the last one does not. -/
theorem readEntries_torn_inside {path : String} {index : Nat} {line : List Char}
    {lines : List (List Char)} (hblank : isBlank line = false) (hloads : loads line = none)
    (hlines : lines ≠ []) :
    readEntries path index (line :: lines) = .error (invalidEntry path index) := by
  simp [readEntries, hblank, hloads, hlines]

section Text

variable {path : String} {header : Dict} {entries : List Dict}

/-- A text that starts with a log: the rest of it decides. -/
theorem readText_log_append (hheader : readHeader path (dumps (.obj header)) = .ok header)
    (hrec : ∀ r ∈ entries, isEntry r = true)
    (hsep : ∀ r ∈ header :: entries, (Json.obj r).hasSeparator = false) (rest : List Char) :
    readText path (logText (header :: entries) ++ rest)
      = (readEntries path (2 + entries.length) (splitlines rest)).map
          fun more => (header, entries ++ more, leafOf (entries ++ more)) := by
  rw [readText, splitlines_log _ _ hsep]
  simp only [List.map_cons, List.cons_append, hheader, readEntries_records path 2 entries _ hrec]
  cases readEntries path (2 + entries.length) (splitlines rest) <;> rfl

/-- **Log.** A log whose records are one line each reads back. -/
theorem readText_log (hheader : readHeader path (dumps (.obj header)) = .ok header)
    (hrec : ∀ r ∈ entries, isEntry r = true)
    (hsep : ∀ r ∈ header :: entries, (Json.obj r).hasSeparator = false) :
    readText path (logText (header :: entries)) = .ok (header, entries, leafOf entries) := by
  have h := readText_log_append hheader hrec hsep []
  simpa [readEntries, Except.map] using h

/-- **Torn tail.** A torn record behind the log is dropped, also one that ends in a separator. -/
theorem readText_torn_tail (hheader : readHeader path (dumps (.obj header)) = .ok header)
    (hrec : ∀ r ∈ entries, isEntry r = true)
    (hsep : ∀ r ∈ header :: entries, (Json.obj r).hasSeparator = false)
    {items : Dict} {torn rest : List Char} (htext : dumps (.obj items) = torn ++ rest)
    (htorn : torn ≠ []) (hrest : rest ≠ [])
    (hline : ∀ c ∈ torn.dropLast, isLineBoundary c = false) :
    readText path (logText (header :: entries) ++ torn) = .ok (header, entries, leafOf entries) := by
  rw [readText_log_append hheader hrec hsep]
  obtain ⟨line, last, rfl⟩ : ∃ line last, torn = line ++ [last] :=
    ⟨_, _, (List.dropLast_append_getLast htorn).symm⟩
  rw [List.dropLast_concat] at hline
  have hread : readEntries path (2 + entries.length) (splitlines (line ++ [last])) = .ok [] := by
    by_cases hlast : isLineBoundary last = true
    · -- The boundary ends the torn line; `line` is the torn record without it.
      have htext' : dumps (.obj items) = line ++ last :: rest := by simp [htext]
      obtain ⟨hbrace, hcr⟩ := boundary_in_record htext' hlast
      rw [splitlines_line line [] hline hlast hcr]
      refine readEntries_torn_last ?_ (loads_of_torn htext' hbrace (by simp))
      simpa using isBlank_of_torn htext' hbrace []
    · rw [splitlines_last (line ++ [last]) ?_ htorn]
      · refine readEntries_torn_last ?_ (loads_of_torn htext htorn hrest)
        simpa using isBlank_of_torn htext htorn []
      · intro c hc
        rcases List.mem_append.mp hc with hc | hc
        · exact hline c hc
        · rw [List.mem_singleton.mp hc]; simpa using hlast
  rw [hread]
  simp [Except.map]

/-- **Complete tail.** A record whose newline is missing counts. -/
theorem readText_complete_tail (hheader : readHeader path (dumps (.obj header)) = .ok header)
    (hrec : ∀ r ∈ entries, isEntry r = true)
    (hsep : ∀ r ∈ header :: entries, (Json.obj r).hasSeparator = false)
    {entry : Dict} (hentry : isEntry entry = true)
    (hline : (Json.obj entry).hasSeparator = false) :
    readText path (logText (header :: entries) ++ dumps (.obj entry))
      = .ok (header, entries ++ [entry], leafOf (entries ++ [entry])) := by
  have hne : dumps (.obj entry) ≠ [] := by
    obtain ⟨body, hbody⟩ := dumps_obj_eq entry
    simp [hbody]
  rw [readText_log_append hheader hrec hsep,
    splitlines_last _ ((hasSeparator_eq_false_iff _).mp hline) hne]
  simp [readEntries, isBlank_dumps, hentry, Except.map]

/-- **Torn inside.** A record that a boundary splits, with text behind the boundary, is an error. -/
theorem readText_torn_inside (hheader : readHeader path (dumps (.obj header)) = .ok header)
    (hrec : ∀ r ∈ entries, isEntry r = true)
    (hsep : ∀ r ∈ header :: entries, (Json.obj r).hasSeparator = false)
    {items : Dict} {line rest more : List Char} {b : Char}
    (htext : dumps (.obj items) = line ++ b :: rest)
    (hline : ∀ c ∈ line, isLineBoundary c = false) (hb : isLineBoundary b = true)
    (hmore : more ≠ []) :
    readText path (logText (header :: entries) ++ (line ++ b :: more))
      = .error (invalidEntry path (2 + entries.length)) := by
  obtain ⟨hbrace, hcr⟩ := boundary_in_record htext hb
  rw [readText_log_append hheader hrec hsep, splitlines_line line more hline hb hcr,
    readEntries_torn_inside (by simpa using isBlank_of_torn htext hbrace [])
      (loads_of_torn htext hbrace (by simp)) (splitlines_ne_nil hmore)]
  rfl

/-- **Torn header.** A header that a boundary splits is an error. -/
theorem readText_torn_header {items : Dict} {line rest more : List Char} {b : Char}
    (htext : dumps (.obj items) = line ++ b :: rest)
    (hline : ∀ c ∈ line, isLineBoundary c = false) (hb : isLineBoundary b = true) :
    readText path (line ++ b :: more) = .error (invalidSession path "bad header") := by
  obtain ⟨hbrace, hcr⟩ := boundary_in_record htext hb
  rw [readText, splitlines_line line more hline hb hcr]
  simp only [readHeader, loads_of_torn htext hbrace (by simp)]
  rfl

end Text

end AeloonRuntime
