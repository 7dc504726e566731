import Mathlib.Data.List.Infix
import AeloonRuntime.Lib.JsonLog
import AeloonRuntime.Lib.JsonTree

namespace AeloonRuntime

open Py

/-!
# Runtime log — lifecycle records with bounded rotation

`runtime_log.py`: a record is appended to `runtime.log` as one line of JSON, and a write that fails half-way leaves
what came through.  A Runtime that starts with a log that has grown too long makes it `runtime.log.1`.
`diagnostics.logs` reads the two files.

* `sanitizeLogFields`, `LogFiles.call` — the fields that are kept, and starting, writing and closing on the bytes of
  the two files;
* `readRuntimeLogs` — what is read of the bytes;
* `Logbook` — the two files as the writes that went into them; `files_after` — the bytes are those of the writes;
* `runtime_log_read` — what is read are the intact records, newest first.

The texts have no lone surrogates.
-/

/-! ### Fields -/

/-- `LOG_FIELD_WHITELIST`. -/
def logFieldWhitelist : List String :=
  ["transport", "device_id", "source", "duration_ms", "reason", "thread_id", "pending_frames", "pending_bytes",
    "after_seq", "current_seq", "replay_complete", "replayed_events", "pid", "server_instance_id", "socket", "host",
    "port", "tls", "scheme", "name", "revoked"]

/-- `_FORBIDDEN_FIELD_TOKENS`. -/
def forbiddenFieldTokens : List String :=
  ["token", "secret", "password", "api_key", "authorization", "pairing", "enroll", "code", "payload", "content",
    "data_base64", "prompt", "message", "body", "text", "attachment"]

/-- `_field_name_forbidden`, of a name in ASCII. -/
def fieldNameForbidden (name : String) : Bool :=
  forbiddenFieldTokens.any fun token => token.toList <:+: name.toLower.toList

/-- `None`, a `bool`, a `str`, an `int` or a `float`. -/
def isLogScalar : Json → Bool
  | .arr _ | .obj _ => false
  | _ => true

/-- `sanitize_log_fields`. -/
def sanitizeLogFields (fields : Dict) : Dict :=
  fields.filter fun item =>
    !(item.1 = "at" || item.1 = "event") && (logFieldWhitelist.contains item.1 && !fieldNameForbidden item.1)
      && isLogScalar item.2

/-- What `write` is called with: the clock, the event, and keyword arguments, which have distinct names. -/
structure LogLine where
  stamp : String
  event : String
  fields : Dict
  distinct : fields.keys.Nodup

/-- The record that `write` makes. -/
def LogLine.record (l : LogLine) : Dict :=
  Dict.merge [("at", .str l.stamp), ("event", .str l.event)] (sanitizeLogFields l.fields)

/-! ### Reading -/

/-- An entry of `diagnostics.logs`. -/
structure LogEntry where
  stamp : String
  event : String
  fields : Dict
  deriving DecidableEq

/-- The entry of a record. -/
def entryOfRecord (record : Dict) : Option LogEntry :=
  match record.getD "at", record.getD "event" with
  | .str stamp, .str event => some ⟨stamp, event, sanitizeLogFields record⟩
  | _, _ => none

/-- `not line.strip()`, of bytes. -/
def isBlankBytes (line : List UInt8) : Bool := line.all ([9, 10, 11, 12, 13, 32].contains ·)

/-- The entry of a line. -/
def entryOfLine (line : List UInt8) : Option LogEntry :=
  if isBlankBytes line then none else (objectOfLine line).bind entryOfRecord

/-- What `read_runtime_logs` returns. -/
structure LogReading where
  entries : List LogEntry
  truncated : Bool
  deriving DecidableEq

/-- The two files: `runtime.log.1` and `runtime.log`; and whether a Runtime has the log open. -/
structure LogFiles where
  previous : Option (List UInt8) := none
  current : Option (List UInt8) := none
  isOpen : Bool := false
  deriving DecidableEq

/-- `read_runtime_logs`; a file that is not there is passed over. -/
def readRuntimeLogs (s : LogFiles) (limit : Int) : Except String LogReading :=
  if limit < 1 ∨ limit > 500 then .error "limit must be between 1 and 500"
  else
    let entries := [s.previous, s.current].flatMap fun file => (bytesLines (file.getD [])).filterMap entryOfLine
    .ok ⟨entries.reverse.take limit.toNat, limit.toNat < entries.length⟩

/-! ### Writing -/

/-- How far `_rotate_if_needed` comes where it has to rotate. -/
inductive Rotation where
  /-- The old log cannot be unlinked. -/
  | failed
  /-- It is unlinked, and `os.replace` fails. -/
  | unlinked
  | rotated
  deriving DecidableEq

/-- What a Runtime does with its log. -/
inductive LogCall where
  /-- `RuntimeLog(directory)`. -/
  | start (rotation : Rotation)
  /-- `write`; so many bytes come through before `os.write` fails. -/
  | write (line : LogLine) (sent : Nat)
  /-- `close`. -/
  | close

namespace LogFiles

/-- `_rotate_if_needed`. -/
def rotateIfNeeded (s : LogFiles) (maxBytes : Nat) (rotation : Rotation) : LogFiles :=
  match s.current with
  | none => s
  | some bytes =>
    if bytes.length < maxBytes then s
    else match rotation with
      | .failed => s
      -- `previous_path.unlink` has been done, `os.replace` has not
      | .unlinked => { s with previous := none }
      | .rotated => { s with previous := some bytes, current := none }

/-- `os.open(self.path, os.O_WRONLY | os.O_CREAT | os.O_APPEND)`. -/
def openLog (s : LogFiles) : LogFiles := { s with current := some (s.current.getD []), isOpen := true }

/-- `write`. -/
def write (s : LogFiles) (line : LogLine) (sent : Nat) : LogFiles :=
  if s.isOpen then
    let payload := (dumps (.obj line.record) ++ ['\n']).flatMap String.utf8EncodeChar
    { s with current := s.current.map (· ++ payload.take sent) }
  else s

/-- One call. -/
def call (maxBytes : Nat) (s : LogFiles) : LogCall → LogFiles
  | .start rotation => (s.rotateIfNeeded maxBytes rotation).openLog
  | .write line sent => s.write line sent
  | .close => { s with isOpen := false }

/-- The files after some calls. -/
def after (maxBytes : Nat) (calls : List LogCall) : LogFiles := calls.foldl (call maxBytes) {}

end LogFiles

/-! ### The log as its writes -/

/-- The bytes of some writes. -/
def logBytes (writes : List (LineWrite LogLine)) : List UInt8 := writes.flatMap (LineWrite.bytes LogLine.record)

/-- The two files, each as the writes that went into it. -/
structure Logbook where
  previous : Option (List (LineWrite LogLine)) := none
  current : Option (List (LineWrite LogLine)) := none
  isOpen : Bool := false

namespace Logbook

/-- The log begins anew where it has grown too long. -/
def rotate (s : Logbook) (maxBytes : Nat) (rotation : Rotation) : Logbook :=
  if s.current.any fun writes => maxBytes ≤ (logBytes writes).length then
    match rotation with
    | .failed => s
    | .unlinked => { s with previous := none }
    | .rotated => { s with previous := s.current, current := none }
  else s

/-- One call. -/
def call (maxBytes : Nat) (s : Logbook) : LogCall → Logbook
  | .start rotation =>
    let s := s.rotate maxBytes rotation
    { s with current := some (s.current.getD []), isOpen := true }
  | .write line sent => if s.isOpen then { s with current := s.current.map (· ++ [⟨line, sent⟩]) } else s
  | .close => { s with isOpen := false }

/-- The writes after some calls. -/
def after (maxBytes : Nat) (calls : List LogCall) : Logbook := calls.foldl (call maxBytes) {}

/-- The files that the writes make. -/
def files (s : Logbook) : LogFiles := ⟨s.previous.map logBytes, s.current.map logBytes, s.isOpen⟩

/-- The writes that are kept, the older file first. -/
def kept (s : Logbook) : List (List (LineWrite LogLine)) := [s.previous.getD [], s.current.getD []]

end Logbook

/-- The entry that a record of the log is read as. -/
def LogLine.entry (l : LogLine) : LogEntry := ⟨l.stamp, l.event, sanitizeLogFields l.fields⟩

/-- The writes of some calls, made while the log was open. -/
def writesMade : Bool → List LogCall → List (LineWrite LogLine)
  | _, [] => []
  | _, .start _ :: calls => writesMade true calls
  | isOpen, .write line sent :: calls => (if isOpen then [⟨line, sent⟩] else []) ++ writesMade isOpen calls
  | _, .close :: calls => writesMade false calls

namespace Logbook

/-- The records of the two files that stand whole on a line of their own. -/
def intact (s : Logbook) : List LogLine := s.kept.flatMap (OpenLine.intact LogLine.record .empty)

end Logbook

/-! ### Records and entries -/

theorem mem_sanitizeLogFields {fields : Dict} {key : String} (h : key ∈ (sanitizeLogFields fields).keys) :
    key ≠ "at" ∧ key ≠ "event" ∧ key ∈ fields.keys := by
  obtain ⟨item, hitem, rfl⟩ := List.mem_map.mp h
  obtain ⟨hfield, hkeep⟩ := List.mem_filter.mp hitem
  simp only [Bool.and_eq_true, Bool.not_eq_true', Bool.or_eq_false_iff, decide_eq_false_iff_not] at hkeep
  exact ⟨hkeep.1.1.1, hkeep.1.1.2, List.mem_map_of_mem hfield⟩

/-- What is sanitized stays as it is. -/
theorem sanitizeLogFields_sanitizeLogFields (fields : Dict) :
    sanitizeLogFields (sanitizeLogFields fields) = sanitizeLogFields fields := by
  rw [sanitizeLogFields, sanitizeLogFields, List.filter_filter]
  simp only [Bool.and_self]

namespace LogLine

variable (l : LogLine)

/-- The record, item by item. -/
theorem record_eq : l.record = ("at", .str l.stamp) :: ("event", .str l.event) :: sanitizeLogFields l.fields := by
  refine Dict.merge_of_nodup ?_
  -- distinct arguments stay distinct, and `at` and `event` are not among them
  have hkeys : (sanitizeLogFields l.fields).keys.Nodup := l.distinct.sublist (List.filter_sublist.map _)
  refine List.nodup_cons.mpr ⟨?_, List.nodup_cons.mpr ⟨?_, hkeys⟩⟩
  · intro hmem
    rcases List.mem_cons.mp hmem with heq | hmem
    · exact absurd heq (show "at" ≠ "event" by decide)
    · exact (mem_sanitizeLogFields hmem).1 rfl
  · exact fun hmem => (mem_sanitizeLogFields hmem).2.1 rfl

theorem headed_record : Headed l.record :=
  ⟨"at", _, _, 'a', ['t'], l.record_eq, by decide, by decide⟩

/-- A record is read as what was written. -/
theorem entryOfRecord_record : entryOfRecord l.record = some l.entry := by
  -- `sanitize_log_fields` lets neither `at` nor `event` through, so the record has each once
  have hget {key : String} (hkey : key ∉ (sanitizeLogFields l.fields).keys) :
      (sanitizeLogFields l.fields).get key = none := by
    rw [← Option.not_isSome_iff_eq_none]
    exact fun h => hkey (Dict.contains_iff_mem_keys.mp h)
  have hat : (sanitizeLogFields l.fields).get "at" = none := hget fun h => (mem_sanitizeLogFields h).1 rfl
  have hevent : (sanitizeLogFields l.fields).get "event" = none := hget fun h => (mem_sanitizeLogFields h).2.1 rfl
  have hsanitized : sanitizeLogFields l.record = sanitizeLogFields l.fields := by
    rw [record_eq, sanitizeLogFields, List.filter_cons_of_neg Bool.false_ne_true,
      List.filter_cons_of_neg Bool.false_ne_true]
    exact sanitizeLogFields_sanitizeLogFields l.fields
  have hstamp : l.record.getD "at" = .str l.stamp := by
    rw [record_eq, Dict.getD, Dict.get_cons, Dict.get_cons, hat]
    rfl
  have hname : l.record.getD "event" = .str l.event := by
    rw [record_eq, Dict.getD, Dict.get_cons, Dict.get_cons, hevent]
    rfl
  rw [entryOfRecord, hstamp, hname, hsanitized]
  rfl

end LogLine

/-! ### Lines -/

/-- Behind blanks, the scanner stands where it started, or has failed. -/
theorem run_blank {text : List Char} (h : ∀ c ∈ text, c ∈ ['\t', '\n', '\x0b', '\x0c', '\r', ' ']) :
    Scan.start.run text = some Scan.start ∨ Scan.start.run text = none := by
  induction text with
  | nil => exact .inl rfl
  | cons c text ih =>
    obtain ⟨hc, hrest⟩ := List.forall_mem_cons.mp h
    -- of the six blanks, the scanner passes those of JSON and refuses the other two
    have hstep : Scan.start.step c = some Scan.start ∨ Scan.start.step c = none := by
      simp only [List.mem_cons, List.not_mem_nil, or_false] at hc
      rcases hc with rfl | rfl | rfl | rfl | rfl | rfl
      · exact .inl rfl
      · exact .inl rfl
      · exact .inr rfl
      · exact .inr rfl
      · exact .inl rfl
      · exact .inl rfl
    rw [Scan.run, List.foldlM_cons]
    rcases hstep with hstep | hstep
    · rw [hstep]
      exact ih hrest
    · rw [hstep]
      exact .inr rfl

/-- Blank bytes are no object. -/
theorem objectOfLine_of_isBlankBytes {line : List UInt8} (h : isBlankBytes line = true) : objectOfLine line = none := by
  rw [objectOfLine]
  cases hdecode : decodeBytes line with
  | none => rfl
  | some text =>
    -- bytes below 128 are characters of their own
    have hchars : ∀ c ∈ text, c ∈ ['\t', '\n', '\x0b', '\x0c', '\r', ' '] := by
      intro c hc
      obtain ⟨b, hb⟩ := List.exists_mem_of_ne_nil (String.utf8EncodeChar c) fun hnil => by
        have hlength := String.length_utf8EncodeChar c
        rw [hnil] at hlength
        exact absurd hlength.symm c.utf8Size_pos.ne'
      have hline : b ∈ line := by
        rw [decodeBytes_eq_some_iff.mp hdecode]
        exact List.mem_flatMap.mpr ⟨c, hc, hb⟩
      have hblank := List.all_eq_true.mp h b hline
      simp only [List.contains_eq_mem, decide_eq_true_eq, List.mem_cons, List.not_mem_nil, or_false] at hblank
      have hcode {d : Char} (hd : d.toNat = b.toNat) (hlow : b.toNat < 0x80) : c = d :=
        Char.toNat_inj.mp ((ascii_of_mem_utf8EncodeChar hb hlow).1.trans hd.symm)
      rcases hblank with rfl | rfl | rfl | rfl | rfl | rfl
      · simp [hcode (d := '\t') (by decide) (by decide)]
      · simp [hcode (d := '\n') (by decide) (by decide)]
      · simp [hcode (d := '\x0b') (by decide) (by decide)]
      · simp [hcode (d := '\x0c') (by decide) (by decide)]
      · simp [hcode (d := '\r') (by decide) (by decide)]
      · simp [hcode (d := ' ') (by decide) (by decide)]
    rw [Option.bind_some, loads]
    rcases run_blank hchars with hrun | hrun
    · rw [hrun]
      rfl
    · rw [hrun]
      rfl

theorem entryOfLine_eq (line : List UInt8) : entryOfLine line = (objectOfLine line).bind entryOfRecord := by
  unfold entryOfLine
  split
  · rw [objectOfLine_of_isBlankBytes ‹_›]
    rfl
  · rfl

/-- The entries of a file are those of its objects. -/
theorem filterMap_entryOfLine (bytes : List UInt8) :
    (bytesLines bytes).filterMap entryOfLine = (readObjects bytes).filterMap entryOfRecord := by
  rw [readObjects, List.filterMap_filterMap]
  exact List.filterMap_congr fun line _ => entryOfLine_eq line

/-- The entries of a file that the log has written. -/
theorem entries_written (writes : List (LineWrite LogLine)) :
    (bytesLines (logBytes writes)).filterMap entryOfLine
      = (OpenLine.intact LogLine.record .empty writes).map LogLine.entry := by
  rw [filterMap_entryOfLine, logBytes, OpenLine.readObjects_written fun w _ => w.value.headed_record,
    List.filterMap_map]
  rw [← List.filterMap_eq_map]
  exact List.filterMap_congr fun l _ => l.entryOfRecord_record

/-! ### The two levels -/

theorem logBytes_append (writes more : List (LineWrite LogLine)) :
    logBytes (writes ++ more) = logBytes writes ++ logBytes more := List.flatMap_append

namespace Logbook

variable {maxBytes : Nat} {s : Logbook} {c : LogCall} {rotation : Rotation}

/-- What a rotation comes to. -/
theorem rotate_cases (s : Logbook) (maxBytes : Nat) (rotation : Rotation) :
    s.rotate maxBytes rotation = s
      ∨ s.rotate maxBytes rotation = { s with previous := none }
      ∨ s.rotate maxBytes rotation = { s with previous := s.current, current := none } := by
  unfold rotate
  split
  · cases rotation with
    | failed => exact .inl rfl
    | unlinked => exact .inr (.inl rfl)
    | rotated => exact .inr (.inr rfl)
  · exact .inl rfl

/-- A rotation does to the files what it does to the writes. -/
theorem files_rotate (s : Logbook) (maxBytes : Nat) (rotation : Rotation) :
    s.files.rotateIfNeeded maxBytes rotation = (s.rotate maxBytes rotation).files := by
  obtain ⟨previous, current, isOpen⟩ := s
  cases current with
  | none => rfl
  | some writes =>
    unfold rotate LogFiles.rotateIfNeeded
    by_cases hlong : maxBytes ≤ (logBytes writes).length
    · rw [if_pos (show (some writes).any (fun writes => maxBytes ≤ (logBytes writes).length) = true from
        decide_eq_true hlong)]
      show (if (logBytes writes).length < maxBytes then _ else _) = _
      rw [if_neg (Nat.not_lt.mpr hlong)]
      cases rotation <;> rfl
    · rw [if_neg (show ¬(some writes).any (fun writes => maxBytes ≤ (logBytes writes).length) = true from
        fun h => hlong (of_decide_eq_true h))]
      show (if (logBytes writes).length < maxBytes then _ else _) = _
      rw [if_pos (Nat.lt_of_not_le hlong)]

/-- **One call.** A call does to the files what it does to the writes. -/
theorem files_call (maxBytes : Nat) (s : Logbook) (c : LogCall) :
    s.files.call maxBytes c = (s.call maxBytes c).files := by
  cases c with
  | start rotation =>
    rw [LogFiles.call, files_rotate, call]
    obtain ⟨previous, current, isOpen⟩ := s.rotate maxBytes rotation
    cases current <;> rfl
  | write line sent =>
    have hbytes : logBytes [⟨line, sent⟩]
        = ((dumps (.obj line.record) ++ ['\n']).flatMap String.utf8EncodeChar).take sent := by
      have hnewline : String.utf8EncodeChar '\n' = [10] := by decide
      rw [logBytes, List.flatMap_singleton, LineWrite.bytes, LineWrite.line, objectBytes, List.flatMap_append,
        List.flatMap_singleton, hnewline]
    obtain ⟨previous, current, isOpen⟩ := s
    cases isOpen with
    | false => rfl
    | true =>
      cases current with
      | none => rfl
      | some writes =>
        show LogFiles.mk (previous.map logBytes) (some (logBytes writes ++ _)) true
          = LogFiles.mk (previous.map logBytes) (some (logBytes (writes ++ [⟨line, sent⟩]))) true
        rw [logBytes_append, hbytes]
  | close => rfl

/-- An open log has its file. -/
def Ready (s : Logbook) : Prop := s.isOpen = true → s.current.isSome = true

theorem Ready.call (h : s.Ready) (maxBytes : Nat) (c : LogCall) : (s.call maxBytes c).Ready := by
  intro hopen
  cases c with
  | start rotation => rfl
  | write line sent =>
    rw [Logbook.call] at hopen ⊢
    split
    · rw [Option.isSome_map]
      exact h ‹_›
    · rw [if_neg ‹_›] at hopen
      exact absurd hopen ‹_›
  | close => exact absurd hopen Bool.false_ne_true

/-- What a call keeps of the writes: those at the end, with its own. -/
theorem kept_call (h : s.Ready) (maxBytes : Nat) (c : LogCall) :
    (s.call maxBytes c).kept.flatten <:+ s.kept.flatten ++ writesMade s.isOpen [c]
      ∧ ∀ calls, writesMade s.isOpen (c :: calls)
          = writesMade s.isOpen [c] ++ writesMade (s.call maxBytes c).isOpen calls := by
  have hkept (previous current : Option (List (LineWrite LogLine))) (isOpen : Bool) :
      (Logbook.mk previous current isOpen).kept.flatten = previous.getD [] ++ current.getD [] := by
    rw [kept, List.flatten_cons, List.flatten_cons, List.flatten_nil, List.append_nil]
  cases c with
  | start rotation =>
    refine ⟨?_, fun calls => rfl⟩
    rw [show writesMade s.isOpen [.start rotation] = [] from rfl, List.append_nil]
    rw [call, hkept]
    obtain ⟨previous, current, isOpen⟩ := s
    rw [hkept]
    -- a rotation keeps everything, or gives up the older file
    rcases rotate_cases ⟨previous, current, isOpen⟩ maxBytes rotation with hrotate | hrotate | hrotate
    · rw [hrotate]
      exact List.suffix_rfl
    · rw [hrotate]
      exact List.suffix_append _ _
    · rw [hrotate]
      exact ⟨previous.getD [], by simp⟩
  | write line sent =>
    obtain ⟨previous, current, isOpen⟩ := s
    cases isOpen with
    | false =>
      refine ⟨?_, fun calls => rfl⟩
      rw [show writesMade false [.write line sent] = [] from rfl, List.append_nil]
      exact List.suffix_rfl
    | true =>
      -- an open log has its file, so the write is kept at its end
      obtain ⟨writes, hwrites⟩ := Option.isSome_iff_exists.mp (h rfl)
      obtain rfl : current = some writes := hwrites
      refine ⟨?_, fun calls => by simp [writesMade, call]⟩
      rw [call, if_pos rfl, hkept, hkept]
      simp [writesMade]
  | close =>
    refine ⟨?_, fun calls => rfl⟩
    rw [show writesMade s.isOpen [.close] = [] from rfl, List.append_nil]
    exact List.suffix_rfl

/-- Writes are only given up from the front. -/
theorem kept_suffix (h : s.Ready) (maxBytes : Nat) (calls : List LogCall) :
    (calls.foldl (call maxBytes) s).kept.flatten <:+ s.kept.flatten ++ writesMade s.isOpen calls := by
  induction calls generalizing s with
  | nil =>
    rw [show writesMade s.isOpen [] = [] from rfl, List.append_nil]
    exact List.suffix_rfl
  | cons c calls ih =>
    obtain ⟨hcall, hmade⟩ := kept_call h maxBytes c
    rw [hmade calls, ← List.append_assoc]
    obtain ⟨front, hfront⟩ := hcall
    -- what this call has given up is not in any later suffix
    refine (ih (h.call maxBytes c)).trans ⟨front, ?_⟩
    rw [← List.append_assoc, hfront]

end Logbook

/-- **Files and writes.** After any calls, the files hold the bytes of the writes. -/
theorem files_after (maxBytes : Nat) (calls : List LogCall) :
    LogFiles.after maxBytes calls = (Logbook.after maxBytes calls).files := by
  unfold LogFiles.after Logbook.after
  show calls.foldl (LogFiles.call maxBytes) (Logbook.files {}) = _
  exact List.foldl_hom Logbook.files fun s c => Logbook.files_call maxBytes s c

/-- **Runtime log.** After any starts, writes and closes, with writes that fail half-way and rotations that fail:
    the two files keep the writes from some point on; what is read are those of them that stand whole on a line
    of their own, newest first; and a write that was cut costs at most one that came through whole. -/
theorem runtime_log_read (maxBytes : Nat) (calls : List LogCall) (limit : Int)
    (hlimit : 1 ≤ limit ∧ limit ≤ 500) :
    let log := Logbook.after maxBytes calls
    log.kept.flatten <:+ writesMade false calls
      ∧ readRuntimeLogs (LogFiles.after maxBytes calls) limit
          = .ok ⟨(log.intact.map LogLine.entry).reverse.take limit.toNat, limit.toNat < log.intact.length⟩
      ∧ log.kept.flatten.countP (LineWrite.whole LogLine.record)
          ≤ log.intact.length + log.kept.flatten.countP (LineWrite.torn LogLine.record) := by
  intro log
  refine ⟨?_, ?_, ?_⟩
  · have hready : (({} : Logbook)).Ready := fun h => absurd h Bool.false_ne_true
    exact Logbook.kept_suffix hready maxBytes calls
  · have hentries : [log.files.previous, log.files.current].flatMap
        (fun file => (bytesLines (file.getD [])).filterMap entryOfLine) = log.intact.map LogLine.entry := by
      have hfile (writes : Option (List (LineWrite LogLine))) :
          (bytesLines ((writes.map logBytes).getD [])).filterMap entryOfLine
            = (OpenLine.intact LogLine.record .empty (writes.getD [])).map LogLine.entry := by
        rw [← entries_written]
        cases writes <;> rfl
      rw [Logbook.intact, Logbook.kept, List.map_flatMap]
      simp only [List.flatMap_cons, List.flatMap_nil, Logbook.files, hfile]
    rw [files_after, readRuntimeLogs, if_neg (by omega)]
    show Except.ok (LogReading.mk _ _) = _
    rw [hentries, List.length_map]
  -- the two files one after the other: no line reaches from one into the other
  · have hsum (files : List (List (LineWrite LogLine))) :
        files.flatten.countP (LineWrite.whole LogLine.record)
          ≤ (files.flatMap (OpenLine.intact LogLine.record .empty)).length
            + files.flatten.countP (LineWrite.torn LogLine.record) := by
      induction files with
      | nil => exact Nat.le_refl 0
      | cons writes files ih =>
        have hfirst := OpenLine.whole_le_intact LogLine.record writes
        rw [List.flatten_cons, List.countP_append, List.countP_append, List.flatMap_cons, List.length_append]
        omega
    exact hsum log.kept

/-- A Runtime that starts, cannot write all of a record, and goes on. -/
def sampleLogCalls : List LogCall :=
  let line (event : String) : LogLine := ⟨"2025-01-01T00:00:00.000Z", event, [], List.nodup_nil⟩
  [.start .rotated, .write (line "started") 100, .write (line "auth_failed") 20, .write (line "paired") 100,
    .write (line "stopped") 100, .close]

/-- The cut record and the one behind it are lost. -/
theorem runtime_log_read_sample : ∃ entries,
    readRuntimeLogs (LogFiles.after 1048576 sampleLogCalls) 200 = .ok ⟨entries, false⟩
      ∧ entries.map LogEntry.event = ["stopped", "started"] := by
  obtain ⟨-, hread, -⟩ := runtime_log_read 1048576 sampleLogCalls 200 (by decide)
  refine ⟨((Logbook.after 1048576 sampleLogCalls).intact.map LogLine.entry).reverse.take 200, ?_, by decide +kernel⟩
  rw [hread]
  decide +kernel

end AeloonRuntime
