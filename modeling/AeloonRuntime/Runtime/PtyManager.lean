import AeloonRuntime.Lib.Utf8Replace

namespace AeloonRuntime

open Py

/-!
# Runtime — terminals

The bytes of the `PTYManager` of `pty_manager.py`: `_read_ready` sends what a read has got as
`terminal.output`, and `input` writes to the terminal.

* `PTYManager.readReady`, `PTYManager.input` — the two, with what `os.read` and `os.write` did;
* `chunksRead` — the chunks that are read up to the end of the stream;
* `output_readAll` — each of them is decoded by itself;
* `terminal_bytes_iff` — the output is the decoded stream exactly if no read goes on with the character that
  the one before has left unfinished, and `True` stands for all bytes exactly if `os.write` took all.

`_finish_after_eof` takes the terminal out of the manager; it has been `finishing` since the read, and a
terminal that is finishing is not read, so the model leaves it there.
-/

/-! ### The manager -/

/-- The `errno` of an `OSError`, as far as it is told apart. -/
inductive Errno where
  | eio
  | ebadf
  | other (code : Nat)
  deriving DecidableEq

/-- `exc.errno in {errno.EIO, errno.EBADF}`. -/
def Errno.gone : Errno → Bool
  | .eio | .ebadf => true
  | .other _ => false

/-- `_Terminal`. -/
structure Terminal where
  terminalId : String
  threadId : String
  finishing : Bool := false

/-- A `terminal.output` event. -/
structure TerminalOutput where
  terminalId : String
  threadId : String
  data : List Char
  deriving DecidableEq

/-- `PTYManager`, with the output events it has emitted. -/
structure PTYManager where
  terminals : String → Option Terminal := fun _ => none
  byThread : String → Option String := fun _ => none
  events : List TerminalOutput := []

namespace PTYManager

/-- `self._terminals[terminalId]`, written. -/
def setTerminal (manager : PTYManager) (terminalId : String) (terminal : Terminal) : PTYManager :=
  { manager with terminals := Function.update manager.terminals terminalId (some terminal) }

/-- `PTYManager.open`, where `terminalId` is the id that is drawn. -/
def openTerminal (manager : PTYManager) (threadId terminalId : String) : PTYManager :=
  match manager.byThread threadId with
  | some _ => manager
  | none =>
    let opened := manager.setTerminal terminalId { terminalId := terminalId, threadId := threadId }
    { opened with byThread := Function.update manager.byThread threadId (some terminalId) }

/-- What `os.read` returned or raised. -/
inductive ReadOutcome where
  | data (bytes : List UInt8)
  | error (errno : Errno)

/-- `PTYManager._read_ready`. -/
def readReady (manager : PTYManager) (terminalId : String) (outcome : ReadOutcome) : PTYManager :=
  match manager.terminals terminalId with
  | none => manager
  | some terminal =>
    if terminal.finishing then manager
    else
      let finish := manager.setTerminal terminalId { terminal with finishing := true }
      match outcome with
      | .error errno => if errno.gone then finish else manager
      | .data bytes =>
        if bytes ≠ [] then
          let event := { terminalId := terminalId, threadId := terminal.threadId, data := decodeReplace bytes }
          { manager with events := manager.events ++ [event] }
        else finish

/-- The reads of a terminal, one after the other. -/
def readAll (manager : PTYManager) (terminalId : String) (outcomes : List ReadOutcome) : PTYManager :=
  outcomes.foldl (fun manager outcome => manager.readReady terminalId outcome) manager

/-- The data of the `terminal.output` events of a terminal. -/
def output (manager : PTYManager) (terminalId : String) : List Char :=
  (manager.events.filter (·.terminalId = terminalId)).flatMap TerminalOutput.data

/-- What `os.write` returned or raised. -/
inductive WriteOutcome where
  | wrote (count : Nat)
  | error (errno : Errno)

/-- What `input` raises. -/
inductive InputError where
  | terminalNotFound
  | osError (errno : Errno)
  deriving DecidableEq

/-- `PTYManager._terminal_for_thread`. -/
def terminalForThread (manager : PTYManager) (threadId : String) : Option Terminal :=
  (manager.byThread threadId).bind manager.terminals

/-- `PTYManager.input`: what it returns or raises, and the bytes that were written. -/
def input (manager : PTYManager) (threadId : String) (data : List Char) (outcome : WriteOutcome) :
    Except InputError Bool × List UInt8 :=
  match manager.terminalForThread threadId with
  | none => (.error .terminalNotFound, [])
  | some _ =>
    match outcome with
    | .wrote count => (.ok true, (encodeUtf8 data).data.toList.take count)
    | .error errno => if errno.gone then (.ok false, []) else (.error (.osError errno), [])

end PTYManager

/-! ### Reading -/

section Reading

open PTYManager

/-- The chunks that are read, up to the end of the stream. -/
def chunksRead : List ReadOutcome → List (List UInt8)
  | [] => []
  | .data bytes :: outcomes => if bytes ≠ [] then bytes :: chunksRead outcomes else []
  | .error errno :: outcomes => if errno.gone then [] else chunksRead outcomes

theorem ne_nil_of_mem_chunksRead {outcomes : List ReadOutcome} {chunk : List UInt8}
    (h : chunk ∈ chunksRead outcomes) : chunk ≠ [] := by
  induction outcomes with
  | nil => cases h
  | cons outcome outcomes ih =>
    cases outcome with
    | data bytes =>
      rw [chunksRead] at h
      split at h
      · rename_i hne
        rcases List.mem_cons.mp h with rfl | hlater
        · exact hne
        · exact ih hlater
      · cases h
    | error errno =>
      rw [chunksRead] at h
      split at h
      · cases h
      · exact ih h

variable {manager : PTYManager} {terminalId : String} {terminal : Terminal}

theorem terminals_setTerminal (manager : PTYManager) (terminalId : String) (terminal : Terminal) :
    (manager.setTerminal terminalId terminal).terminals terminalId = some terminal := Function.update_self _ _ _

/-- A terminal that is finishing is not read. -/
theorem readAll_of_finishing (h : manager.terminals terminalId = some terminal) (hfinishing : terminal.finishing = true)
    (outcomes : List ReadOutcome) : manager.readAll terminalId outcomes = manager := by
  induction outcomes with
  | nil => rfl
  | cons outcome outcomes ih =>
    have hstep : manager.readReady terminalId outcome = manager := by
      rw [readReady, h]
      exact if_pos hfinishing
    rw [readAll, List.foldl_cons, hstep]
    exact ih

/-- **Reading.** Each chunk that is read is decoded by itself. -/
theorem output_readAll (h : manager.terminals terminalId = some terminal) (hfinishing : terminal.finishing = false)
    (outcomes : List ReadOutcome) :
    (manager.readAll terminalId outcomes).output terminalId
      = manager.output terminalId ++ (chunksRead outcomes).flatMap decodeReplace := by
  induction outcomes generalizing manager with
  | nil => simp [readAll, chunksRead]
  | cons outcome outcomes ih =>
    have hfinish : ((manager.setTerminal terminalId { terminal with finishing := true }).readAll terminalId
        outcomes).output terminalId = manager.output terminalId := by
      rw [readAll_of_finishing (terminals_setTerminal _ _ _) rfl]
      rfl
    rw [readAll, List.foldl_cons, ← readAll, readReady, h]
    dsimp only
    rw [if_neg (by rw [hfinishing]; decide)]
    cases outcome with
    | error errno =>
      dsimp only
      rw [chunksRead]
      by_cases hgone : errno.gone = true
      · rw [if_pos hgone, if_pos hgone, hfinish]
        simp
      · rw [if_neg hgone, if_neg hgone]
        exact ih h
    | data bytes =>
      dsimp only
      rw [chunksRead]
      by_cases hne : bytes ≠ []
      · rw [if_pos hne, if_pos hne, ih (by exact h), List.flatMap_cons, ← List.append_assoc]
        simp [output]
      · rw [if_neg hne, if_neg hne, hfinish]
        simp

end Reading

/-! ### Writing -/

section Writing

open PTYManager

/-- `os.write` took all bytes, or raised. -/
def PTYManager.WriteOutcome.Took (bytes : List UInt8) : WriteOutcome → Prop
  | .wrote count => bytes.length ≤ count
  | .error _ => True

variable {manager : PTYManager} {threadId : String} {terminal : Terminal}

/-- **Writing.** `True` stands for all bytes exactly if `os.write` took all. -/
theorem input_written_iff (h : manager.terminalForThread threadId = some terminal) (data : List Char)
    (outcome : WriteOutcome) :
    ((manager.input threadId data outcome).1 = .ok true →
        (manager.input threadId data outcome).2 = (encodeUtf8 data).data.toList)
      ↔ outcome.Took (encodeUtf8 data).data.toList := by
  rw [PTYManager.input.eq_def, h]
  cases outcome with
  | wrote count =>
    refine ⟨fun hall => ?_, fun hall _ => List.take_of_length_le hall⟩
    have hlength := congrArg List.length (hall rfl)
    rw [List.length_take] at hlength
    show (encodeUtf8 data).data.toList.length ≤ count
    omega
  | error errno =>
    refine ⟨fun _ => trivial, fun _ hok => ?_⟩
    dsimp only at hok
    split at hok <;> simp at hok

end Writing

/-! ### Both -/

section Bytes

open PTYManager

variable {manager : PTYManager} {threadId terminalId : String}

/-- **Terminal bytes.** Behind the opening of a terminal, its output is its decoded stream, and `True` stands for
    all bytes of an input, exactly if no read goes on with a character that was left unfinished and `os.write`
    took all bytes or raised. -/
theorem terminal_bytes_iff (hthread : manager.byThread threadId = none) (hfresh : manager.output terminalId = [])
    (outcomes : List ReadOutcome) (data : List Char) (outcome : WriteOutcome) :
    let opened := manager.openTerminal threadId terminalId
    ((opened.readAll terminalId outcomes).output terminalId = decodeReplace (chunksRead outcomes).flatten
        ∧ ((opened.input threadId data outcome).1 = .ok true →
            (opened.input threadId data outcome).2 = (encodeUtf8 data).data.toList))
      ↔ Whole (chunksRead outcomes) ∧ outcome.Took (encodeUtf8 data).data.toList := by
  have hopened : manager.openTerminal threadId terminalId
      = { manager.setTerminal terminalId { terminalId := terminalId, threadId := threadId } with
          byThread := Function.update manager.byThread threadId (some terminalId) } := by
    rw [openTerminal, hthread]
  have hterminal : (manager.openTerminal threadId terminalId).terminals terminalId
      = some { terminalId := terminalId, threadId := threadId } := by
    rw [hopened]
    exact terminals_setTerminal _ _ _
  have hlookup : (manager.openTerminal threadId terminalId).terminalForThread threadId
      = some { terminalId := terminalId, threadId := threadId } := by
    have hid : (manager.openTerminal threadId terminalId).byThread threadId = some terminalId := by
      rw [hopened]
      exact Function.update_self _ _ _
    rw [terminalForThread, hid]
    exact hterminal
  have hnone : (manager.openTerminal threadId terminalId).output terminalId = [] := by
    rw [hopened]
    exact hfresh
  intro opened
  rw [output_readAll hterminal rfl, hnone, List.nil_append, input_written_iff hlookup,
    decodeReplace_flatten_iff _ fun _ => ne_nil_of_mem_chunksRead]

/-- Two reads that share no character, and a write of both bytes. -/
theorem terminal_bytes_whole :
    let opened := PTYManager.openTerminal {} "thread" "terminal"
    (opened.readAll "terminal" [.data [0x63, 0x61, 0x66, 0xC3, 0xA9], .data [0x0A]]).output "terminal"
        = decodeReplace [0x63, 0x61, 0x66, 0xC3, 0xA9, 0x0A]
      ∧ ((opened.input "thread" ['l', 's'] (.wrote 2)).1 = .ok true →
          (opened.input "thread" ['l', 's'] (.wrote 2)).2 = (encodeUtf8 ['l', 's']).data.toList) :=
  (terminal_bytes_iff rfl rfl [.data [0x63, 0x61, 0x66, 0xC3, 0xA9], .data [0x0A]] ['l', 's'] (.wrote 2)).mpr
    ⟨by decide, by show _ ≤ 2; decide +kernel⟩

/-- Two reads that share a character, and a write of one byte of two. -/
theorem terminal_bytes_severed :
    let opened := PTYManager.openTerminal {} "thread" "terminal"
    (opened.readAll "terminal" [.data [0xC3], .data [0xA9]]).output "terminal" = ['\uFFFD', '\uFFFD']
      ∧ decodeReplace [0xC3, 0xA9] = ['é']
      ∧ (opened.input "thread" ['l', 's'] (.wrote 1)).1 = .ok true
      ∧ (opened.input "thread" ['l', 's'] (.wrote 1)).2 ≠ (encodeUtf8 ['l', 's']).data.toList := by
  refine ⟨by decide +kernel, by decide +kernel, rfl, by decide +kernel⟩

end Bytes

end AeloonRuntime
