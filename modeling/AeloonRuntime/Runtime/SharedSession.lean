import AeloonRuntime.Lib.Transition
import AeloonRuntime.Runtime.SessionCrash

namespace AeloonRuntime

open Py

/-!
# Shared session — the requests on one session file

`runtime/service.py`: every request opens the session file for itself and works on what it has read;
what it appends goes behind whatever the file ends with by then.  `runtime.lock` is taken behind the
opening.

* `SharedFile` — the file, by its records; `SharedFile.reopen_eq_ok_iff` says when it opens;
* `SessionRequest` — `session_configure`, `session_rename`, `session_next_turn`, `turn_start` with its
  turn, and `session_compact`;
* `SharedSession.step` — one step of one request, in any order;
* `SharedSession.step_appends` — what a step does to the file.
-/

/-! ### The file -/

/-- The file of a session: its header and the records behind it. -/
structure SharedFile where
  session : NewSession
  records : List Dict
  /-- They are records of `_append_entry` and `set_leaf_id`. -/
  stored : ∀ r ∈ records, IsRecord r

namespace SharedFile

/-- The bytes on disk. -/
def bytes (f : SharedFile) : ByteArray := encodeUtf8 (logText (f.session.header :: f.records))

/-- `repository.open`. -/
def reopen (f : SharedFile) : Except PyError Session :=
  openSession s!"{f.session.id}.jsonl" f.session.id (some f.bytes)

/-- What a handle opened now has read. -/
def snapshot (f : SharedFile) : Session :=
  { metadata := metadataOf f.session.header, entries := f.records, currentLeafId := leafOf f.records }

/-- `_append`, of one record. -/
def append (f : SharedFile) (record : Dict) (hrecord : IsRecord record) : SharedFile where
  session := f.session
  records := f.records ++ [record]
  stored := by
    intro r hr
    rcases List.mem_append.mp hr with hr | hr
    · exact f.stored r hr
    · rw [List.mem_singleton.mp hr]; exact hrecord

/-- The line of a record goes behind the last byte. -/
theorem bytes_append (f : SharedFile) {record : Dict} (hrecord : IsRecord record) :
    (f.append record hrecord).bytes = appendText f.bytes (recordLine record) := by
  rw [bytes, append, ← List.cons_append, logText_append, encodeUtf8_append]
  simp [bytes, appendText, logText]

/-- The file opens exactly when no string of it has a line separator above ASCII. -/
theorem reopen_eq_ok_iff {f : SharedFile} {s : Session} :
    f.reopen = .ok s
      ↔ (∀ r ∈ f.session.header :: f.records, (Json.obj r).hasSeparator = false) ∧ s = f.snapshot := by
  have hread : readSession s!"{f.session.id}.jsonl" f.bytes
      = readText s!"{f.session.id}.jsonl" (logText (f.session.header :: f.records)) :=
    readSession_encode _ rfl (List.append_nil _).symm
  obtain ⟨-, -, hid, -, -⟩ := header_getD f.session
  rw [reopen, openSession_eq_ok_iff, hread]
  constructor
  · rintro ⟨-, header, hok, -, hmetadata⟩
    have hclean : ∀ r ∈ f.session.header :: f.records, (Json.obj r).hasSeparator = false := by
      by_contra hbad
      have hsep : ∃ r ∈ f.session.header :: f.records, (Json.obj r).hasSeparator = true := by
        simpa only [not_forall, Bool.not_eq_false, exists_prop] using hbad
      obtain ⟨e, he⟩ := readText_of_separator s!"{f.session.id}.jsonl" f.stored hsep []
      rw [List.append_nil, hok] at he
      exact absurd he (by simp)
    rw [readText_log (readHeader_header _ _) (fun r hr => (f.stored r hr).entry) hclean] at hok
    obtain ⟨rfl, hentries, hleaf⟩ : f.session.header = header ∧ f.records = s.entries
        ∧ leafOf f.records = s.currentLeafId := by simpa using hok
    refine ⟨hclean, ?_⟩
    cases s
    simp_all [snapshot]
  · rintro ⟨hclean, rfl⟩
    exact ⟨f.session.id_ok, f.session.header,
      readText_log (readHeader_header _ _) (fun r hr => (f.stored r hr).entry) hclean, hid, rfl⟩

end SharedFile

/-! ### What the requests read -/

/-- `_session_overrides`: the configuration that was stored last. -/
def sessionOverrides (entries : List Dict) : Dict :=
  entries.foldl (fun value entry =>
    if isType entry "session_config" then ((Dict.getD entry "config").asDict?).getD value else value) []

/-- `dict(entry.get("input") or {})`.  A list of pairs, which no request stores, is not modelled. -/
def nextTurnItem (entry : Dict) : Option Dict :=
  let input := Dict.getD entry "input"
  if input.truthy then input.asDict? else some []

/-- The texts that a `for` loop over `value or []` runs through. -/
def iterated (value : Json) : Option (List String) :=
  if !value.truthy then some []
  else match value with
    | .arr items => some (items.map Json.pyStr)
    | .str s => some (s.toList.map fun c => String.ofList [c])
    | .obj items => some (items.map Prod.fst)
    | _ => none

/-- The inputs that wait for a turn, by the ids of their entries. -/
abbrev Pending := List (String × Dict)

/-- `pending[id] = item`. -/
def Pending.setItem (pending : Pending) (id : String) (item : Dict) : Pending :=
  if pending.any (·.1 = id) then pending.map fun p => if p.1 = id then (id, item) else p
  else pending ++ [(id, item)]

/-- One round of `_pending_next_turn`. -/
def pendingStep (pending : Pending) (entry : Dict) : Option Pending :=
  if isType entry "next_turn_input" then
    (nextTurnItem entry).map fun item => pending.setItem (entryIdOf entry) item
  else if isType entry "next_turn_consumed" then
    (iterated (Dict.getD entry "entryIds")).map fun ids => pending.filter fun p => p.1 ∉ ids
  else some pending

/-- `_pending_next_turn`, with `none` for what it raises. -/
def pendingNextTurn (entries : List Dict) : Option Pending := entries.foldlM pendingStep []

/-! ### The requests -/

/-- A request on the session, with what it has checked before it opens the session's file again. -/
inductive SessionRequest where
  /-- `session_configure`, with its patch. -/
  | configure (patch : Dict)
  /-- `session_rename`. -/
  | rename (title : Option String)
  /-- `session_next_turn`. -/
  | nextTurn (input : Dict)
  /-- `turn_start` and `_execute_turn`. -/
  | turn (runId : String) (input : Dict)
  /-- `session_compact`. -/
  | compact
  deriving DecidableEq

/-- A turn. -/
def SessionRequest.isTurn : SessionRequest → Bool
  | .turn _ _ => true
  | _ => false

/-- How far a request has come. -/
inductive CallPhase where
  /-- It has its handle. -/
  | opened
  /-- `append_run_start` has returned. -/
  | queued
  /-- It has taken the lock. -/
  | holding
  /-- The turn has its input. -/
  | running
  /-- The turn has raised: it has left the lock, and its `run_end` is still to be written. -/
  | failing
  | done
  deriving DecidableEq

/-- A request with its own handle. -/
structure SessionCall where
  request : SessionRequest
  handle : Session
  phase : CallPhase
  /-- What the turn has passed to `agent.next_turn`. -/
  pending : Pending := []
  deriving DecidableEq

/-- What the requests' clients can tell. -/
inductive SessionEvent where
  /-- The request has taken `runtime.lock`. -/
  | acquired (call : Nat) (request : SessionRequest)
  /-- `session_next_turn` has accepted an input. -/
  | accepted (id : String) (input : Dict)
  deriving DecidableEq

/-- The session, with the requests on it in the order in which they opened it. -/
structure SharedSession where
  file : SharedFile
  calls : List SessionCall := []
  /-- Who holds `runtime.lock`. -/
  lock : Option Nat := none
  history : List SessionEvent := []

/-- What a turn writes between its input and the end of its critical section: the messages of its run,
    compactions, deliveries, its end and its title. -/
def Session.Op.isRunOp : Session.Op → Bool
  | .appendMessage _ => true
  | .appendCompaction _ => true
  | .appendArtifactDelivery _ _ _ => true
  | .appendRunEnd _ _ _ _ => true
  | .setName _ => true
  | _ => false

/-- What a request that holds the lock may write in a phase. -/
def SessionCall.mayWrite (c : SessionCall) (op : Session.Op) : Bool :=
  match c.request, c.phase, op with
  | .turn _ _, .running, op => op.isRunOp
  | .compact, .holding, .appendCompaction _ => true
  | _, _, _ => false

/-- Where a request stands when it waits for the lock. -/
def SessionRequest.waits : SessionRequest → Option CallPhase
  | .configure _ => some .opened
  | .turn _ _ => some .queued
  | .compact => some .opened
  | _ => none

/-- What a call writes is a record. -/
theorem Session.Op.isRecord_of_apply {op : Session.Op} {s : Session} {stamp : Stamp}
    {r : Dict × Session} (h : op.apply s stamp = .ok r) : IsRecord r.1 := by
  obtain ⟨entry, s'⟩ := r
  rcases Session.Op.apply_cases h with ⟨kind, payload, -, -, heq⟩ | ⟨leafId, -, rfl, -⟩
  · obtain ⟨rfl, -⟩ := Prod.mk.inj heq
    exact newEntry_isRecord _ _ _ _
  · exact newEntry_isRecord _ _ _ _

namespace SharedSession

variable (w : SharedSession)

/-- The request at an index has come further. -/
def put (i : Nat) (c : SessionCall) : SharedSession := { w with calls := w.calls.set i c }

/-- A handle has written a record: the record goes to the file, the request goes on. -/
def wrote (i : Nat) (c : SessionCall) (r : Dict × Session) (hr : IsRecord r.1) (phase : CallPhase) :
    SharedSession :=
  { w with
    file := w.file.append r.1 hr
    calls := w.calls.set i { c with handle := r.2, phase := phase } }

/-- The lock is free again. -/
def unlocked : SharedSession := { w with lock := none }

/-- Something has happened. -/
def record (e : SessionEvent) : SharedSession := { w with history := w.history ++ [e] }

/-- A step of one of the requests. -/
inductive Step where
  /-- A request opens the file. -/
  | arrive (request : SessionRequest)
  /-- `append_run_start` of `turn_start`, with the configured model and thinking level. -/
  | runStart (call : Nat) (stamp : Stamp) (model thinkingLevel : String)
  | acquire (call : Nat)
  /-- `append_session_config`, and the end of the critical section. -/
  | configure (call : Nat) (stamp : Stamp)
  /-- The turn reads what waits for it, and appends the marker. -/
  | consume (call : Nat) (stamp : Stamp)
  /-- A record of a run or of a compaction. -/
  | write (call : Nat) (stamp : Stamp) (op : Session.Op)
  /-- The turn or the compaction leaves its critical section. -/
  | release (call : Nat)
  /-- The turn raises, with the lock or on its way to it. -/
  | raise (call : Nat)
  /-- `append_run_end` of a turn that has raised, without the lock. -/
  | runEnd (call : Nat) (stamp : Stamp) (status : String) (durationMs : Option Int) (error : Option String)
  /-- `set_name` or `append_next_turn_input`. -/
  | append (call : Nat) (stamp : Stamp)

/-- `append_run_start` of `turn_start`: the session's overrides go before the configured values. -/
def startRun (c : SessionCall) (stamp : Stamp) (runId : String) (input : Dict)
    (model thinkingLevel : String) : Dict × Session :=
  let overrides := sessionOverrides c.handle.entries
  c.handle.appendRunStart stamp runId input
    (((Dict.get overrides "model_id").getD (.str model)).pyStr)
    (((Dict.get overrides "thinking_level").getD (.str thinkingLevel)).pyStr)

/-- A step, unless it cannot happen now. -/
def step (w : SharedSession) : Step → Option SharedSession
  | .arrive request =>
    match w.file.reopen with
    | .ok handle => some { w with calls := w.calls ++ [⟨request, handle, .opened, []⟩] }
    | .error _ => none
  | .runStart i stamp model thinkingLevel => do
    let c ← w.calls[i]?
    match c.request, c.phase with
    | .turn runId input, .opened =>
      some (w.wrote i c (startRun c stamp runId input model thinkingLevel)
        (newEntry_isRecord _ _ _ _) .queued)
    | _, _ => none
  | .acquire i => do
    let c ← w.calls[i]?
    if w.lock = none ∧ c.request.waits = some c.phase then
      some ({ w.put i { c with phase := .holding } with lock := some i }.record (.acquired i c.request))
    else none
  | .configure i stamp => do
    let c ← w.calls[i]?
    match c.request, c.phase with
    | .configure patch, .holding =>
      let merged := Dict.merge (sessionOverrides c.handle.entries) patch
      some (w.wrote i c (c.handle.appendSessionConfig stamp merged) (newEntry_isRecord _ _ _ _)
        .done).unlocked
    | _, _ => none
  | .consume i stamp => do
    let c ← w.calls[i]?
    match c.request, c.phase with
    | .turn _ _, .holding => do
      let pending ← pendingNextTurn c.handle.entries
      if pending = [] then some (w.put i { c with pending := [], phase := .running })
      else
        some (w.wrote i { c with pending := pending }
          (c.handle.appendNextTurnConsumed stamp (pending.map Prod.fst)) (newEntry_isRecord _ _ _ _)
          .running)
    | _, _ => none
  | .write i stamp op => do
    let c ← w.calls[i]?
    if c.mayWrite op then
      match hop : op.apply c.handle stamp with
      | .ok r => some (w.wrote i c r (Session.Op.isRecord_of_apply hop) c.phase)
      | .error _ => none
    else none
  | .release i => do
    let c ← w.calls[i]?
    match c.request, c.phase with
    | .turn _ _, .running => some (w.put i { c with phase := .done }).unlocked
    | .compact, .holding => some (w.put i { c with phase := .done }).unlocked
    | _, _ => none
  | .raise i => do
    let c ← w.calls[i]?
    match c.request, c.phase with
    | .turn _ _, .queued => some (w.put i { c with phase := .failing })
    | .turn _ _, .holding => some (w.put i { c with phase := .failing }).unlocked
    | .turn _ _, .running => some (w.put i { c with phase := .failing }).unlocked
    | _, _ => none
  | .runEnd i stamp status durationMs error => do
    let c ← w.calls[i]?
    match c.request, c.phase with
    | .turn runId _, .failing =>
      some (w.wrote i c (c.handle.appendRunEnd stamp runId status durationMs error)
        (newEntry_isRecord _ _ _ _) .done)
    | _, _ => none
  | .append i stamp => do
    let c ← w.calls[i]?
    match c.request, c.phase with
    | .rename title, .opened => some (w.wrote i c (c.handle.setName stamp title) (newEntry_isRecord _ _ _ _) .done)
    | .nextTurn input, .opened =>
      let r := c.handle.appendNextTurnInput stamp input
      some ((w.wrote i c r (newEntry_isRecord _ _ _ _) .done).record (.accepted (entryIdOf r.1) input))
    | _, _ => none

/-! ### What a step does -/

section Steps

variable {w} {w' : SharedSession} {i : Nat} {stamp : Stamp}

theorem step_arrive {request : SessionRequest} (h : step w (.arrive request) = some w') :
    ∃ handle, w.file.reopen = .ok handle
      ∧ w' = { w with calls := w.calls ++ [⟨request, handle, .opened, []⟩] } := by
  unfold step at h
  cases hopen : w.file.reopen with
  | error e => simp [hopen] at h
  | ok handle => exact ⟨handle, rfl, by simpa [hopen] using h.symm⟩

theorem step_runStart {model thinkingLevel : String}
    (h : step w (.runStart i stamp model thinkingLevel) = some w') :
    ∃ c runId input, w.calls[i]? = some c ∧ c.request = .turn runId input ∧ c.phase = .opened
      ∧ w' = w.wrote i c (startRun c stamp runId input model thinkingLevel)
        (newEntry_isRecord _ _ _ _) .queued := by
  obtain ⟨c, hc, h⟩ := Option.bind_eq_some_iff.mp h
  split at h
  · rename_i runId input hrequest hphase
    exact ⟨c, runId, input, hc, hrequest, hphase, (Option.some.inj h).symm⟩
  · simp at h

theorem step_acquire (h : step w (.acquire i) = some w') :
    ∃ c, w.calls[i]? = some c ∧ w.lock = none ∧ c.request.waits = some c.phase
      ∧ w' = { w.put i { c with phase := .holding } with lock := some i }.record
          (.acquired i c.request) := by
  obtain ⟨c, hc, h⟩ := Option.bind_eq_some_iff.mp h
  split at h
  · rename_i hfree
    exact ⟨c, hc, hfree.1, hfree.2, (Option.some.inj h).symm⟩
  · simp at h

theorem step_configure (h : step w (.configure i stamp) = some w') :
    ∃ c patch, w.calls[i]? = some c ∧ c.request = .configure patch ∧ c.phase = .holding
      ∧ w' = (w.wrote i c (c.handle.appendSessionConfig stamp
          (Dict.merge (sessionOverrides c.handle.entries) patch)) (newEntry_isRecord _ _ _ _)
          .done).unlocked := by
  obtain ⟨c, hc, h⟩ := Option.bind_eq_some_iff.mp h
  split at h
  · rename_i patch hrequest hphase
    exact ⟨c, patch, hc, hrequest, hphase, (Option.some.inj h).symm⟩
  · simp at h

theorem step_consume (h : step w (.consume i stamp) = some w') :
    ∃ c runId input pending, w.calls[i]? = some c ∧ c.request = .turn runId input ∧ c.phase = .holding
      ∧ pendingNextTurn c.handle.entries = some pending
      ∧ ((pending = [] ∧ w' = w.put i { c with pending := [], phase := .running })
        ∨ (pending ≠ [] ∧ w' = w.wrote i { c with pending := pending }
            (c.handle.appendNextTurnConsumed stamp (pending.map Prod.fst)) (newEntry_isRecord _ _ _ _)
            .running)) := by
  obtain ⟨c, hc, h⟩ := Option.bind_eq_some_iff.mp h
  split at h
  · rename_i runId input hrequest hphase
    obtain ⟨pending, hpending, h⟩ := Option.bind_eq_some_iff.mp h
    refine ⟨c, runId, input, pending, hc, hrequest, hphase, hpending, ?_⟩
    split at h
    · rename_i hnil
      subst hnil
      exact .inl ⟨rfl, (Option.some.inj h).symm⟩
    · rename_i hne
      exact .inr ⟨hne, (Option.some.inj h).symm⟩
  · simp at h

theorem step_write {op : Session.Op} (h : step w (.write i stamp op) = some w') :
    ∃ c r, w.calls[i]? = some c ∧ c.mayWrite op = true
      ∧ ∃ hop : op.apply c.handle stamp = .ok r,
        w' = w.wrote i c r (Session.Op.isRecord_of_apply hop) c.phase := by
  obtain ⟨c, hc, h⟩ := Option.bind_eq_some_iff.mp h
  split at h
  · rename_i hmay
    split at h
    · rename_i r hop
      exact ⟨c, r, hc, hmay, hop, (Option.some.inj h).symm⟩
    · simp at h
  · simp at h

theorem step_release (h : step w (.release i) = some w') :
    ∃ c, w.calls[i]? = some c ∧ (c.phase = .running ∨ c.phase = .holding)
      ∧ (∀ patch, c.request ≠ .configure patch)
      ∧ w' = (w.put i { c with phase := .done }).unlocked := by
  obtain ⟨c, hc, h⟩ := Option.bind_eq_some_iff.mp h
  split at h
  · rename_i runId input hrequest hphase
    exact ⟨c, hc, .inl hphase, by simp [hrequest], (Option.some.inj h).symm⟩
  · rename_i hrequest hphase
    exact ⟨c, hc, .inr hphase, by simp [hrequest], (Option.some.inj h).symm⟩
  · simp at h

theorem step_raise (h : step w (.raise i) = some w') :
    ∃ c runId input, w.calls[i]? = some c ∧ c.request = .turn runId input
      ∧ ((c.phase = .queued ∧ w' = w.put i { c with phase := .failing })
        ∨ ((c.phase = .holding ∨ c.phase = .running)
          ∧ w' = (w.put i { c with phase := .failing }).unlocked)) := by
  obtain ⟨c, hc, h⟩ := Option.bind_eq_some_iff.mp h
  split at h
  · rename_i runId input hrequest hphase
    exact ⟨c, runId, input, hc, hrequest, .inl ⟨hphase, (Option.some.inj h).symm⟩⟩
  · rename_i runId input hrequest hphase
    exact ⟨c, runId, input, hc, hrequest, .inr ⟨.inl hphase, (Option.some.inj h).symm⟩⟩
  · rename_i runId input hrequest hphase
    exact ⟨c, runId, input, hc, hrequest, .inr ⟨.inr hphase, (Option.some.inj h).symm⟩⟩
  · simp at h

theorem step_runEnd {status : String} {durationMs : Option Int} {error : Option String}
    (h : step w (.runEnd i stamp status durationMs error) = some w') :
    ∃ c runId input, w.calls[i]? = some c ∧ c.request = .turn runId input ∧ c.phase = .failing
      ∧ w' = w.wrote i c (c.handle.appendRunEnd stamp runId status durationMs error)
        (newEntry_isRecord _ _ _ _) .done := by
  obtain ⟨c, hc, h⟩ := Option.bind_eq_some_iff.mp h
  split at h
  · rename_i runId input hrequest hphase
    exact ⟨c, runId, input, hc, hrequest, hphase, (Option.some.inj h).symm⟩
  · simp at h

theorem step_append (h : step w (.append i stamp) = some w') :
    ∃ c, w.calls[i]? = some c ∧ c.phase = .opened
      ∧ ((∃ title, c.request = .rename title ∧ w' = w.wrote i c (c.handle.setName stamp title)
          (newEntry_isRecord _ _ _ _) .done)
        ∨ ∃ input, c.request = .nextTurn input
          ∧ w' = (w.wrote i c (c.handle.appendNextTurnInput stamp input) (newEntry_isRecord _ _ _ _)
              .done).record
              (.accepted (entryIdOf (c.handle.appendNextTurnInput stamp input).1) input)) := by
  obtain ⟨c, hc, h⟩ := Option.bind_eq_some_iff.mp h
  split at h
  · rename_i title hrequest hphase
    exact ⟨c, hc, hphase, .inl ⟨title, hrequest, (Option.some.inj h).symm⟩⟩
  · rename_i input hrequest hphase
    exact ⟨c, hc, hphase, .inr ⟨input, hrequest, (Option.some.inj h).symm⟩⟩
  · simp at h

end Steps

/-! ### What a step does to the file -/

/-- The kinds of the records of a run. -/
def runKinds : List String := ["message", "compaction", "artifact_delivery", "run_end", "session_info"]

/-- The kinds of the records that a step may append. -/
def Step.kinds : Step → List String
  | .runStart _ _ _ _ => ["run_start"]
  | .configure _ _ => ["session_config"]
  | .consume _ _ => ["next_turn_consumed"]
  | .write _ _ _ => runKinds
  | .runEnd _ _ _ _ _ => ["run_end"]
  | .append _ _ => ["session_info", "next_turn_input"]
  | _ => []

/-- The request that goes on in a step. -/
def Step.call : Step → Option Nat
  | .arrive _ => none
  | .runStart i _ _ _ => some i
  | .acquire i => some i
  | .configure i _ => some i
  | .consume i _ => some i
  | .write i _ _ => some i
  | .release i => some i
  | .raise i => some i
  | .runEnd i _ _ _ _ => some i
  | .append i _ => some i

/-- The payload of a `run_end`. -/
theorem runEndPayload_plain (runId status : String) (durationMs : Option Int) (error : Option String) :
    Session.PlainPayload ([("runId", .str runId), ("status", .str status)]
      ++ Session.optionalItem "durationMs" (durationMs.map .int)
      ++ Session.optionalItem "error" ((error.filter (· ≠ "")).map .str)) := by
  refine Session.plainPayload_of_keys ?_
  intro item hitem
  simp only [List.mem_append, List.mem_cons, List.not_mem_nil, or_false] at hitem
  rcases hitem with ((rfl | rfl) | h) | h
  · simp [Session.entryKeys]
  · simp [Session.entryKeys]
  · rw [Session.mem_optionalItem h]; simp [Session.entryKeys]
  · rw [Session.mem_optionalItem h]; simp [Session.entryKeys]

/-- A write of a run appends one of its records. -/
theorem apply_runOp {c : SessionCall} {op : Session.Op} {s : Session} {stamp : Stamp}
    {r : Dict × Session} (hmay : c.mayWrite op = true) (hop : op.apply s stamp = .ok r) :
    ∃ kind payload, kind ∈ runKinds ∧ Session.PlainPayload payload
      ∧ r = s.appendEntry stamp kind payload := by
  have hrun : op.isRunOp = true := by
    unfold SessionCall.mayWrite at hmay
    split at hmay
    · exact hmay
    · rfl
    · simp at hmay
  cases op with
  | appendMessage message =>
    exact ⟨"message", _, by decide, Session.plainPayload_of_keys (by simp [Session.entryKeys]),
      (Except.ok.inj hop).symm⟩
  | appendCompaction args =>
    exact ⟨"compaction", _, by decide, Session.compactionPayload_plain args, (Except.ok.inj hop).symm⟩
  | appendArtifactDelivery runId toolCallId artifacts =>
    exact ⟨"artifact_delivery", _, by decide,
      Session.plainPayload_of_keys (by simp [Session.entryKeys]), (Except.ok.inj hop).symm⟩
  | appendRunEnd runId status durationMs error =>
    exact ⟨"run_end", _, by decide, runEndPayload_plain runId status durationMs error,
      (Except.ok.inj hop).symm⟩
  | setName name =>
    exact ⟨"session_info", _, by decide, Session.plainPayload_of_keys (by simp [Session.entryKeys]),
      (Except.ok.inj hop).symm⟩
  | _ => simp [Session.Op.isRunOp] at hrun

/-- The id that a step draws for the record it appends. -/
def drawnId (w : SharedSession) : Step → Option String
  | .runStart i stamp _ _ => (w.calls[i]?).map fun c => c.handle.entryId stamp.uuids
  | .configure i stamp => (w.calls[i]?).map fun c => c.handle.entryId stamp.uuids
  | .consume i stamp => do
    let c ← w.calls[i]?
    if pendingNextTurn c.handle.entries = some [] then none else some (c.handle.entryId stamp.uuids)
  | .write i stamp _ => (w.calls[i]?).map fun c => c.handle.entryId stamp.uuids
  | .runEnd i stamp _ _ _ => (w.calls[i]?).map fun c => c.handle.entryId stamp.uuids
  | .append i stamp => (w.calls[i]?).map fun c => c.handle.entryId stamp.uuids
  | _ => none

/-- A handle appends a record of its own, and the file gets it. -/
structure Appends (w w' : SharedSession) (e : Step) (i : Nat) (c c' : SessionCall) (stamp : Stamp)
    (kind : String) (payload : Dict) : Prop where
  kind_mem : kind ∈ e.kinds
  plain : Session.PlainPayload payload
  drawn : drawnId w e = some (c.handle.entryId stamp.uuids)
  handle : c'.handle = (c.handle.appendEntry stamp kind payload).2
  file : w'.file = w.file.append (c.handle.newEntry stamp kind payload) (newEntry_isRecord _ _ _ _)
  calls : w'.calls = w.calls.set i c'

/-- What a step does to the file and to the handles: a request opens the file, goes on, or appends a
    record. -/
theorem step_cases {w w' : SharedSession} {e : Step} (h : step w e = some w') :
    (∃ request handle, e = .arrive request ∧ w.file.reopen = .ok handle ∧ w'.file = w.file
      ∧ w'.calls = w.calls ++ [⟨request, handle, .opened, []⟩])
    ∨ ∃ i c c', e.call = some i ∧ w.calls[i]? = some c
      ∧ ((c'.handle = c.handle ∧ w'.file = w.file ∧ w'.calls = w.calls.set i c')
        ∨ ∃ stamp kind payload, Appends w w' e i c c' stamp kind payload) := by
  cases e with
  | arrive request =>
    obtain ⟨handle, hopen, rfl⟩ := step_arrive h
    exact .inl ⟨request, handle, rfl, hopen, rfl, rfl⟩
  | runStart i stamp model thinkingLevel =>
    obtain ⟨c, runId, input, hc, -, -, rfl⟩ := step_runStart h
    exact .inr ⟨i, c, _, rfl, hc, .inr ⟨stamp, _, _, List.mem_singleton.mpr rfl,
      Session.plainPayload_of_keys (by simp [Session.entryKeys]), by simp [drawnId, hc], rfl, rfl, rfl⟩⟩
  | acquire i =>
    obtain ⟨c, hc, -, -, rfl⟩ := step_acquire h
    exact .inr ⟨i, c, { c with phase := .holding }, rfl, hc, .inl ⟨rfl, rfl, rfl⟩⟩
  | configure i stamp =>
    obtain ⟨c, patch, hc, -, -, rfl⟩ := step_configure h
    exact .inr ⟨i, c, _, rfl, hc, .inr ⟨stamp, _, _, List.mem_singleton.mpr rfl,
      Session.plainPayload_of_keys (by simp [Session.entryKeys]), by simp [drawnId, hc], rfl, rfl, rfl⟩⟩
  | consume i stamp =>
    obtain ⟨c, runId, input, pending, hc, -, -, hpending, ⟨-, rfl⟩ | ⟨hsome, rfl⟩⟩ := step_consume h
    · exact .inr ⟨i, c, { c with pending := [], phase := .running }, rfl, hc, .inl ⟨rfl, rfl, rfl⟩⟩
    · exact .inr ⟨i, c, _, rfl, hc, .inr ⟨stamp, _, _, List.mem_singleton.mpr rfl,
        Session.plainPayload_of_keys (by simp [Session.entryKeys]),
        by simp [drawnId, hc, hpending, hsome], rfl, rfl, rfl⟩⟩
  | write i stamp op =>
    obtain ⟨c, r, hc, hmay, hop, rfl⟩ := step_write h
    obtain ⟨kind, payload, hkind, hplain, rfl⟩ := apply_runOp hmay hop
    exact .inr ⟨i, c, { c with handle := (c.handle.appendEntry stamp kind payload).2 }, rfl, hc,
      .inr ⟨stamp, kind, payload, hkind, hplain, by simp [drawnId, hc], rfl, rfl, rfl⟩⟩
  | release i =>
    obtain ⟨c, hc, -, -, rfl⟩ := step_release h
    exact .inr ⟨i, c, { c with phase := .done }, rfl, hc, .inl ⟨rfl, rfl, rfl⟩⟩
  | raise i =>
    obtain ⟨c, runId, input, hc, -, ⟨-, rfl⟩ | ⟨-, rfl⟩⟩ := step_raise h
    all_goals exact .inr ⟨i, c, { c with phase := .failing }, rfl, hc, .inl ⟨rfl, rfl, rfl⟩⟩
  | runEnd i stamp status durationMs error =>
    obtain ⟨c, runId, input, hc, -, -, rfl⟩ := step_runEnd h
    exact .inr ⟨i, c, _, rfl, hc, .inr ⟨stamp, _, _, List.mem_singleton.mpr rfl,
      runEndPayload_plain runId status durationMs error, by simp [drawnId, hc], rfl, rfl, rfl⟩⟩
  | append i stamp =>
    obtain ⟨c, hc, -, ⟨title, -, rfl⟩ | ⟨input, -, rfl⟩⟩ := step_append h
    · exact .inr ⟨i, c, _, rfl, hc, .inr ⟨stamp, _, _, by simp [Step.kinds],
        Session.plainPayload_of_keys (by simp [Session.entryKeys]), by simp [drawnId, hc], rfl, rfl, rfl⟩⟩
    · exact .inr ⟨i, c, _, rfl, hc, .inr ⟨stamp, _, _, by simp [Step.kinds],
        Session.plainPayload_of_keys (by simp [Session.entryKeys]), by simp [drawnId, hc], rfl, rfl, rfl⟩⟩

/-- The file behind a step: as it was, or with one record more. -/
theorem step_file {w w' : SharedSession} {e : Step} (h : step w e = some w') :
    w'.file = w.file ∨ ∃ s stamp kind payload, kind ∈ e.kinds ∧ Session.PlainPayload payload
      ∧ w'.file = w.file.append (Session.newEntry s stamp kind payload) (newEntry_isRecord _ _ _ _) := by
  rcases step_cases h with ⟨request, handle, -, -, hfile, -⟩
      | ⟨i, c, c', -, -, ⟨-, hfile, -⟩ | ⟨stamp, kind, payload, hrecord⟩⟩
  · exact .inl hfile
  · exact .inl hfile
  · exact .inr ⟨c.handle, stamp, kind, payload, hrecord.kind_mem, hrecord.plain, hrecord.file⟩

/-- The requests that do not go on stay as they are. -/
theorem step_other {w w' : SharedSession} {e : Step} (h : step w e = some w') {i : Nat}
    {c : SessionCall} (hi : e.call ≠ some i) (hc : w.calls[i]? = some c) : w'.calls[i]? = some c := by
  have hset {j : Nat} {c' : SessionCall} (hj : e.call = some j) : (w.calls.set j c')[i]? = some c := by
    have hne : j ≠ i := by
      rintro rfl
      exact hi hj
    rw [List.getElem?_set_ne hne, hc]
  rcases step_cases h with ⟨request, handle, -, -, -, hcalls⟩
      | ⟨j, d, d', hj, -, ⟨-, -, hcalls⟩ | ⟨stamp, kind, payload, hrecord⟩⟩
  · obtain ⟨hlt, -⟩ := List.getElem?_eq_some_iff.mp hc
    rw [hcalls, List.getElem?_append_left hlt, hc]
  · rw [hcalls, hset hj]
  · rw [hrecord.calls, hset hj]

/-- The ids in the file stay. -/
theorem step_ids {w w' : SharedSession} {e : Step} (h : step w e = some w') :
    ∀ id ∈ w.file.records.map entryIdOf, id ∈ w'.file.records.map entryIdOf := by
  intro id hid
  rcases step_file h with heq | ⟨s, stamp, kind, payload, -, -, heq⟩
  · rwa [heq]
  · rw [heq, SharedFile.append, List.map_append]
    exact List.mem_append_left _ hid

/-- The requests behind one of them has gone on. -/
theorem getElem?_set_cases {calls : List SessionCall} {i j : Nat} {c d : SessionCall}
    (h : (calls.set j c)[i]? = some d) : (i = j ∧ d = c) ∨ (i ≠ j ∧ calls[i]? = some d) := by
  by_cases hij : j = i
  · subst hij
    rw [List.getElem?_set_self'] at h
    obtain ⟨-, -, rfl⟩ := Option.map_eq_some_iff.mp h
    exact .inl ⟨rfl, rfl⟩
  · rw [List.getElem?_set_ne hij] at h
    exact .inr ⟨Ne.symm hij, h⟩

/-- A request stays what it is. -/
theorem step_request {w w' : SharedSession} {e : Step} (h : step w e = some w') {i : Nat}
    {c : SessionCall} (hc : w.calls[i]? = some c) :
    ∃ c', w'.calls[i]? = some c' ∧ c'.request = c.request := by
  have moved : ∀ {j : Nat} {c₁ c₂ : SessionCall}, w.calls[j]? = some c₁ → c₂.request = c₁.request →
      ∃ c', (w.calls.set j c₂)[i]? = some c' ∧ c'.request = c.request := by
    intro j c₁ c₂ hj hrequest
    by_cases hij : j = i
    · subst hij
      obtain rfl : c₁ = c := Option.some.inj (hj.symm.trans hc)
      obtain ⟨hlt, -⟩ := List.getElem?_eq_some_iff.mp hj
      exact ⟨c₂, by simp [hlt], hrequest⟩
    · exact ⟨c, (List.getElem?_set_ne hij).trans hc, rfl⟩
  cases e with
  | arrive request => exact ⟨c, step_other h (by simp [Step.call]) hc, rfl⟩
  | runStart j stamp model thinkingLevel =>
    obtain ⟨c', runId, input, hj, -, -, rfl⟩ := step_runStart h
    exact moved hj rfl
  | acquire j =>
    obtain ⟨c', hj, -, -, rfl⟩ := step_acquire h
    exact moved hj rfl
  | configure j stamp =>
    obtain ⟨c', patch, hj, -, -, rfl⟩ := step_configure h
    exact moved hj rfl
  | consume j stamp =>
    obtain ⟨c', runId, input, pending, hj, -, -, -, ⟨-, rfl⟩ | ⟨-, rfl⟩⟩ := step_consume h
    · exact moved hj rfl
    · exact moved hj rfl
  | write j stamp op =>
    obtain ⟨c', r, hj, -, -, rfl⟩ := step_write h
    exact moved hj rfl
  | release j =>
    obtain ⟨c', hj, -, -, rfl⟩ := step_release h
    exact moved hj rfl
  | raise j =>
    obtain ⟨c', runId, input, hj, -, ⟨-, rfl⟩ | ⟨-, rfl⟩⟩ := step_raise h
    all_goals exact moved hj rfl
  | runEnd j stamp status durationMs error =>
    obtain ⟨c', runId, input, hj, -, -, rfl⟩ := step_runEnd h
    exact moved hj rfl
  | append j stamp =>
    obtain ⟨c', hj, -, ⟨title, -, rfl⟩ | ⟨input, -, rfl⟩⟩ := step_append h
    · exact moved hj rfl
    · exact moved hj rfl

/-! ### Records by their kind -/

/-- The records of some kinds. -/
def recordsOf (kinds : List String) (records : List Dict) : List Dict :=
  records.filter fun r => kinds.any (isType r)

theorem recordsOf_append (kinds : List String) (records more : List Dict) :
    recordsOf kinds (records ++ more) = recordsOf kinds records ++ recordsOf kinds more :=
  List.filter_append ..

/-- A new entry is of its own kind only. -/
theorem isType_newEntry {payload : Dict} (hplain : Session.PlainPayload payload) (s : Session)
    (stamp : Stamp) (kind other : String) :
    isType (s.newEntry stamp kind payload) other = decide (kind = other) := by
  obtain ⟨htype, -, -, -⟩ := Session.newEntry_getD hplain s stamp kind
  simp [isType, htype]

theorem recordsOf_newEntry {payload : Dict} (hplain : Session.PlainPayload payload) (s : Session)
    (stamp : Stamp) (kinds : List String) (kind : String) :
    recordsOf kinds [s.newEntry stamp kind payload]
      = if kind ∈ kinds then [s.newEntry stamp kind payload] else [] := by
  have hany : (kinds.any (isType (s.newEntry stamp kind payload))) = decide (kind ∈ kinds) := by
    rw [Bool.eq_iff_iff]
    simp [isType_newEntry hplain]
  by_cases hkind : kind ∈ kinds
  · simp [recordsOf, hany, hkind]
  · simp [recordsOf, hany, hkind]

/-- A step that writes no record of some kinds leaves those as they are. -/
theorem step_recordsOf {w w' : SharedSession} {e : Step} (h : step w e = some w') {kinds : List String}
    (hkinds : ∀ kind ∈ e.kinds, kind ∉ kinds) :
    recordsOf kinds w'.file.records = recordsOf kinds w.file.records := by
  rcases step_file h with heq | ⟨s, stamp, kind, payload, hkind, hplain, heq⟩
  · rw [heq]
  · rw [heq, SharedFile.append, recordsOf_append, recordsOf_newEntry hplain, if_neg (hkinds kind hkind),
      List.append_nil]

/-! ### The lock -/

/-- The request is in its critical section. -/
def inside (c : SessionCall) : Prop := c.phase = .holding ∨ c.phase = .running

/-- A request writes a record of a run in its critical section only. -/
theorem inside_of_mayWrite {c : SessionCall} {op : Session.Op} (h : c.mayWrite op = true) : inside c := by
  unfold SessionCall.mayWrite at h
  split at h
  · rename_i hphase
    exact .inr hphase
  · rename_i hphase
    exact .inl hphase
  · simp at h

/-- Who holds the lock is in its critical section, and nobody else is. -/
structure Locked (w : SharedSession) : Prop where
  holder : ∀ i, w.lock = some i → ∃ c, w.calls[i]? = some c ∧ inside c
  only : ∀ i c, w.calls[i]? = some c → inside c → w.lock = some i

/-- The session, with no request on it. -/
def start (f : SharedFile) : SharedSession := { file := f }

theorem locked_start (f : SharedFile) : Locked (start f) where
  holder := by simp [start]
  only := by simp [start]

section Locks

variable {w w' : SharedSession} {i : Nat} {c c' : SessionCall}

/-- A request goes on, on the same side of the lock. -/
theorem Locked.set (h : Locked w) (hc : w.calls[i]? = some c) (hinside : inside c' ↔ inside c)
    (hcalls : w'.calls = w.calls.set i c') (hlock : w'.lock = w.lock) : Locked w' := by
  obtain ⟨hlt, -⟩ := List.getElem?_eq_some_iff.mp hc
  refine ⟨?_, ?_⟩
  · intro j hj
    obtain ⟨d, hd, hin⟩ := h.holder j (hlock ▸ hj)
    by_cases hij : i = j
    · subst hij
      obtain rfl : c = d := Option.some.inj (hc.symm.trans hd)
      exact ⟨c', by simp [hcalls, hlt], hinside.mpr hin⟩
    · exact ⟨d, by rw [hcalls, List.getElem?_set_ne hij, hd], hin⟩
  · intro j d hd hin
    rw [hlock]
    by_cases hij : i = j
    · subst hij
      obtain rfl : c' = d := by simpa [hcalls, hlt] using hd
      exact h.only i c hc (hinside.mp hin)
    · rw [hcalls, List.getElem?_set_ne hij] at hd
      exact h.only j d hd hin

/-- A request takes the lock. -/
theorem Locked.take (h : Locked w) (hc : w.calls[i]? = some c) (hfree : w.lock = none)
    (hinside : inside c') (hcalls : w'.calls = w.calls.set i c') (hlock : w'.lock = some i) :
    Locked w' := by
  obtain ⟨hlt, -⟩ := List.getElem?_eq_some_iff.mp hc
  refine ⟨?_, ?_⟩
  · intro j hj
    obtain rfl : i = j := Option.some.inj (hlock.symm.trans hj)
    exact ⟨c', by simp [hcalls, hlt], hinside⟩
  · intro j d hd hin
    by_cases hij : i = j
    · rw [hlock, hij]
    · rw [hcalls, List.getElem?_set_ne hij] at hd
      exact absurd (h.only j d hd hin) (by simp [hfree])

/-- The holder gives the lock back. -/
theorem Locked.give (h : Locked w) (hc : w.calls[i]? = some c) (hin : inside c)
    (hinside : ¬ inside c') (hcalls : w'.calls = w.calls.set i c') (hlock : w'.lock = none) :
    Locked w' := by
  obtain ⟨hlt, -⟩ := List.getElem?_eq_some_iff.mp hc
  have hheld := h.only i c hc hin
  refine ⟨by simp [hlock], ?_⟩
  intro j d hd hd'
  by_cases hij : i = j
  · subst hij
    obtain rfl : c' = d := by simpa [hcalls, hlt] using hd
    exact absurd hd' hinside
  · rw [hcalls, List.getElem?_set_ne hij] at hd
    exact absurd (Option.some.inj (hheld.symm.trans (h.only j d hd hd'))) hij

/-- Every step keeps the lock in order. -/
theorem locked_step (h : Locked w) {e : Step} (hstep : step w e = some w') : Locked w' := by
  cases e with
  | arrive request =>
    obtain ⟨handle, -, rfl⟩ := step_arrive hstep
    refine ⟨?_, ?_⟩
    · intro i hi
      obtain ⟨c, hc, hin⟩ := h.holder i hi
      exact ⟨c, step_other hstep (by simp [Step.call]) hc, hin⟩
    · intro i c hc hin
      change (w.calls ++ [_])[i]? = some c at hc
      rw [List.getElem?_append] at hc
      split at hc
      · exact h.only i c hc hin
      · rw [List.getElem?_singleton] at hc
        split at hc
        · obtain rfl := Option.some.inj hc
          simp [inside] at hin
        · simp at hc
  | runStart i stamp model thinkingLevel =>
    obtain ⟨c, runId, input, hc, -, hphase, rfl⟩ := step_runStart hstep
    exact h.set hc (by simp [inside, hphase]) rfl rfl
  | acquire i =>
    obtain ⟨c, hc, hfree, -, rfl⟩ := step_acquire hstep
    exact h.take hc hfree (.inl rfl) rfl rfl
  | configure i stamp =>
    obtain ⟨c, patch, hc, -, hphase, rfl⟩ := step_configure hstep
    exact h.give hc (.inl hphase) (by simp [inside]) rfl rfl
  | consume i stamp =>
    obtain ⟨c, runId, input, pending, hc, -, hphase, -, ⟨-, rfl⟩ | ⟨-, rfl⟩⟩ := step_consume hstep
    · exact h.set hc (by simp [inside, hphase]) rfl rfl
    · exact h.set hc (by simp [inside, hphase]) rfl rfl
  | write i stamp op =>
    obtain ⟨c, r, hc, -, -, rfl⟩ := step_write hstep
    refine h.set hc ?_ rfl rfl
    rfl
  | release i =>
    obtain ⟨c, hc, hphase, -, rfl⟩ := step_release hstep
    exact h.give hc hphase.symm (by simp [inside]) rfl rfl
  | raise i =>
    obtain ⟨c, runId, input, hc, -, ⟨hphase, rfl⟩ | ⟨hphase, rfl⟩⟩ := step_raise hstep
    · exact h.set hc (by simp [inside, hphase]) rfl rfl
    · exact h.give hc hphase (by simp [inside]) rfl rfl
  | runEnd i stamp status durationMs error =>
    obtain ⟨c, runId, input, hc, -, hphase, rfl⟩ := step_runEnd hstep
    exact h.set hc (by simp [inside, hphase]) rfl rfl
  | append i stamp =>
    obtain ⟨c, hc, hphase, ⟨title, -, rfl⟩ | ⟨input, -, rfl⟩⟩ := step_append hstep
    · exact h.set hc (by simp [inside, hphase]) rfl rfl
    · exact h.set hc (by simp [inside, hphase]) rfl rfl

end Locks

/-! ### Runs that are computed -/

/-- A step in which the file is not parsed to open it. -/
def stepByRecords (w : SharedSession) : Step → Option SharedSession
  | .arrive request =>
    if ∀ r ∈ w.file.session.header :: w.file.records, (Json.obj r).hasSeparator = false then
      some { w with calls := w.calls ++ [⟨request, w.file.snapshot, .opened, []⟩] }
    else none
  | e => step w e

/-- A file that opens gives its records. -/
theorem step_eq_byRecords : step = stepByRecords := by
  funext w e
  cases e with
  | arrive request =>
    rw [step, stepByRecords]
    split
    · rename_i handle hopen
      obtain ⟨hclean, rfl⟩ := SharedFile.reopen_eq_ok_iff.mp hopen
      rw [if_pos hclean]
    · rename_i error hopen
      rw [if_neg]
      intro hclean
      rw [SharedFile.reopen_eq_ok_iff.mpr ⟨hclean, rfl⟩] at hopen
      exact absurd hopen (by simp)
  | _ => rfl

/-- A run that is computed by its records. -/
theorem exists_run_byRecords {P : SharedSession → Prop} [DecidablePred P] {w : SharedSession}
    {steps : List Step}
    (h : ((Transition.run stepByRecords w steps).any fun w' => decide (P w')) = true) :
    ∃ w', Transition.run step w steps = some w' ∧ P w' := by
  rw [step_eq_byRecords]
  exact Transition.exists_run h

/-- A session that has just been created. -/
def createdFile : SharedFile := ⟨sampleSession, [], by simp⟩

theorem length_digits (digit : Char) : (List.replicate 32 digit).length = 32 :=
  List.length_replicate

/-- Draws that are all one digit. -/
def digitStamp (digit : Char) : Stamp where
  uuids := fun _ => ⟨List.replicate 32 digit, length_digits digit⟩
  now := "2025-01-01T00:00:02+00:00"

end SharedSession

end AeloonRuntime
