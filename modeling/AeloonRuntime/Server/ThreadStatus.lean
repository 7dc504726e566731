import AeloonRuntime.Server.DurableBlocks

namespace AeloonRuntime

open Py Transition

/-!
# Thread status — the status of a thread and those of its turns

`store.py`: `create_turn` and `project_event` write the status of one turn, and then that of its thread.
The second is taken from the turn that the call is about; the other turns of the thread are not asked.

* `ProjectionStore` — the rows of `threads` and `turns`, with the constraints of the schema;
* `createTurn`, `ensureTurn`, `projectEvent` — the calls that write a status;
* `Aggregates` — a thread that shows an end has no turn that is still to end;
* `AloneAtEnd` — the thread has no other turn that is still to end when a call writes an end;
* `status_aggregates_iff` — the statuses of the threads aggregate those of their turns at every point of
  exactly the runs whose calls are alone at an end;
* `cancelled_follow_up_hides_active_turn` — a thread that is idle while its first turn runs.
-/

/-! ### The rows -/

/-- The status of a turn or of a thread. -/
inductive TurnStatus where
  | idle
  | queued
  | active
  | cancelling
  | completed
  | failed
  | cancelled
  | other (text : String)
  deriving DecidableEq

namespace TurnStatus

/-- A turn that is still to end. -/
def isOpen (status : TurnStatus) : Bool :=
  status = .queued || status = .active || status = .cancelling

/-- A thread that shows an end. -/
def isSettled (status : TurnStatus) : Bool :=
  status = .idle || status = .completed || status = .failed

/-- The status of a thread behind an event of a turn with this one. -/
def ofThread (status : TurnStatus) : TurnStatus := if status = .cancelled then .idle else status

/-- A turn with this status makes its thread show an end. -/
def hasEnded (status : TurnStatus) : Bool := status.isSettled || status = .cancelled

theorem isSettled_ofThread (status : TurnStatus) : status.ofThread.isSettled = status.hasEnded := by
  cases status <;> rfl

/-- A turn that has ended is not still to end. -/
theorem not_isOpen_of_hasEnded {status : TurnStatus} (h : status.hasEnded = true) : status.isOpen = false := by
  cases status <;> first | rfl | cases h

end TurnStatus

/-- A row of `threads`. -/
structure ProjectedThread where
  id : String
  status : TurnStatus := .idle
  isUnread : Bool := false
  deriving DecidableEq

/-- A row of `turns`. -/
structure ProjectedTurn where
  coreTurnId : String
  threadId : String
  status : TurnStatus
  error : Option String := none
  stored : StoredTurn := {}
  deriving DecidableEq

/-- The tables of the projection. -/
structure ProjectionStore where
  threads : List ProjectedThread
  turns : List ProjectedTurn
  /-- `id TEXT PRIMARY KEY`. -/
  threadIds : (threads.map (·.id)).Nodup
  /-- `core_turn_id TEXT NOT NULL UNIQUE`. -/
  turnIds : (turns.map (·.coreTurnId)).Nodup
  /-- `thread_id TEXT NOT NULL REFERENCES threads(id)`. -/
  references : ∀ turn ∈ turns, turn.threadId ∈ threads.map (·.id)

/-- What the database raises, behind a rollback. -/
inductive IntegrityError where
  /-- `UNIQUE constraint failed: turns.core_turn_id`. -/
  | duplicateTurn
  /-- `FOREIGN KEY constraint failed`. -/
  | missingThread
  deriving DecidableEq

/-! ### Events -/

/-- The name and the payload of an event. -/
inductive ProjectionPayload where
  /-- `operation.started`. -/
  | started
  /-- `operation.cancelling`. -/
  | cancelling
  /-- `operation.completed`. -/
  | completed
  /-- `operation.failed`, with the text of `payload["error"]`. -/
  | failed (error : String)
  /-- `operation.cancelled`. -/
  | cancelled
  /-- Any other event. -/
  | content (e : BlockEvent)
  deriving DecidableEq

/-- An event as `project_event` reads it; without an operation its id is empty. -/
structure ProjectionEvent where
  operationId : String
  payload : ProjectionPayload
  deriving DecidableEq

namespace ProjectionPayload

/-- The status of the turn behind the event. -/
def status (current : TurnStatus) : ProjectionPayload → TurnStatus
  | .started => .active
  | .cancelling => .cancelling
  | .completed => .completed
  | .failed _ => .failed
  | .cancelled => .cancelled
  | .content _ => current

/-- The error of the turn behind the event. -/
def error (current : Option String) : ProjectionPayload → Option String
  | .failed error => some (if error = "" then "Operation failed" else error)
  | .content _ => current
  | _ => none

/-- The blocks and the usage of the turn behind the event. -/
def stored (current : StoredTurn) : ProjectionPayload → StoredTurn
  | .content e => current.projectEvent e
  | _ => current

/-- The event ends a turn with this status, or comes behind its end. -/
def ends (current : TurnStatus) : ProjectionPayload → Bool
  | .started => false
  | .cancelling => false
  | .completed => true
  | .failed _ => true
  | .cancelled => true
  | .content _ => current.hasEnded

/-- The event leaves a turn with this status still to end. -/
def opens (current : TurnStatus) : ProjectionPayload → Bool
  | .started => true
  | .cancelling => true
  | .content _ => current.isOpen
  | _ => false

theorem hasEnded_status (payload : ProjectionPayload) (current : TurnStatus) :
    (payload.status current).hasEnded = payload.ends current := by
  cases payload <;> rfl

theorem isOpen_status (payload : ProjectionPayload) (current : TurnStatus) :
    (payload.status current).isOpen = payload.opens current := by
  cases payload <;> rfl

end ProjectionPayload

/-- The turn behind an event of it. -/
def ProjectedTurn.project (turn : ProjectedTurn) (payload : ProjectionPayload) : ProjectedTurn :=
  { turn with
    status := payload.status turn.status
    error := payload.error turn.error
    stored := payload.stored turn.stored }

/-! ### The calls -/

namespace ProjectionStore

/-- `UPDATE threads SET status = ?, is_unread = ... WHERE id = ?`. -/
def setThread (s : ProjectionStore) (threadId : String) (status : TurnStatus) (unread : Bool) : ProjectionStore where
  threads := s.threads.map fun thread =>
    if thread.id = threadId then { thread with status := status, isUnread := unread || thread.isUnread } else thread
  turns := s.turns
  threadIds := by
    have hids := s.threadIds
    rw [List.map_map]
    convert hids using 2
    funext thread
    rw [Function.comp_apply]
    split <;> rfl
  turnIds := s.turnIds
  references := by
    intro turn hturn
    obtain ⟨thread, hthread, hid⟩ := List.mem_map.mp (s.references turn hturn)
    rw [List.map_map]
    refine List.mem_map.mpr ⟨thread, hthread, ?_⟩
    rw [Function.comp_apply, ← hid]
    split <;> rfl

/-- `UPDATE turns SET status = ?, ... WHERE core_turn_id = ?`. -/
def projectTurn (s : ProjectionStore) (coreTurnId : String) (payload : ProjectionPayload) : ProjectionStore where
  threads := s.threads
  turns := s.turns.map fun turn => if turn.coreTurnId = coreTurnId then turn.project payload else turn
  threadIds := s.threadIds
  turnIds := by
    have hids := s.turnIds
    rw [List.map_map]
    convert hids using 2
    funext turn
    rw [Function.comp_apply]
    split <;> rfl
  references := by
    intro turn hturn
    obtain ⟨old, hold, rfl⟩ := List.mem_map.mp hturn
    have hthread := s.references old hold
    split
    · exact hthread
    · exact hthread

/-- `SELECT * FROM turns WHERE core_turn_id = ?`. -/
def getTurn (s : ProjectionStore) (coreTurnId : String) : Option ProjectedTurn :=
  s.turns.find? (·.coreTurnId = coreTurnId)

/-- `INSERT INTO turns`, when no constraint fails. -/
def insertTurn (s : ProjectionStore) (turn : ProjectedTurn) (hnew : turn.coreTurnId ∉ s.turns.map (·.coreTurnId))
    (hthread : turn.threadId ∈ s.threads.map (·.id)) : ProjectionStore where
  threads := s.threads
  turns := s.turns ++ [turn]
  threadIds := s.threadIds
  turnIds := by
    rw [List.map_append]
    exact List.Nodup.append s.turnIds (by simp) (by simpa using hnew)
  references := by
    intro other h
    rcases List.mem_append.mp h with h | h
    · exact s.references other h
    · obtain rfl := List.mem_singleton.mp h
      exact hthread

/-- `create_turn`. -/
def createTurn (s : ProjectionStore) (threadId coreTurnId : String) (status : TurnStatus := .queued) :
    Except IntegrityError ProjectionStore :=
  let turn : ProjectedTurn := { coreTurnId := coreTurnId, threadId := threadId, status := status }
  if hnew : coreTurnId ∉ s.turns.map (·.coreTurnId) then
    if hthread : threadId ∈ s.threads.map (·.id) then
      .ok ((s.insertTurn turn hnew hthread).setThread threadId status false)
    else .error .missingThread
  else .error .duplicateTurn

/-- `ensure_turn`. -/
def ensureTurn (s : ProjectionStore) (threadId coreTurnId : String) (status : TurnStatus := .queued) :
    Except IntegrityError ProjectionStore :=
  match s.getTurn coreTurnId with
  | some _ => .ok s
  | none => s.createTurn threadId coreTurnId status

/-- `project_event`. -/
def projectEvent (s : ProjectionStore) (threadId : String) (event : ProjectionEvent) :
    Except IntegrityError ProjectionStore :=
  -- the row of `events` refers to the thread
  if threadId ∉ s.threads.map (·.id) then .error .missingThread
  else if event.operationId = "" then .ok s
  else
    match s.getTurn event.operationId with
    | none => .ok s
    | some current =>
      .ok ((s.projectTurn event.operationId event.payload).setThread threadId
        (event.payload.status current.status).ofThread (event.payload = .completed))

end ProjectionStore

/-- A call of the store. -/
inductive StoreCall where
  | createTurn (threadId coreTurnId : String) (status : TurnStatus)
  | ensureTurn (threadId coreTurnId : String) (status : TurnStatus)
  | projectEvent (threadId : String) (event : ProjectionEvent)

namespace ProjectionStore

/-- What a call returns or raises. -/
def call (s : ProjectionStore) : StoreCall → Except IntegrityError ProjectionStore
  | .createTurn threadId coreTurnId status => s.createTurn threadId coreTurnId status
  | .ensureTurn threadId coreTurnId status => s.ensureTurn threadId coreTurnId status
  | .projectEvent threadId event => s.projectEvent threadId event

/-- A call that raises is rolled back. -/
def step (s : ProjectionStore) (e : StoreCall) : Option ProjectionStore :=
  match s.call e with
  | .ok s' => some s'
  | .error _ => some s

/-! ### Statuses that aggregate -/

/-- No turn of the thread is still to end. -/
def Ended (s : ProjectionStore) (threadId : String) : Prop :=
  ∀ turn ∈ s.turns, turn.threadId = threadId → turn.status.isOpen = false

/-- A thread that shows an end has no turn that is still to end. -/
def Aggregates (s : ProjectionStore) : Prop :=
  ∀ thread ∈ s.threads, thread.status.isSettled = true → s.Ended thread.id

/-- No other turn of the thread is still to end. -/
def Alone (s : ProjectionStore) (threadId coreTurnId : String) : Prop :=
  ∀ turn ∈ s.turns, turn.threadId = threadId → turn.coreTurnId ≠ coreTurnId → turn.status.isOpen = false

/-- The database takes a new turn. -/
def Insertable (s : ProjectionStore) (threadId coreTurnId : String) : Prop :=
  coreTurnId ∉ s.turns.map (·.coreTurnId) ∧ threadId ∈ s.threads.map (·.id)

/-- The thread has no other turn that is still to end when a turn of it is created with an end, is ended, or
    has an event behind its end; and an event that comes under the id of another thread leaves no turn to end
    in a thread that shows an end. -/
def AloneAtEnd (s : ProjectionStore) : StoreCall → Prop
  | .createTurn threadId coreTurnId status =>
    s.Insertable threadId coreTurnId → status.isSettled = true → s.Alone threadId coreTurnId
  | .ensureTurn threadId coreTurnId status =>
    s.Insertable threadId coreTurnId → status.isSettled = true → s.Alone threadId coreTurnId
  | .projectEvent threadId event =>
    threadId ∈ s.threads.map (·.id) → event.operationId ≠ "" →
      ∀ turn ∈ s.turns, turn.coreTurnId = event.operationId →
        (event.payload.ends turn.status = true → s.Alone threadId event.operationId)
          ∧ (turn.threadId ≠ threadId → event.payload.opens turn.status = true →
              ∀ thread ∈ s.threads, thread.id = turn.threadId → thread.status.isSettled = false)

instance (s : ProjectionStore) (threadId : String) : Decidable (s.Ended threadId) :=
  inferInstanceAs (Decidable (∀ turn ∈ s.turns, turn.threadId = threadId → turn.status.isOpen = false))

instance (s : ProjectionStore) : Decidable s.Aggregates :=
  inferInstanceAs (Decidable (∀ thread ∈ s.threads, thread.status.isSettled = true → s.Ended thread.id))

instance (s : ProjectionStore) (threadId coreTurnId : String) : Decidable (s.Alone threadId coreTurnId) :=
  inferInstanceAs (Decidable (∀ turn ∈ s.turns,
    turn.threadId = threadId → turn.coreTurnId ≠ coreTurnId → turn.status.isOpen = false))

instance (s : ProjectionStore) (threadId coreTurnId : String) : Decidable (s.Insertable threadId coreTurnId) :=
  inferInstanceAs (Decidable (_ ∧ _))

instance (s : ProjectionStore) (e : StoreCall) : Decidable (s.AloneAtEnd e) := by
  cases e with
  | projectEvent threadId event =>
    unfold AloneAtEnd
    exact @forall_prop_decidable _ _ inferInstance fun _ => @forall_prop_decidable _ _ inferInstance fun _ =>
      inferInstance
  | _ => unfold AloneAtEnd; infer_instance

/-! ### What a call does to the property -/

section Calls

variable {s : ProjectionStore} {threadId coreTurnId : String} {status : TurnStatus}

/-- A thread that is given a status: the other threads are as before. -/
theorem aggregates_setThread_iff {unread : Bool} (hthread : threadId ∈ s.threads.map (·.id)) :
    (s.setThread threadId status unread).Aggregates ↔
      (∀ thread ∈ s.threads, thread.id ≠ threadId → thread.status.isSettled = true → s.Ended thread.id)
        ∧ (status.isSettled = true → s.Ended threadId) := by
  constructor
  · intro h
    constructor
    · intro thread hmem hne hsettled
      refine h thread (List.mem_map.mpr ⟨thread, hmem, ?_⟩) hsettled
      rw [if_neg hne]
    · intro hsettled
      obtain ⟨thread, hmem, rfl⟩ := List.mem_map.mp hthread
      refine h { thread with status := status, isUnread := unread || thread.isUnread }
        (List.mem_map.mpr ⟨thread, hmem, ?_⟩) hsettled
      rw [if_pos rfl]
  · rintro ⟨hothers, hown⟩ thread hmem hsettled
    obtain ⟨old, hold, rfl⟩ := List.mem_map.mp hmem
    by_cases hid : old.id = threadId
    · rw [if_pos hid] at hsettled ⊢
      show s.Ended old.id
      rw [hid]
      exact hown hsettled
    · rw [if_neg hid] at hsettled ⊢
      exact hothers old hold hid hsettled

/-- A turn that is inserted. -/
theorem ended_insertTurn_iff {turn : ProjectedTurn} (hnew : turn.coreTurnId ∉ s.turns.map (·.coreTurnId))
    (hthread : turn.threadId ∈ s.threads.map (·.id)) (id : String) :
    (s.insertTurn turn hnew hthread).Ended id ↔
      s.Ended id ∧ (turn.threadId = id → turn.status.isOpen = false) := by
  simp only [Ended, insertTurn, List.forall_mem_append, List.forall_mem_singleton]

/-- **Creating a turn.** It keeps the property if and only if a turn that is created with an end has no turn
    of its thread beside it that is still to end. -/
theorem createTurn_aggregates_iff (hs : s.Aggregates) (hnew : coreTurnId ∉ s.turns.map (·.coreTurnId))
    (hthread : threadId ∈ s.threads.map (·.id)) :
    ((s.insertTurn ⟨coreTurnId, threadId, status, none, {}⟩ hnew hthread).setThread threadId status
        false).Aggregates
      ↔ (status.isSettled = true → s.Alone threadId coreTurnId) := by
  rw [aggregates_setThread_iff (s := s.insertTurn _ hnew hthread) hthread]
  simp only [ended_insertTurn_iff]
  constructor
  · rintro ⟨-, hown⟩ hsettled turn hturn hof _
    exact (hown hsettled).1 turn hturn hof
  · intro halone
    constructor
    · intro thread hmem hne hsettled
      exact ⟨hs thread hmem hsettled, fun hof => absurd hof.symm hne⟩
    · intro hsettled
      refine ⟨?_, fun _ => TurnStatus.not_isOpen_of_hasEnded (by simp [TurnStatus.hasEnded, hsettled])⟩
      intro turn hturn hof
      refine halone hsettled turn hturn hof ?_
      rintro rfl
      exact hnew (List.mem_map_of_mem hturn)

/-- A turn that is projected. -/
theorem ended_projectTurn_iff {payload : ProjectionPayload} {id : String} :
    (s.projectTurn coreTurnId payload).Ended id ↔
      ∀ turn ∈ s.turns, turn.threadId = id →
        (if turn.coreTurnId = coreTurnId then payload.opens turn.status else turn.status.isOpen) = false := by
  simp only [Ended, projectTurn, List.forall_mem_map]
  refine forall₂_congr fun turn _ => ?_
  by_cases hid : turn.coreTurnId = coreTurnId
  · simp only [hid, if_true, ProjectedTurn.project, ProjectionPayload.isOpen_status]
  · simp only [hid, if_false]

/-- The turn of an id is the only one. -/
theorem turn_eq_of_coreTurnId {turn other : ProjectedTurn} (hturn : turn ∈ s.turns) (hother : other ∈ s.turns)
    (h : other.coreTurnId = turn.coreTurnId) : other = turn :=
  List.inj_on_of_nodup_map s.turnIds hother hturn h

/-- **Projecting an event.** It keeps the property if and only if a turn that it ends, or that has ended, is
    alone, and a turn that it leaves to end is not of another thread that shows an end. -/
theorem projectTurn_aggregates_iff (hs : s.Aggregates) (hthread : threadId ∈ s.threads.map (·.id))
    {turn : ProjectedTurn} (hturn : turn ∈ s.turns) (payload : ProjectionPayload) (unread : Bool) :
    ((s.projectTurn turn.coreTurnId payload).setThread threadId (payload.status turn.status).ofThread
        unread).Aggregates
      ↔ (payload.ends turn.status = true → s.Alone threadId turn.coreTurnId)
        ∧ (turn.threadId ≠ threadId → payload.opens turn.status = true →
            ∀ thread ∈ s.threads, thread.id = turn.threadId → thread.status.isSettled = false) := by
  rw [aggregates_setThread_iff (s := s.projectTurn _ payload) hthread]
  simp only [ended_projectTurn_iff, TurnStatus.isSettled_ofThread, ProjectionPayload.hasEnded_status]
  constructor
  · rintro ⟨hothers, hown⟩
    constructor
    · intro hends other hother hof hne
      have hlast := hown hends other hother hof
      rwa [if_neg hne] at hlast
    · intro hne hopens thread hmem hid
      by_contra hsettled
      rw [Bool.not_eq_false] at hsettled
      have hlast := hothers thread hmem (hid ▸ hne) hsettled turn hturn hid.symm
      rw [if_pos rfl, hopens] at hlast
      cases hlast
  · rintro ⟨halone, helsewhere⟩
    constructor
    · intro thread hmem hne hsettled other hother hof
      by_cases hid : other.coreTurnId = turn.coreTurnId
      · obtain rfl := turn_eq_of_coreTurnId hturn hother hid
        rw [if_pos rfl]
        by_contra hopens
        rw [Bool.not_eq_false] at hopens
        have hnot := helsewhere (hof ▸ hne) hopens thread hmem hof.symm
        rw [hsettled] at hnot
        cases hnot
      · rw [if_neg hid]
        exact hs thread hmem hsettled other hother hof
    · intro hends other hother hof
      by_cases hid : other.coreTurnId = turn.coreTurnId
      · obtain rfl := turn_eq_of_coreTurnId hturn hother hid
        rw [if_pos rfl, ← ProjectionPayload.isOpen_status]
        refine TurnStatus.not_isOpen_of_hasEnded ?_
        rw [ProjectionPayload.hasEnded_status, hends]
      · rw [if_neg hid]
        exact halone hends other hother hof hid

end Calls

/-- The turn that is found by its id. -/
theorem getTurn_eq_some {s : ProjectionStore} {coreTurnId : String} {turn : ProjectedTurn}
    (h : s.getTurn coreTurnId = some turn) : turn ∈ s.turns ∧ turn.coreTurnId = coreTurnId :=
  ⟨List.mem_of_find?_eq_some h, by simpa using List.find?_some h⟩

/-- An id that is not found. -/
theorem getTurn_eq_none_iff {s : ProjectionStore} {coreTurnId : String} :
    s.getTurn coreTurnId = none ↔ coreTurnId ∉ s.turns.map (·.coreTurnId) := by
  simp [getTurn, List.find?_eq_none, List.mem_map]

/-- `create_turn` keeps the property exactly when it is alone at an end. -/
theorem step_createTurn_iff {s : ProjectionStore} (hs : s.Aggregates) (threadId coreTurnId : String)
    (status : TurnStatus) :
    (∀ s', s.step (.createTurn threadId coreTurnId status) = some s' → s'.Aggregates)
      ↔ s.AloneAtEnd (.createTurn threadId coreTurnId status) := by
  by_cases hnew : coreTurnId ∉ s.turns.map (·.coreTurnId)
  · by_cases hthread : threadId ∈ s.threads.map (·.id)
    · have hcall : s.step (.createTurn threadId coreTurnId status)
          = some ((s.insertTurn ⟨coreTurnId, threadId, status, none, {}⟩ hnew hthread).setThread threadId status
              false) := by
        simp only [step, call, createTurn, dif_pos hnew, dif_pos hthread]
      simp only [hcall, Option.some.injEq, forall_eq', createTurn_aggregates_iff hs, AloneAtEnd, Insertable]
      exact ⟨fun h _ => h, fun h => h ⟨hnew, hthread⟩⟩
    · have hcall : s.step (.createTurn threadId coreTurnId status) = some s := by
        simp only [step, call, createTurn, dif_pos hnew, dif_neg hthread]
      simp only [hcall, Option.some.injEq, forall_eq', AloneAtEnd, Insertable]
      exact ⟨fun _ hinsert => absurd hinsert.2 hthread, fun _ => hs⟩
  · have hcall : s.step (.createTurn threadId coreTurnId status) = some s := by
      simp only [step, call, createTurn, dif_neg hnew]
    simp only [hcall, Option.some.injEq, forall_eq', AloneAtEnd, Insertable]
    exact ⟨fun _ hinsert => absurd hinsert.1 hnew, fun _ => hs⟩

/-- `ensure_turn` likewise. -/
theorem step_ensureTurn_iff {s : ProjectionStore} (hs : s.Aggregates) (threadId coreTurnId : String)
    (status : TurnStatus) :
    (∀ s', s.step (.ensureTurn threadId coreTurnId status) = some s' → s'.Aggregates)
      ↔ s.AloneAtEnd (.ensureTurn threadId coreTurnId status) := by
  cases hget : s.getTurn coreTurnId with
  | none =>
    have hcall : s.step (.ensureTurn threadId coreTurnId status)
        = s.step (.createTurn threadId coreTurnId status) := by
      simp only [step, call, ensureTurn, hget]
    rw [hcall]
    exact step_createTurn_iff hs threadId coreTurnId status
  | some turn =>
    have hcall : s.step (.ensureTurn threadId coreTurnId status) = some s := by
      simp only [step, call, ensureTurn, hget]
    obtain ⟨hturn, rfl⟩ := getTurn_eq_some hget
    simp only [hcall, Option.some.injEq, forall_eq', AloneAtEnd, Insertable]
    exact ⟨fun _ hinsert => absurd (List.mem_map_of_mem hturn) hinsert.1, fun _ => hs⟩

/-- `project_event` likewise. -/
theorem step_projectEvent_iff {s : ProjectionStore} (hs : s.Aggregates) (threadId : String)
    (event : ProjectionEvent) :
    (∀ s', s.step (.projectEvent threadId event) = some s' → s'.Aggregates)
      ↔ s.AloneAtEnd (.projectEvent threadId event) := by
  by_cases hthread : threadId ∈ s.threads.map (·.id)
  · by_cases hid : event.operationId = ""
    · have hcall : s.step (.projectEvent threadId event) = some s := by
        simp only [step, call, projectEvent, if_neg (not_not_intro hthread), if_pos hid]
      simp only [hcall, Option.some.injEq, forall_eq', AloneAtEnd]
      exact ⟨fun _ _ hne => absurd hid hne, fun _ => hs⟩
    · cases hget : s.getTurn event.operationId with
      | none =>
        have hcall : s.step (.projectEvent threadId event) = some s := by
          simp only [step, call, projectEvent, if_neg (not_not_intro hthread), if_neg hid, hget]
        have hnone := getTurn_eq_none_iff.mp hget
        simp only [hcall, Option.some.injEq, forall_eq', AloneAtEnd]
        refine ⟨fun _ _ _ turn hturn heq => absurd ?_ hnone, fun _ => hs⟩
        exact heq ▸ List.mem_map_of_mem hturn
      | some turn =>
        have hcall : s.step (.projectEvent threadId event)
            = some ((s.projectTurn event.operationId event.payload).setThread threadId
                (event.payload.status turn.status).ofThread (event.payload = .completed)) := by
          simp only [step, call, projectEvent, if_neg (not_not_intro hthread), if_neg hid, hget]
        obtain ⟨hturn, hof⟩ := getTurn_eq_some hget
        simp only [hcall, Option.some.injEq, forall_eq', AloneAtEnd]
        rw [← hof, projectTurn_aggregates_iff hs hthread hturn]
        constructor
        · intro h _ _ other hother heq
          obtain rfl := turn_eq_of_coreTurnId hturn hother heq
          exact h
        · intro h
          exact h hthread (hof ▸ hid) turn hturn rfl
  · have hcall : s.step (.projectEvent threadId event) = some s := by
      simp only [step, call, projectEvent, if_pos hthread]
    simp only [hcall, Option.some.injEq, forall_eq', AloneAtEnd]
    exact ⟨fun _ hmem => absurd hmem hthread, fun _ => hs⟩

/-- What a call does to the property, by the call. -/
theorem step_aggregates_iff (s : ProjectionStore) (e : StoreCall) (hs : s.Aggregates) :
    (∀ s', s.step e = some s' → s'.Aggregates) ↔ s.AloneAtEnd e := by
  cases e with
  | createTurn threadId coreTurnId status => exact step_createTurn_iff hs threadId coreTurnId status
  | ensureTurn threadId coreTurnId status => exact step_ensureTurn_iff hs threadId coreTurnId status
  | projectEvent threadId event => exact step_projectEvent_iff hs threadId event

/-! ### Runs -/

/-- **Aggregation.** From a store whose threads aggregate the statuses of their turns, they do so at every
    point of a run if and only if every call of the run is alone at an end. -/
theorem status_aggregates_iff (s : ProjectionStore) (hs : s.Aggregates) (calls : List StoreCall) :
    (∀ calls' s', calls' <+: calls → Transition.run step s calls' = some s' → s'.Aggregates)
      ↔ EveryStep step AloneAtEnd s calls :=
  everyStep_iff_invariant step_aggregates_iff hs

/-- A thread without turns. -/
def oneThread : ProjectionStore where
  threads := [{ id := "t" }]
  turns := []
  threadIds := by decide
  turnIds := by decide
  references := by simp

/-- One turn after the other: each is created behind the end of the one before. -/
def turnsInOrder : List StoreCall :=
  [.ensureTurn "t" "1" .queued, .projectEvent "t" ⟨"1", .started⟩, .projectEvent "t" ⟨"1", .completed⟩,
    .projectEvent "t" ⟨"1", .content (.usageUpdated [] [])⟩, .ensureTurn "t" "2" .queued,
    .projectEvent "t" ⟨"2", .started⟩, .projectEvent "t" ⟨"2", .failed ""⟩]

/-- Turns in order keep the status of their thread. -/
theorem turnsInOrder_aggregates :
    oneThread.Aggregates ∧ EveryStep step AloneAtEnd oneThread turnsInOrder
      ∧ ∀ calls s', calls <+: turnsInOrder → Transition.run step oneThread calls = some s' → s'.Aggregates := by
  have halone : EveryStep step AloneAtEnd oneThread turnsInOrder := by decide +kernel
  exact ⟨by decide, halone, (status_aggregates_iff oneThread (by decide) turnsInOrder).mpr halone⟩

/-- A follow-up is queued while a turn runs, and cancelled: the thread is idle, and its turn runs on. -/
theorem cancelled_follow_up_hides_active_turn :
    ∃ s, Transition.run step oneThread
        [.ensureTurn "t" "1" .queued, .projectEvent "t" ⟨"1", .started⟩, .createTurn "t" "2" .queued,
          .projectEvent "t" ⟨"2", .cancelled⟩] = some s
      ∧ s.threads.map (·.status) = [.idle] ∧ s.turns.map (·.status) = [.active, .cancelled] ∧ ¬ s.Aggregates :=
  Transition.exists_run (by decide +kernel)

end ProjectionStore

end AeloonRuntime
