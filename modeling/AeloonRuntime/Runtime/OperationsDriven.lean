import AeloonRuntime.Runtime.Operations

namespace AeloonRuntime

open Transition

/-!
# Driven operations — no operation is in flight that nobody will finish

An operation is left in flight by its driver when `turn_start` is cancelled between the registration and the task, when
the task is cancelled before it begins, and when `_session_operation` is cancelled, or its agent cannot be made, outside
its `try`.

* `Driver.drives` — the awaits from which an operation still gets its end;
* `RuntimeOperation.leavesBehind` — the ends of awaits that leave an operation in flight;
* `RuntimeOperation.Progress` — everything that the end of an await can do to an operation and its driver;
* `RuntimeOperation.Driven` — an operation is in flight exactly as long as its driver will end it;
* `RuntimeService.operations_driven_iff` — every operation is driven at every point of exactly the runs without such
  ends, and then `active_count` is zero when every driver has ended.
-/

/-- The task is still going to end the operation. -/
def TurnAwait.drives : TurnAwait → Bool
  | .created | .lock | .semaphore | .emitStarted | .emitQueue | .loadAttachments | .newAgent | .prepareAgent
  | .pendingInputs | .invokeInput => true
  | _ => false

/-- The call is still going to end the operation. -/
def SessionAwait.drives : SessionAwait → Bool
  | .emitEnding | .closeAgent => false
  | _ => true

/-- The call, or the task, is still going to end the operation. -/
def Driver.drives : Driver → Bool
  | .starting _ => true
  | .task turn => turn.await.drives
  | .operating await => await.drives
  | .ended => false

namespace RuntimeOperation

variable {op next : RuntimeOperation}

/-- Behind such an end of an await the operation is in flight, and nobody will end it. -/
def leavesBehind (op : RuntimeOperation) (result : AwaitResult) : Bool :=
  match op.driver, result with
  | .starting _, .cancelled _ => true
  | .task task, .cancelled _ => task.mustCancel && task.await = .created
  | .operating .newAgent, .raised _ => true
  | .operating await, .cancelled _ => await.drives
  | _, _ => false

/-- No driver leaves its operation behind an await that returns. -/
theorem leavesBehind_value (op : RuntimeOperation) : op.leavesBehind .value = false := by
  cases hdriver : op.driver with
  | operating await => cases await <;> simp [leavesBehind, hdriver]
  | _ => simp [leavesBehind, hdriver]

/-! ### What an await leads to -/

@[simp] theorem drives_awaiting (op : RuntimeOperation) (task : TurnTask) (await : TurnAwait) :
    (op.awaiting task await).driver.drives = await.drives := rfl

@[simp] theorem status_awaiting (op : RuntimeOperation) (task : TurnTask) (await : TurnAwait) :
    (op.awaiting task await).status = op.status := rfl

@[simp] theorem status_finish (op : RuntimeOperation) (ending : Ending) :
    (op.finish ending).status = .ended ending := rfl

@[simp] theorem status_emit (op : RuntimeOperation) (event : OperationEvent) : (op.emit event).status = op.status := rfl

@[simp] theorem status_writtenRunEnd (op : RuntimeOperation) (written : Bool) (ending : Ending) :
    (op.writtenRunEnd written ending).status = op.status := by
  cases written <;> rfl

@[simp] theorem status_leaveTry (op : RuntimeOperation) (task : TurnTask) : (op.leaveTry task).status = op.status := rfl

@[simp] theorem drives_leaveTry (op : RuntimeOperation) (task : TurnTask) :
    (op.leaveTry task).driver.drives = false := by
  rw [leaveTry]
  cases op.agent <;> rfl

theorem status_catchCancelled (op : RuntimeOperation) (task : TurnTask) :
    (op.catchCancelled task).status = .ended .cancelled := by
  rw [catchCancelled]
  split <;> rfl

theorem drives_catchCancelled (op : RuntimeOperation) (task : TurnTask) :
    (op.catchCancelled task).driver.drives = false := by
  rw [catchCancelled]
  split
  · exact drives_leaveTry _ _
  · rfl

theorem status_catchException (op : RuntimeOperation) (task : TurnTask) :
    (op.catchException task).status = .ended .failed := by
  rw [catchException]
  split <;> rfl

theorem drives_catchException (op : RuntimeOperation) (task : TurnTask) :
    (op.catchException task).driver.drives = false := by
  rw [catchException]
  split
  · exact drives_leaveTry _ _
  · rfl

/-- What the end of an await makes of an operation and of its driver. -/
inductive Progress (op : RuntimeOperation) (result : AwaitResult) (next : RuntimeOperation) : Prop where
  /-- The driver goes on towards the end. -/
  | goesOn (kept : op.leavesBehind result = false) (before : op.driver.drives = true)
      (after : next.driver.drives = true)
      (status : next.status = op.status
        ∨ next.status = .active ∧ (op.cancelRequested = false ∨ ∃ await, op.driver = .operating await))
  /-- The operation gets an end. -/
  | ends (kept : op.leavesBehind result = false) (after : next.driver.drives = false) (ending : Ending)
      (status : next.status = .ended ending)
  /-- The driver goes on behind the end. -/
  | closes (kept : op.leavesBehind result = false) (before : op.driver.drives = false)
      (after : next.driver.drives = false) (status : next.status = op.status)
  /-- The driver leaves the operation as it is. -/
  | abandons (left : op.leavesBehind result = true) (before : op.driver.drives = true)
      (after : next.driver.drives = false) (status : next.status = op.status)

/-- An await of `turn_start`. -/
theorem resumeStart_progress {await : StartAwait} {result : AwaitResult} (hdriver : op.driver = .starting await)
    (h : op.resumeStart await result = some next) : op.Progress result next := by
  have hbefore : op.driver.drives = true := by rw [hdriver]; rfl
  cases result with
  | value =>
    have hkept : op.leavesBehind .value = false := leavesBehind_value op
    cases await <;> obtain rfl := Option.some.inj h <;> exact .goesOn hkept hbefore rfl (.inl rfl)
  | result invoked => cases await <;> simp [resumeStart] at h
  | raised written => cases await <;> simp [resumeStart] at h
  | cancelled written =>
    have hleft : op.leavesBehind (.cancelled written) = true := by simp [leavesBehind, hdriver]
    have hleave : op.leave = next := by cases await <;> exact Option.some.inj h
    subst hleave
    exact .abandons hleft hbefore rfl rfl

section Task

variable {task : TurnTask} {canLock canEnter : Bool}

/-- An await of `_execute_turn` that returns. -/
theorem resumeTurnValue_progress (hdriver : op.driver = .task task)
    (h : op.resumeTurnValue task canLock canEnter = some next) : op.Progress .value next := by
  have hkept : op.leavesBehind .value = false := leavesBehind_value op
  have hdrives : op.driver.drives = task.await.drives := by rw [hdriver]; rfl
  cases hawait : task.await with
  | created | lock =>
    rw [hawait] at hdrives
    simp only [resumeTurnValue, hawait, Option.ite_none_right_eq_some, Option.ite_none_left_eq_some] at h
    obtain rfl := Option.some.inj h.2
    exact .goesOn hkept hdrives rfl (.inl rfl)
  | semaphore =>
    rw [hawait] at hdrives
    simp only [resumeTurnValue, hawait, Option.ite_none_right_eq_some] at h
    have hnext := h.2
    split at hnext
    · obtain rfl := Option.some.inj hnext
      exact .ends hkept (drives_catchCancelled _ _) .cancelled (status_catchCancelled _ _)
    · rename_i hrequested
      obtain rfl := Option.some.inj hnext
      exact .goesOn hkept hdrives rfl (.inr ⟨rfl, .inl (by simpa using hrequested)⟩)
  | emitStarted | emitQueue | loadAttachments | newAgent | prepareAgent | pendingInputs =>
    rw [hawait] at hdrives
    simp only [resumeTurnValue, hawait] at h
    obtain rfl := Option.some.inj h
    exact .goesOn hkept hdrives rfl (.inl rfl)
  | invokeInput => simp [resumeTurnValue, hawait] at h
  | runEnd ending =>
    rw [hawait] at hdrives
    simp only [resumeTurnValue, hawait] at h
    split at h <;> obtain rfl := Option.some.inj h
    · exact .closes hkept hdrives (drives_leaveTry _ _) rfl
    · exact .closes hkept hdrives rfl rfl
  | emitEnding ending =>
    rw [hawait] at hdrives
    simp only [resumeTurnValue, hawait] at h
    split at h <;> obtain rfl := Option.some.inj h
    · exact .closes hkept hdrives rfl rfl
    · exact .closes hkept hdrives (drives_leaveTry _ _) rfl
  | autoRename | cancelledRunEnd | emitFailed =>
    rw [hawait] at hdrives
    simp only [resumeTurnValue, hawait] at h
    obtain rfl := Option.some.inj h
    exact .closes hkept hdrives (drives_leaveTry _ _) rfl
  | failedRunEnd | closeAgent | emitCancelled =>
    rw [hawait] at hdrives
    simp only [resumeTurnValue, hawait] at h
    obtain rfl := Option.some.inj h
    exact .closes hkept hdrives rfl rfl
  | emitLastQueue =>
    rw [hawait] at hdrives
    simp only [resumeTurnValue, hawait] at h
    split at h <;> obtain rfl := Option.some.inj h <;> exact .closes hkept hdrives rfl rfl

/-- An exception in `_execute_turn`. -/
theorem resumeTurnRaised_progress {written : Bool} (hdriver : op.driver = .task task)
    (h : op.resumeTurnRaised task written = some next) : op.Progress (.raised written) next := by
  have hkept : op.leavesBehind (.raised written) = false := by simp [leavesBehind, hdriver]
  have hdrives : op.driver.drives = task.await.drives := by rw [hdriver]; rfl
  cases hawait : task.await with
  | loadAttachments | newAgent | prepareAgent | pendingInputs | invokeInput | autoRename | runEnd ending =>
    simp only [resumeTurnRaised, hawait] at h
    obtain rfl := Option.some.inj h
    exact .ends hkept (drives_catchException _ _) .failed (status_catchException _ _)
  | cancelledRunEnd | failedRunEnd =>
    rw [hawait] at hdrives
    simp only [resumeTurnRaised, hawait] at h
    obtain rfl := Option.some.inj h
    exact .closes hkept hdrives (drives_leaveTry _ _) (status_writtenRunEnd _ _ _)
  | closeAgent =>
    rw [hawait] at hdrives
    simp only [resumeTurnRaised, hawait] at h
    obtain rfl := Option.some.inj h
    exact .closes hkept hdrives rfl rfl
  | _ => simp [resumeTurnRaised, hawait] at h

/-- A cancellation in `_execute_turn`. -/
theorem resumeTurnCancelled_progress {written : Bool} (hdriver : op.driver = .task task)
    (hmust : task.mustCancel = true) (h : op.resumeTurnCancelled task written = some next) :
    op.Progress (.cancelled written) next := by
  have hleft : op.leavesBehind (.cancelled written) = decide (task.await = .created) := by
    simp only [leavesBehind, hdriver, hmust, Bool.true_and]
  have hdrives : op.driver.drives = task.await.drives := by rw [hdriver]; rfl
  cases hawait : task.await with
  | created =>
    rw [hawait] at hdrives hleft
    simp only [resumeTurnCancelled, hawait] at h
    obtain rfl := Option.some.inj h
    exact .abandons hleft hdrives rfl rfl
  | lock | semaphore | emitStarted | emitQueue | loadAttachments | newAgent | prepareAgent | pendingInputs
  | invokeInput | emitEnding ending | autoRename | runEnd ending =>
    rw [hawait] at hleft
    simp only [resumeTurnCancelled, hawait] at h
    obtain rfl := Option.some.inj h
    exact .ends hleft (drives_catchCancelled _ _) .cancelled (status_catchCancelled _ _)
  | cancelledRunEnd | failedRunEnd =>
    rw [hawait] at hdrives hleft
    simp only [resumeTurnCancelled, hawait] at h
    obtain rfl := Option.some.inj h
    exact .closes hleft hdrives (drives_leaveTry _ _) (status_writtenRunEnd _ _ _)
  | emitFailed =>
    rw [hawait] at hdrives hleft
    simp only [resumeTurnCancelled, hawait] at h
    obtain rfl := Option.some.inj h
    exact .closes hleft hdrives (drives_leaveTry _ _) rfl
  | closeAgent | emitLastQueue | emitCancelled =>
    rw [hawait] at hdrives hleft
    simp only [resumeTurnCancelled, hawait] at h
    obtain rfl := Option.some.inj h
    exact .closes hleft hdrives rfl rfl

end Task

/-- `_execute_turn`. -/
theorem resumeTurn_progress {task : TurnTask} {canLock canEnter : Bool} {result : AwaitResult}
    (hdriver : op.driver = .task task) (h : op.resumeTurn task canLock canEnter result = some next) :
    op.Progress result next := by
  cases result with
  | value => exact resumeTurnValue_progress hdriver h
  | result invoked =>
    have hkept : op.leavesBehind (.result invoked) = false := by simp [leavesBehind, hdriver]
    simp only [resumeTurn, Option.ite_none_right_eq_some] at h
    obtain rfl := Option.some.inj h.2
    exact .ends hkept rfl _ rfl
  | raised written => exact resumeTurnRaised_progress hdriver h
  | cancelled written =>
    simp only [resumeTurn, Option.ite_none_right_eq_some] at h
    exact resumeTurnCancelled_progress hdriver h.1 h.2

/-- `_session_operation`. -/
theorem resumeSession_progress {await : SessionAwait} {canLock canEnter : Bool} {result : AwaitResult}
    (hdriver : op.driver = .operating await) (h : op.resumeSession canLock canEnter await result = some next) :
    op.Progress result next := by
  have hdrives : op.driver.drives = await.drives := by rw [hdriver]; rfl
  cases result with
  | value =>
    have hkept : op.leavesBehind .value = false := leavesBehind_value op
    cases await with
    | lock =>
      simp only [resumeSession, Option.ite_none_right_eq_some] at h
      obtain rfl := Option.some.inj h.2
      exact .goesOn hkept hdrives rfl (.inl rfl)
    | semaphore =>
      simp only [resumeSession, Option.ite_none_right_eq_some] at h
      obtain rfl := Option.some.inj h.2
      exact .goesOn hkept hdrives rfl (.inr ⟨rfl, .inr ⟨_, hdriver⟩⟩)
    | emitQueued | emitStarted | newAgent =>
      obtain rfl := Option.some.inj h
      exact .goesOn hkept hdrives rfl (.inl rfl)
    | execute =>
      obtain rfl := Option.some.inj h
      exact .ends hkept rfl .completed rfl
    | emitEnding | closeAgent =>
      obtain rfl := Option.some.inj h
      exact .closes hkept hdrives rfl rfl
  | result invoked => cases await <;> simp [resumeSession] at h
  | raised written =>
    cases await with
    | newAgent =>
      have hleft : op.leavesBehind (.raised written) = true := by simp [leavesBehind, hdriver]
      obtain rfl := Option.some.inj h
      exact .abandons hleft hdrives rfl rfl
    | execute =>
      have hkept : op.leavesBehind (.raised written) = false := by simp [leavesBehind, hdriver]
      obtain rfl := Option.some.inj h
      exact .ends hkept rfl .failed rfl
    | closeAgent =>
      have hkept : op.leavesBehind (.raised written) = false := by simp [leavesBehind, hdriver]
      obtain rfl := Option.some.inj h
      exact .closes hkept hdrives rfl rfl
    | _ => simp [resumeSession] at h
  | cancelled written =>
    have hleft : op.leavesBehind (.cancelled written) = await.drives := by simp [leavesBehind, hdriver]
    cases await with
    | emitEnding | closeAgent =>
      obtain rfl := Option.some.inj h
      exact .closes hleft hdrives rfl rfl
    | _ =>
      obtain rfl := Option.some.inj h
      exact .abandons hleft hdrives rfl rfl

/-- **Progress.** What the end of an await does, whatever drives the operation. -/
theorem resume_progress {canLock canEnter : Bool} {result : AwaitResult}
    (h : op.resume canLock canEnter result = some next) : op.Progress result next := by
  cases hdriver : op.driver with
  | starting await =>
    simp only [resume, hdriver] at h
    exact resumeStart_progress hdriver h
  | task task =>
    simp only [resume, hdriver] at h
    exact resumeTurn_progress hdriver h
  | operating await =>
    simp only [resume, hdriver] at h
    exact resumeSession_progress hdriver h
  | ended => simp [resume, hdriver] at h

/-! ### What keeps an operation driven -/

/-- The operation is in flight exactly as long as its driver will end it. -/
def Driven (op : RuntimeOperation) : Prop := op.status.isInFlight = op.driver.drives

instance : Decidable op.Driven := inferInstanceAs (Decidable (_ = _))

theorem resume_driven_iff {canLock canEnter : Bool} {result : AwaitResult} (hdriven : op.Driven)
    (h : op.resume canLock canEnter result = some next) : next.Driven ↔ op.leavesBehind result = false := by
  have hflight : op.status.isInFlight = op.driver.drives := hdriven
  cases resume_progress h with
  | goesOn kept before after status =>
    refine iff_of_true ?_ kept
    rw [Driven, after]
    rcases status with hsame | ⟨hactive, -⟩
    · rw [hsame, hflight, before]
    · rw [hactive]
      rfl
  | ends kept after ending status =>
    refine iff_of_true ?_ kept
    rw [Driven, after, status]
    rfl
  | closes kept before after status =>
    refine iff_of_true ?_ kept
    rw [Driven, after, status, hflight, before]
  | abandons left before after status =>
    refine iff_of_false ?_ (by simp [left])
    rw [Driven, after, status, hflight, before]
    simp

theorem driven_cancelTask : op.cancelTask.Driven ↔ op.Driven := by
  unfold cancelTask
  split
  · rename_i task hdriver
    rw [Driven, Driven, hdriver]
    rfl
  · rfl

theorem driven_turnCancel : op.turnCancel.Driven ↔ op.Driven := by
  unfold turnCancel
  split
  · rename_i hcancellable
    have hflight : op.status.isInFlight = true := (Bool.and_eq_true_iff.mp hcancellable).1
    rw [Driven, Driven, hflight]
    rfl
  · rfl

theorem driven_setCancel (call : Nat) (await : Option CancelAwait) : (op.setCancel call await).Driven ↔ op.Driven := by
  cases await <;> rfl

theorem driven_resumeCancel {call : Nat} {controller : Bool} {result : AwaitResult}
    (h : op.resumeCancel call controller result = some next) : next.Driven ↔ op.Driven := by
  unfold resumeCancel at h
  split at h
  · obtain rfl := Option.some.inj h
    exact driven_setCancel _ _
  · split at h <;> obtain rfl := Option.some.inj h
    · exact (driven_setCancel _ _).trans driven_cancelTask
    · exact driven_setCancel _ _
  · obtain rfl := Option.some.inj h
    exact driven_setCancel _ _
  · obtain rfl := Option.some.inj h
    exact driven_setCancel _ _
  · obtain rfl := Option.some.inj h
    exact driven_setCancel _ _
  · simp at h

end RuntimeOperation

/-! ### Runs -/

namespace RuntimeService

variable {service next : RuntimeService}

/-- The step leaves no operation in flight. -/
def KeepsDriven (service : RuntimeService) : ServiceStep → Prop
  | .resume operation result => ∀ op ∈ service.operations[operation]?, op.leavesBehind result = false
  | _ => True

instance (service : RuntimeService) : (e : ServiceStep) → Decidable (service.KeepsDriven e)
  | .resume operation result =>
    inferInstanceAs (Decidable (∀ op ∈ service.operations[operation]?, op.leavesBehind result = false))
  | .turnStart _ | .sessionOperation _ | .turnCancel _ | .resumeCancel .. | .close => .isTrue trivial

/-- All operations are driven. -/
def AllDriven (service : RuntimeService) : Prop := ∀ op ∈ service.operations, op.Driven

/-- One operation is changed. -/
theorem change_eq_some_iff {operation : Nat} {f : RuntimeOperation → Option RuntimeOperation} :
    service.change operation f = some next ↔ ∃ op op', service.operations[operation]? = some op ∧ f op = some op'
      ∧ next = { service with operations := service.operations.set operation op' } := by
  unfold change
  cases service.operations[operation]? with
  | none => simp
  | some op =>
    simp only [Option.map_eq_some_iff, Option.some.injEq]
    constructor
    · rintro ⟨op', hop', rfl⟩
      exact ⟨op, op', rfl, hop', rfl⟩
    · rintro ⟨op, op', rfl, hop', rfl⟩
      exact ⟨op', hop', rfl⟩

/-- A property of all operations, behind a change of one of them. -/
theorem forall_set_iff {P : RuntimeOperation → Prop} {ops : List RuntimeOperation} {operation : Nat}
    {op op' : RuntimeOperation} (hall : ∀ o ∈ ops, P o) (hop : ops[operation]? = some op) :
    (∀ o ∈ ops.set operation op', P o) ↔ P op' := by
  obtain ⟨hlt, -⟩ := List.getElem?_eq_some_iff.mp hop
  constructor
  · intro h
    exact h op' (List.mem_set hlt _)
  · intro hop' o ho
    rcases List.mem_or_eq_of_mem_set ho with hmem | rfl
    · exact hall o hmem
    · exact hop'

/-- An end of an await that leaves an operation in flight can come. -/
theorem exists_resume_of_leavesBehind {op : RuntimeOperation} {result : AwaitResult} (canLock canEnter : Bool)
    (h : op.leavesBehind result = true) : ∃ op', op.resume canLock canEnter result = some op' := by
  unfold RuntimeOperation.leavesBehind at h
  split at h
  · rename_i await written hdriver
    exact ⟨op.leave, by simp only [RuntimeOperation.resume, hdriver]; cases await <;> rfl⟩
  · rename_i task written hdriver
    obtain ⟨hmust, hcreated⟩ := Bool.and_eq_true_iff.mp h
    refine ⟨op.leave, ?_⟩
    simp [RuntimeOperation.resume, hdriver, RuntimeOperation.resumeTurn, hmust, RuntimeOperation.resumeTurnCancelled,
      of_decide_eq_true hcreated]
  · rename_i written hdriver
    exact ⟨op.leave, by simp only [RuntimeOperation.resume, hdriver]; rfl⟩
  · rename_i await written hdriver
    simp only [RuntimeOperation.resume, hdriver]
    cases await <;> exact ⟨_, rfl⟩
  · cases h

/-- A step keeps all operations driven if and only if it leaves none in flight. -/
theorem step_allDriven_iff (service : RuntimeService) (e : ServiceStep) (h : service.AllDriven) :
    (∀ next, service.step e = some next → next.AllDriven) ↔ service.KeepsDriven e := by
  cases e with
  | turnStart sessionId | sessionOperation sessionId =>
    refine iff_of_true ?_ trivial
    intro next hstep
    obtain rfl := Option.some.inj hstep
    intro op hop
    rcases List.mem_append.mp hop with hmem | hnew
    · exact h op hmem
    · obtain rfl := List.mem_singleton.mp hnew
      rfl
  | resume operation result =>
    constructor
    · intro hall op hop
      rw [← Bool.not_eq_true]
      intro hleft
      obtain ⟨op', hop'⟩ := exists_resume_of_leavesBehind (service.canLock op.sessionId) service.canEnter hleft
      have hnext := hall _ (change_eq_some_iff.mpr ⟨op, op', hop, hop', rfl⟩)
      have hdriven := (forall_set_iff h hop).mp hnext
      rw [(RuntimeOperation.resume_driven_iff (h op (List.mem_of_getElem? hop)) hop').mp hdriven] at hleft
      cases hleft
    · intro hkeeps next hstep
      obtain ⟨op, op', hop, hop', rfl⟩ := change_eq_some_iff.mp hstep
      refine (forall_set_iff h hop).mpr ?_
      exact (RuntimeOperation.resume_driven_iff (h op (List.mem_of_getElem? hop)) hop').mpr (hkeeps op hop)
  | turnCancel operation =>
    refine iff_of_true ?_ trivial
    intro next hstep
    obtain ⟨op, op', hop, hop', rfl⟩ := change_eq_some_iff.mp hstep
    obtain rfl := Option.some.inj hop'
    exact (forall_set_iff h hop).mpr (RuntimeOperation.driven_turnCancel.mpr (h op (List.mem_of_getElem? hop)))
  | resumeCancel operation call controller result =>
    refine iff_of_true ?_ trivial
    intro next hstep
    obtain ⟨op, op', hop, hop', rfl⟩ := change_eq_some_iff.mp hstep
    exact (forall_set_iff h hop).mpr ((RuntimeOperation.driven_resumeCancel hop').mpr (h op (List.mem_of_getElem? hop)))
  | close =>
    refine iff_of_true ?_ trivial
    intro next hstep
    obtain rfl := Option.some.inj hstep
    intro op hop
    obtain ⟨o, ho, rfl⟩ := List.mem_map.mp hop
    exact RuntimeOperation.driven_cancelTask.mpr (h o ho)

/-- Every driver has ended. -/
def Quiet (service : RuntimeService) : Prop := ∀ op ∈ service.operations, op.driver = .ended

/-- **Driven operations.** Every registered operation is in flight exactly as long as a call or a task will end it, at
    every point of exactly the runs without a step that leaves one in flight.  Then nothing counts as active when
    every call and every task has ended. -/
theorem operations_driven_iff (permits : Nat) (steps : List ServiceStep) :
    (∀ front service, front <+: steps → Transition.run step { permits := permits } front = some service →
        service.AllDriven ∧ (service.Quiet → service.activeCount = 0))
      ↔ EveryStep step KeepsDriven { permits := permits } steps := by
  rw [← everyStep_iff_invariant (I := AllDriven) (fun s e hs => step_allDriven_iff s e hs) (by simp [AllDriven])]
  refine forall_congr' fun front => forall_congr' fun service => ?_
  refine forall_congr' fun hfront => forall_congr' fun hrun => ?_
  refine and_iff_left_of_imp ?_
  intro hdriven hquiet
  refine List.countP_eq_zero.mpr ?_
  intro op hop
  have hflight : op.status.isInFlight = op.driver.drives := hdriven op hop
  rw [hflight, hquiet op hop]
  simp [Driver.drives]

/-- A client that disconnects while `turn_start` emits leaves a queued operation behind. -/
example : (Transition.run step { permits := 1 } [.turnStart 0, .resume 0 (.cancelled false)]).map activeCount
    = some 1 := by
  decide

end RuntimeService

end AeloonRuntime
