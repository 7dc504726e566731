import AeloonRuntime.Runtime.OperationsDriven

namespace AeloonRuntime

open Transition

/-!
# Operation locks — one operation of a session at a time, and in all no more than permits

An operation that executes is inside `async with runtime.lock, self._semaphore`.

* `RuntimeOperation.Takes` — the end of an await takes the lock or a permit only when it can be had;
* `RuntimeService.Exclusive` — each session's lock has one holder at most, and the semaphore not more than its permits;
* `RuntimeService.operations_exclusive` — this holds in every state that is reached, whatever is cancelled or raised.
-/

/-- Who holds a permit holds the lock of the session. -/
theorem Driver.inLock_of_inSemaphore {driver : Driver} (h : driver.inSemaphore = true) : driver.inLock = true := by
  cases driver with
  | task turn => exact (Bool.and_eq_true_iff.mp h).1
  | operating await => exact (Bool.and_eq_true_iff.mp h).1
  | starting await => cases h
  | ended => cases h

namespace RuntimeOperation

variable {op next : RuntimeOperation} {canLock canEnter : Bool}

/-- What the awaits of a driver leave as it is. -/
def frame (op : RuntimeOperation) : OperationKind × Nat × Bool × List CancelAwait :=
  (op.kind, op.sessionId, op.cancelRequested, op.cancels)

theorem frame_catchCancelled (op : RuntimeOperation) (task : TurnTask) : (op.catchCancelled task).frame = op.frame := by
  rw [catchCancelled]
  split <;> rfl

theorem frame_catchException (op : RuntimeOperation) (task : TurnTask) : (op.catchException task).frame = op.frame := by
  rw [catchException]
  split <;> rfl

theorem frame_writtenRunEnd (op : RuntimeOperation) (written : Bool) (ending : Ending) :
    (op.writtenRunEnd written ending).frame = op.frame := by
  cases written <;> rfl

/-- An await takes the lock or a permit only when it can be had. -/
structure Takes (op : RuntimeOperation) (canLock canEnter : Bool) (next : RuntimeOperation) : Prop where
  frame : next.frame = op.frame
  lock : next.driver.inLock = true → op.driver.inLock = true ∨ canLock = true
  permit : next.driver.inSemaphore = true → op.driver.inSemaphore = true ∨ canEnter = true

/-- Outside of `async with` nothing is held. -/
theorem Takes.outside (hframe : next.frame = op.frame) (hout : next.driver.inLock = false) :
    op.Takes canLock canEnter next := by
  refine ⟨hframe, fun hlock => ?_, fun hpermit => ?_⟩
  · rw [hout] at hlock
    cases hlock
  · rw [Driver.inLock_of_inSemaphore hpermit] at hout
    cases hout

/-- Inside of `async with` nothing more is taken. -/
theorem Takes.inside (hframe : next.frame = op.frame) (hin : op.driver.inSemaphore = true) :
    op.Takes canLock canEnter next :=
  ⟨hframe, fun _ => .inl (Driver.inLock_of_inSemaphore hin), fun _ => .inl hin⟩

theorem inLock_leaveTry (op : RuntimeOperation) (task : TurnTask) : (op.leaveTry task).driver.inLock = false := by
  rw [leaveTry]
  cases op.agent <;> rfl

theorem inLock_catchCancelled (op : RuntimeOperation) (task : TurnTask) :
    (op.catchCancelled task).driver.inLock = false := by
  rw [catchCancelled]
  split
  · exact inLock_leaveTry _ _
  · rfl

theorem inLock_catchException (op : RuntimeOperation) (task : TurnTask) :
    (op.catchException task).driver.inLock = false := by
  rw [catchException]
  split
  · exact inLock_leaveTry _ _
  · rfl

/-! ### What an await takes -/

/-- An await of `_execute_turn` that returns. -/
theorem resumeTurnValue_takes {task : TurnTask} (hdriver : op.driver = .task task)
    (h : op.resumeTurnValue task canLock canEnter = some next) : op.Takes canLock canEnter next := by
  have hlock : op.driver.inLock = task.await.inLock := by rw [hdriver]; rfl
  have hpermit : op.driver.inSemaphore = (task.await.inLock && task.await ≠ .semaphore) := by rw [hdriver]; rfl
  cases hawait : task.await with
  | created =>
    simp only [resumeTurnValue, hawait, Option.ite_none_left_eq_some] at h
    obtain rfl := Option.some.inj h.2
    exact .outside rfl rfl
  | lock =>
    simp only [resumeTurnValue, hawait, Option.ite_none_right_eq_some] at h
    obtain rfl := Option.some.inj h.2
    exact ⟨rfl, fun _ => .inr h.1, fun hpermit => by cases hpermit⟩
  | semaphore =>
    rw [hawait] at hlock
    simp only [resumeTurnValue, hawait, Option.ite_none_right_eq_some] at h
    have hnext := h.2
    split at hnext <;> obtain rfl := Option.some.inj hnext
    · exact .outside (frame_catchCancelled _ _) (inLock_catchCancelled _ _)
    · exact ⟨rfl, fun _ => .inl hlock, fun _ => .inr h.1⟩
  | emitStarted | emitQueue | loadAttachments | newAgent | prepareAgent | pendingInputs =>
    rw [hawait] at hpermit
    simp only [resumeTurnValue, hawait] at h
    obtain rfl := Option.some.inj h
    exact .inside rfl hpermit
  | invokeInput => simp [resumeTurnValue, hawait] at h
  | runEnd ending | emitEnding ending =>
    rw [hawait] at hpermit
    simp only [resumeTurnValue, hawait] at h
    split at h <;> obtain rfl := Option.some.inj h <;> exact .inside rfl (by rw [hpermit]; rfl)
  | autoRename | cancelledRunEnd | emitFailed =>
    simp only [resumeTurnValue, hawait] at h
    obtain rfl := Option.some.inj h
    exact .outside rfl (inLock_leaveTry _ _)
  | failedRunEnd | closeAgent | emitCancelled =>
    simp only [resumeTurnValue, hawait] at h
    obtain rfl := Option.some.inj h
    exact .outside rfl rfl
  | emitLastQueue =>
    simp only [resumeTurnValue, hawait] at h
    split at h <;> obtain rfl := Option.some.inj h <;> exact .outside rfl rfl

/-- An exception in `_execute_turn` leaves the lock. -/
theorem resumeTurnRaised_takes {task : TurnTask} {written : Bool} (h : op.resumeTurnRaised task written = some next) :
    op.Takes canLock canEnter next := by
  cases hawait : task.await with
  | loadAttachments | newAgent | prepareAgent | pendingInputs | invokeInput | autoRename =>
    simp only [resumeTurnRaised, hawait] at h
    obtain rfl := Option.some.inj h
    exact .outside (frame_catchException _ _) (inLock_catchException _ _)
  | runEnd ending =>
    simp only [resumeTurnRaised, hawait] at h
    obtain rfl := Option.some.inj h
    exact .outside ((frame_catchException _ _).trans (frame_writtenRunEnd _ _ _)) (inLock_catchException _ _)
  | cancelledRunEnd | failedRunEnd =>
    simp only [resumeTurnRaised, hawait] at h
    obtain rfl := Option.some.inj h
    exact .outside (frame_writtenRunEnd _ _ _) (inLock_leaveTry _ _)
  | closeAgent =>
    simp only [resumeTurnRaised, hawait] at h
    obtain rfl := Option.some.inj h
    exact .outside rfl rfl
  | _ => simp [resumeTurnRaised, hawait] at h

/-- So does a cancellation. -/
theorem resumeTurnCancelled_takes {task : TurnTask} {written : Bool}
    (h : op.resumeTurnCancelled task written = some next) : op.Takes canLock canEnter next := by
  cases hawait : task.await with
  | created | closeAgent | emitLastQueue | emitCancelled =>
    simp only [resumeTurnCancelled, hawait] at h
    obtain rfl := Option.some.inj h
    exact .outside rfl rfl
  | lock | semaphore | emitStarted | emitQueue | loadAttachments | newAgent | prepareAgent | pendingInputs
  | invokeInput | emitEnding ending | autoRename =>
    simp only [resumeTurnCancelled, hawait] at h
    obtain rfl := Option.some.inj h
    exact .outside (frame_catchCancelled _ _) (inLock_catchCancelled _ _)
  | runEnd ending =>
    simp only [resumeTurnCancelled, hawait] at h
    obtain rfl := Option.some.inj h
    exact .outside ((frame_catchCancelled _ _).trans (frame_writtenRunEnd _ _ _)) (inLock_catchCancelled _ _)
  | cancelledRunEnd | failedRunEnd =>
    simp only [resumeTurnCancelled, hawait] at h
    obtain rfl := Option.some.inj h
    exact .outside (frame_writtenRunEnd _ _ _) (inLock_leaveTry _ _)
  | emitFailed =>
    simp only [resumeTurnCancelled, hawait] at h
    obtain rfl := Option.some.inj h
    exact .outside rfl (inLock_leaveTry _ _)

/-- `_session_operation`. -/
theorem resumeSession_takes {await : SessionAwait} {result : AwaitResult} (hdriver : op.driver = .operating await)
    (h : op.resumeSession canLock canEnter await result = some next) : op.Takes canLock canEnter next := by
  have hlock : op.driver.inLock = await.inLock := by rw [hdriver]; rfl
  have hpermit : op.driver.inSemaphore = (await.inLock && await ≠ .semaphore) := by rw [hdriver]; rfl
  cases result with
  | value =>
    cases await with
    | emitQueued =>
      obtain rfl := Option.some.inj h
      exact .outside rfl rfl
    | lock =>
      simp only [resumeSession, Option.ite_none_right_eq_some] at h
      obtain rfl := Option.some.inj h.2
      exact ⟨rfl, fun _ => .inr h.1, fun hpermit => by cases hpermit⟩
    | semaphore =>
      simp only [resumeSession, Option.ite_none_right_eq_some] at h
      obtain rfl := Option.some.inj h.2
      exact ⟨rfl, fun _ => .inl hlock, fun _ => .inr h.1⟩
    | _ =>
      obtain rfl := Option.some.inj h
      exact .inside rfl hpermit
  | result invoked => cases await <;> simp [resumeSession] at h
  | raised written =>
    cases await with
    | newAgent | execute | closeAgent =>
      obtain rfl := Option.some.inj h
      exact .inside rfl hpermit
    | _ => simp [resumeSession] at h
  | cancelled written =>
    cases await with
    | execute | emitEnding =>
      obtain rfl := Option.some.inj h
      exact .inside rfl hpermit
    | _ =>
      obtain rfl := Option.some.inj h
      exact .outside rfl rfl

/-- **Awaits.** Whatever drives the operation, it takes only what can be had. -/
theorem resume_takes {result : AwaitResult} (h : op.resume canLock canEnter result = some next) :
    op.Takes canLock canEnter next := by
  cases hdriver : op.driver with
  | starting await =>
    have hnext : next.frame = op.frame ∧ next.driver.inLock = false := by
      simp only [resume, hdriver] at h
      cases result <;> cases await <;> simp only [resumeStart, reduceCtorEq, Option.some.injEq] at h <;> subst h <;>
        exact ⟨rfl, rfl⟩
    exact .outside hnext.1 hnext.2
  | task task =>
    simp only [resume, hdriver] at h
    cases result with
    | value => exact resumeTurnValue_takes hdriver h
    | result invoked =>
      simp only [resumeTurn, Option.ite_none_right_eq_some] at h
      obtain rfl := Option.some.inj h.2
      exact .inside rfl (by rw [hdriver, Driver.inSemaphore, h.1]; rfl)
    | raised written => exact resumeTurnRaised_takes h
    | cancelled written =>
      simp only [resumeTurn, Option.ite_none_right_eq_some] at h
      exact resumeTurnCancelled_takes h.2
  | operating await =>
    simp only [resume, hdriver] at h
    exact resumeSession_takes hdriver h
  | ended => simp [resume, hdriver] at h

/-- `turn_cancel` and `close` take and release nothing. -/
structure Unmoved (op next : RuntimeOperation) : Prop where
  session : next.sessionId = op.sessionId
  lock : next.driver.inLock = op.driver.inLock
  permit : next.driver.inSemaphore = op.driver.inSemaphore

theorem unmoved_cancelTask (op : RuntimeOperation) : op.Unmoved op.cancelTask := by
  unfold cancelTask
  split
  · rename_i task hdriver
    exact ⟨rfl, by rw [hdriver]; rfl, by rw [hdriver]; rfl⟩
  · exact ⟨rfl, rfl, rfl⟩

theorem unmoved_setCancel (op : RuntimeOperation) (call : Nat) (await : Option CancelAwait) :
    op.Unmoved (op.setCancel call await) := by
  cases await <;> exact ⟨rfl, rfl, rfl⟩

theorem unmoved_turnCancel (op : RuntimeOperation) : op.Unmoved op.turnCancel := by
  unfold turnCancel
  split <;> exact ⟨rfl, rfl, rfl⟩

theorem unmoved_resumeCancel {call : Nat} {controller : Bool} {result : AwaitResult}
    (h : op.resumeCancel call controller result = some next) : op.Unmoved next := by
  unfold resumeCancel at h
  split at h
  · obtain rfl := Option.some.inj h
    have hset := unmoved_setCancel (op.emit .cancelling) call (some .emitCancelling)
    exact ⟨hset.session, hset.lock, hset.permit⟩
  · split at h <;> obtain rfl := Option.some.inj h
    · have hset := unmoved_setCancel op.cancelTask call none
      have htask := unmoved_cancelTask op
      exact ⟨hset.session.trans htask.session, hset.lock.trans htask.lock, hset.permit.trans htask.permit⟩
    · exact unmoved_setCancel op call _
  · obtain rfl := Option.some.inj h
    exact unmoved_setCancel op call _
  · obtain rfl := Option.some.inj h
    exact unmoved_setCancel op call _
  · obtain rfl := Option.some.inj h
    exact unmoved_setCancel op call _
  · simp at h

end RuntimeOperation

/-! ### Runs -/

namespace RuntimeService

variable {service next : RuntimeService}

/-- Each lock has one holder at most, and the semaphore gives no more than its permits. -/
structure Exclusive (service : RuntimeService) : Prop where
  lock : ∀ sessionId, (service.operations.countP fun op => op.sessionId = sessionId && op.driver.inLock) ≤ 1
  permits : (service.operations.countP fun op => op.driver.inSemaphore) ≤ max 1 service.permits

/-- The operations that count, behind a change of one that is not counted more than before. -/
theorem countP_set_le {p : RuntimeOperation → Bool} {ops : List RuntimeOperation} {operation bound : Nat}
    {op op' : RuntimeOperation} (hop : ops[operation]? = some op) (hcount : ops.countP p ≤ bound)
    (hmore : p op' = true → p op = true ∨ ops.countP p < bound) : (ops.set operation op').countP p ≤ bound := by
  obtain ⟨hlt, hget⟩ := List.getElem?_eq_some_iff.mp hop
  have hpos : p op = true → 0 < ops.countP p := fun h =>
    List.countP_pos_iff.mpr ⟨op, List.mem_of_getElem? hop, h⟩
  rw [List.countP_set hlt, hget]
  by_cases hnew : p op' = true
  · rw [if_pos hnew]
    rcases hmore hnew with hold | hroom
    · have hone := hpos hold
      rw [if_pos hold]
      omega
    · omega
  · rw [if_neg hnew]
    omega

/-- An operation that has taken nothing more than what could be had. -/
theorem Exclusive.set (h : service.Exclusive) {operation : Nat} {op op' : RuntimeOperation}
    (hop : service.operations[operation]? = some op)
    (hsession : op'.sessionId = op.sessionId)
    (hlock : op'.driver.inLock = true → op.driver.inLock = true ∨ service.canLock op.sessionId = true)
    (hpermit : op'.driver.inSemaphore = true → op.driver.inSemaphore = true ∨ service.canEnter = true) :
    Exclusive { service with operations := service.operations.set operation op' } := by
  refine ⟨fun sessionId => countP_set_le hop (h.lock sessionId) fun hheld => ?_,
    countP_set_le hop h.permits fun hheld => ?_⟩
  · obtain ⟨hof, hnow⟩ := Bool.and_eq_true_iff.mp hheld
    have hsame : op.sessionId = sessionId := hsession.symm.trans (of_decide_eq_true hof)
    rcases hlock hnow with hold | hfree
    · exact .inl (Bool.and_eq_true_iff.mpr ⟨decide_eq_true hsame, hold⟩)
    · refine .inr (Nat.lt_one_iff.mpr (List.countP_eq_zero.mpr fun o ho => ?_))
      have hout := List.all_eq_true.mp hfree o ho
      rw [hsame] at hout
      simpa [imp_iff_not_or] using hout
  · rcases hpermit hheld with hold | hroom
    · exact .inl hold
    · exact .inr (of_decide_eq_true hroom)

/-- What is not moved is counted as before. -/
theorem Exclusive.unmoved (h : service.Exclusive) {operation : Nat} {op op' : RuntimeOperation}
    (hop : service.operations[operation]? = some op) (hsame : op.Unmoved op') :
    Exclusive { service with operations := service.operations.set operation op' } :=
  h.set hop hsame.session (fun hlock => .inl (hsame.lock.symm.trans hlock))
    fun hpermit => .inl (hsame.permit.symm.trans hpermit)

/-- A step keeps the locks. -/
theorem step_exclusive (e : ServiceStep) (h : service.Exclusive) (hstep : service.step e = some next) :
    next.Exclusive := by
  cases e with
  | turnStart sessionId | sessionOperation sessionId =>
    obtain rfl := Option.some.inj hstep
    refine ⟨fun id => ?_, ?_⟩
    · show List.countP _ (service.operations ++ [_]) ≤ 1
      rw [List.countP_append, List.countP_singleton, if_neg (by simp [Driver.inLock, SessionAwait.inLock])]
      exact h.lock id
    · show List.countP _ (service.operations ++ [_]) ≤ _
      rw [List.countP_append, List.countP_singleton, if_neg (by simp [Driver.inSemaphore, SessionAwait.inLock])]
      exact h.permits
  | resume operation result =>
    obtain ⟨op, op', hop, hop', rfl⟩ := change_eq_some_iff.mp hstep
    have htakes := RuntimeOperation.resume_takes hop'
    exact h.set hop (congrArg (·.2.1) htakes.frame) htakes.lock htakes.permit
  | turnCancel operation =>
    obtain ⟨op, op', hop, hop', rfl⟩ := change_eq_some_iff.mp hstep
    obtain rfl := Option.some.inj hop'
    exact h.unmoved hop op.unmoved_turnCancel
  | resumeCancel operation call controller result =>
    obtain ⟨op, op', hop, hop', rfl⟩ := change_eq_some_iff.mp hstep
    exact h.unmoved hop (RuntimeOperation.unmoved_resumeCancel hop')
  | close =>
    obtain rfl := Option.some.inj hstep
    refine ⟨fun id => ?_, ?_⟩
    · show List.countP _ (service.operations.map _) ≤ 1
      rw [List.countP_map]
      refine Nat.le_trans (Nat.le_of_eq (List.countP_congr fun op _ => ?_)) (h.lock id)
      have hsame := op.unmoved_cancelTask
      simp only [Function.comp_apply, hsame.session, hsame.lock]
    · show List.countP _ (service.operations.map _) ≤ _
      rw [List.countP_map]
      refine Nat.le_trans (Nat.le_of_eq (List.countP_congr fun op _ => ?_)) h.permits
      simp only [Function.comp_apply, op.unmoved_cancelTask.permit]

/-- **Exclusion.** In every state that is reached, whatever raises or is cancelled, one operation of a session at most
    is behind its lock, and in all no more of them execute than the semaphore has permits. -/
theorem operations_exclusive (permits : Nat) (steps : List ServiceStep) :
    ∀ service, Transition.run step { permits := permits } steps = some service → service.Exclusive := by
  intro service hrun
  have hstart : Exclusive { permits := permits } := ⟨fun _ => by simp, by simp⟩
  exact run_invariant (P := fun _ _ => True) (fun s e s' hs _ hstep => step_exclusive e hs hstep) hstart
    (everyStep_of_forall (fun _ _ => trivial) _ steps) hrun

/-- Two turns of a session, of which the first executes and the second waits for its lock. -/
def waitingTurn : List ServiceStep :=
  [.turnStart 0, .turnStart 0] ++ List.replicate 6 (.resume 0 .value) ++ List.replicate 4 (.resume 1 .value)

theorem operations_exclusive_waiting : ∃ service, Transition.run step { permits := 2 } waitingTurn = some service
    ∧ (service.operations.map fun op => (op.driver.inLock, op.driver.inSemaphore)) = [(true, true), (false, false)]
    ∧ service.step (.resume 1 .value) = none ∧ service.Exclusive :=
  ⟨_, rfl, by decide, by decide, operations_exclusive 2 waitingTurn _ rfl⟩

end RuntimeService

end AeloonRuntime
