import AeloonRuntime.Runtime.OperationLocks

namespace AeloonRuntime

open Transition

/-!
# Operation events — what is told of a turn, from `operation.queued` to its end

The events of a turn and its `run_end` records, at every await.

* `Story` — what has been told and recorded, and how far it has come;
* `Driver.Stage` — which story goes with which await of `turn_start` and `_execute_turn`;
* `RuntimeOperation.settles` — the ends of awaits behind which a turn is still told to its end;
* `RuntimeService.Orderly` — `turn_cancel` tells of its cancellation between `operation.queued` and the end;
* `RuntimeService.turn_lifecycle` — then the events are `operation.queued`, perhaps `operation.started`, perhaps
  `operation.cancelling`, and one end that is the last event and stands in the only `run_end` record.
-/

/-- The events of a turn before its end. -/
def history (started cancelling : Bool) : List OperationEvent :=
  .queued :: ((if started then [.started] else []) ++ if cancelling then [.cancelling] else [])

/-- What has been told of a turn, and recorded. -/
structure Story where
  events : List OperationEvent
  runEnds : List Ending

namespace Story

variable {story : Story} {started cancelling : Bool}

/-- There is no end yet. -/
def Unsettled (story : Story) (started cancelling : Bool) : Prop :=
  story.events = history started cancelling ∧ story.runEnds = []

/-- The cancellation is recorded, and not told. -/
def Recorded (story : Story) (started cancelling : Bool) : Prop :=
  story.events = history started cancelling ∧ story.runEnds = [.cancelled]

/-- The end is recorded, and told. -/
def Settled (story : Story) (started cancelling : Bool) : Prop :=
  ∃ ending, story.events = history started cancelling ++ [.ended ending] ∧ story.runEnds = [ending]

/-- The event of a cancellation can be told. -/
def CanCancel (story : Story) : Prop := .queued ∈ story.events ∧ ∀ ending, .ended ending ∉ story.events

instance (story : Story) : Decidable story.CanCancel :=
  decidable_of_iff
    (.queued ∈ story.events
      ∧ ∀ ending ∈ ([.completed, .failed, .cancelled] : List Ending), .ended ending ∉ story.events)
    (and_congr_right fun _ => ⟨fun h ending => h ending (by cases ending <;> simp), fun h ending _ => h ending⟩)

theorem Unsettled.settle (h : story.Unsettled started cancelling) (ending : Ending) :
    Settled ⟨story.events ++ [.ended ending], story.runEnds ++ [ending]⟩ started cancelling :=
  ⟨ending, by rw [h.1], by rw [h.2]; rfl⟩

theorem Unsettled.record (h : story.Unsettled started cancelling) :
    Recorded ⟨story.events, story.runEnds ++ [.cancelled]⟩ started cancelling :=
  ⟨h.1, by rw [h.2]; rfl⟩

theorem Recorded.settle (h : story.Recorded started cancelling) :
    Settled ⟨story.events ++ [.ended .cancelled], story.runEnds⟩ started cancelling :=
  ⟨.cancelled, by rw [h.1], h.2⟩

theorem Unsettled.cancel (h : story.Unsettled started false) :
    Unsettled ⟨story.events ++ [.cancelling], story.runEnds⟩ started true :=
  ⟨by rw [h.1]; cases started <;> rfl, h.2⟩

theorem Recorded.cancel (h : story.Recorded started false) :
    Recorded ⟨story.events ++ [.cancelling], story.runEnds⟩ started true :=
  ⟨by rw [h.1]; cases started <;> rfl, h.2⟩

theorem Settled.not_canCancel (h : story.Settled started cancelling) : ¬story.CanCancel := by
  obtain ⟨ending, hevents, -⟩ := h
  intro hcan
  exact hcan.2 ending (by simp [hevents])

/-- The beginning of a story: its end is the last event, and the only record. -/
def Begins (story : Story) : Prop :=
  ∃ started cancelling ending, story.events <+: history started cancelling ++ [.ended ending]
    ∧ story.runEnds <+: [ending]

theorem begins_nil (hevents : story.events = []) (hends : story.runEnds = []) : story.Begins :=
  ⟨false, false, .failed, by rw [hevents]; exact List.nil_prefix, by rw [hends]; exact List.nil_prefix⟩

theorem Unsettled.begins (h : story.Unsettled started cancelling) : story.Begins :=
  ⟨started, cancelling, .failed, by rw [h.1]; exact List.prefix_append _ _,
    by rw [h.2]; exact List.nil_prefix⟩

theorem Recorded.begins (h : story.Recorded started cancelling) : story.Begins :=
  ⟨started, cancelling, .cancelled, by rw [h.1]; exact List.prefix_append _ _,
    h.2 ▸ List.prefix_refl _⟩

theorem Settled.begins (h : story.Settled started cancelling) : story.Begins := by
  obtain ⟨ending, hevents, hends⟩ := h
  exact ⟨started, cancelling, ending, hevents ▸ List.prefix_refl _, hends ▸ List.prefix_refl _⟩

end Story

/-! ### The story at an await -/

/-- What has been told at an await of `_execute_turn`. -/
def TurnTask.Stage (turn : TurnTask) (story : Story) (started cancelling : Bool) : Prop :=
  match turn.await with
  | .created | .lock | .semaphore =>
    (started = false ∧ story.Unsettled started cancelling) ∧ turn.terminalWritten = false ∧ turn.terminalEvent = false
  | .emitStarted | .emitQueue | .loadAttachments | .newAgent | .prepareAgent | .pendingInputs | .invokeInput
  | .runEnd _ => story.Unsettled started cancelling ∧ turn.terminalWritten = false ∧ turn.terminalEvent = false
  | .emitEnding _ | .autoRename =>
    story.Settled started cancelling ∧ turn.terminalWritten = true ∧ turn.terminalEvent = false
  | .cancelledRunEnd | .failedRunEnd => story.Unsettled started cancelling ∧ turn.terminalEvent = false
  | .emitFailed => story.Settled started cancelling ∧ turn.terminalEvent = false
  | .closeAgent | .emitLastQueue =>
    if turn.terminalEvent then story.Recorded started cancelling else story.Settled started cancelling
  | .emitCancelled => story.Settled started cancelling

/-- What has been told of a turn with this driver. -/
def Driver.Stage (driver : Driver) (story : Story) (started cancelling : Bool) : Prop :=
  match driver with
  | .starting .emitCreated => story.events = [] ∧ story.runEnds = [] ∧ cancelling = false
  | .starting _ => started = false ∧ story.Unsettled started cancelling
  | .task turn => turn.Stage story started cancelling
  | .operating _ => False
  | .ended => story.Settled started cancelling

/-- A turn is told to its end behind such an end of an await of `_execute_turn`. -/
def TurnTask.settles (turn : TurnTask) (written : Bool) : Bool :=
  match turn.await with
  | .created | .cancelledRunEnd | .failedRunEnd => false
  | .runEnd _ => !written
  | .closeAgent | .emitLastQueue => !turn.terminalEvent
  | _ => true

namespace RuntimeOperation

variable {op next : RuntimeOperation} {started cancelling : Bool}

/-- What has been told of an operation. -/
def story (op : RuntimeOperation) : Story := ⟨op.events, op.runEnds⟩

/-- A turn is told to its end behind such an end of an await. -/
def settles (op : RuntimeOperation) (result : AwaitResult) : Bool :=
  match op.driver, result with
  | .starting _, .cancelled _ => false
  | .task turn, .raised written => turn.settles written
  | .task turn, .cancelled written => turn.settles written
  | _, _ => true

theorem stage_leaveTry {task : TurnTask}
    (h : if task.terminalEvent then op.story.Recorded started cancelling else op.story.Settled started cancelling) :
    (op.leaveTry task).driver.Stage (op.leaveTry task).story started cancelling := by
  rw [leaveTry]
  cases op.agent <;> exact h

theorem stage_catchCancelled {task : TurnTask} (hevent : task.terminalEvent = false)
    (hopen : task.terminalWritten = false → op.story.Unsettled started cancelling)
    (hwritten : task.terminalWritten = true → op.story.Settled started cancelling) :
    (op.catchCancelled task).driver.Stage (op.catchCancelled task).story started cancelling := by
  unfold catchCancelled
  split
  · rename_i hterminal
    refine stage_leaveTry ?_
    rw [hevent]
    exact hwritten hterminal
  · rename_i hterminal
    exact ⟨hopen (Bool.eq_false_iff.mpr hterminal), hevent⟩

theorem stage_catchException {task : TurnTask} (hevent : task.terminalEvent = false)
    (hopen : task.terminalWritten = false → op.story.Unsettled started cancelling)
    (hwritten : task.terminalWritten = true → op.story.Settled started cancelling) :
    (op.catchException task).driver.Stage (op.catchException task).story started cancelling := by
  unfold catchException
  split
  · rename_i hterminal
    refine stage_leaveTry ?_
    rw [hevent]
    exact hwritten hterminal
  · rename_i hterminal
    exact ⟨hopen (Bool.eq_false_iff.mpr hterminal), hevent⟩

/-- Both handlers, for a turn that has not got its `run_end` record. -/
theorem stage_caught {task : TurnTask} (h : op.story.Unsettled started cancelling)
    (hflags : task.terminalWritten = false ∧ task.terminalEvent = false) :
    (op.catchCancelled task).driver.Stage (op.catchCancelled task).story started cancelling
      ∧ (op.catchException task).driver.Stage (op.catchException task).story started cancelling := by
  have hnot : task.terminalWritten = true → op.story.Settled started cancelling := by
    rw [hflags.1]
    simp
  exact ⟨stage_catchCancelled hflags.2 (fun _ => h) hnot, stage_catchException hflags.2 (fun _ => h) hnot⟩

/-- Both handlers, for a turn that has it. -/
theorem stage_caughtWritten {task : TurnTask} (h : op.story.Settled started cancelling)
    (hflags : task.terminalWritten = true ∧ task.terminalEvent = false) :
    (op.catchCancelled task).driver.Stage (op.catchCancelled task).story started cancelling
      ∧ (op.catchException task).driver.Stage (op.catchException task).story started cancelling := by
  have hnot : task.terminalWritten = false → op.story.Unsettled started cancelling := by
    rw [hflags.1]
    simp
  exact ⟨stage_catchCancelled hflags.2 hnot fun _ => h, stage_catchException hflags.2 hnot fun _ => h⟩

/-! ### What an await tells -/

/-- An await of `turn_start`. -/
theorem resumeStart_stage {await : StartAwait} {result : AwaitResult} (hdriver : op.driver = .starting await)
    (hstage : (Driver.starting await).Stage op.story started cancelling) (hsettles : op.settles result = true)
    (h : op.resumeStart await result = some next) : ∃ started', next.driver.Stage next.story started' cancelling := by
  cases result with
  | value =>
    cases await with
    | emitCreated =>
      obtain rfl := Option.some.inj h
      obtain ⟨hevents, hends, rfl⟩ := hstage
      refine ⟨false, rfl, ?_, hends⟩
      show op.events ++ [.queued] = history false false
      rw [show op.events = [] from hevents]
      rfl
    | emitQueued =>
      obtain rfl := Option.some.inj h
      exact ⟨started, hstage⟩
    | emitQueue =>
      obtain rfl := Option.some.inj h
      exact ⟨started, hstage, rfl, rfl⟩
  | result invoked => cases await <;> simp [resumeStart] at h
  | raised written => cases await <;> simp [resumeStart] at h
  | cancelled written => simp [settles, hdriver] at hsettles

section Task

variable {task : TurnTask} {canLock canEnter written : Bool}

/-- An await of `_execute_turn` that returns. -/
theorem resumeTurnValue_stage (hstage : task.Stage op.story started cancelling)
    (hfresh : cancelling = true → op.cancelRequested = true)
    (h : op.resumeTurnValue task canLock canEnter = some next) :
    ∃ started', next.driver.Stage next.story started' cancelling := by
  unfold TurnTask.Stage at hstage
  cases hawait : task.await with
  | created =>
    simp only [hawait] at hstage
    simp only [resumeTurnValue, hawait, Option.ite_none_left_eq_some] at h
    obtain rfl := Option.some.inj h.2
    exact ⟨started, hstage⟩
  | lock =>
    simp only [hawait] at hstage
    simp only [resumeTurnValue, hawait, Option.ite_none_right_eq_some] at h
    obtain rfl := Option.some.inj h.2
    exact ⟨started, hstage⟩
  | semaphore =>
    simp only [hawait] at hstage
    obtain ⟨⟨rfl, hopen⟩, hflags⟩ := hstage
    simp only [resumeTurnValue, hawait, Option.ite_none_right_eq_some] at h
    have hnext := h.2
    split at hnext
    · obtain rfl := Option.some.inj hnext
      exact ⟨false, (stage_caught hopen hflags).1⟩
    · -- The cancellation is asked for here, so it has not been told.
      rename_i hrequested
      obtain rfl := Option.some.inj hnext
      obtain rfl : cancelling = false := Bool.eq_false_iff.mpr fun hc => hrequested (hfresh hc)
      refine ⟨true, ⟨?_, hopen.2⟩, hflags⟩
      show op.events ++ [.started] = history true false
      rw [show op.events = history false false from hopen.1]
      rfl
  | emitStarted | emitQueue | loadAttachments | newAgent | prepareAgent | pendingInputs =>
    simp only [hawait] at hstage
    simp only [resumeTurnValue, hawait] at h
    obtain rfl := Option.some.inj h
    exact ⟨started, hstage⟩
  | invokeInput => simp [resumeTurnValue, hawait] at h
  | runEnd ending =>
    simp only [hawait] at hstage
    obtain ⟨hopen, hflags⟩ := hstage
    simp only [resumeTurnValue, hawait] at h
    split at h
    · rename_i hcancelled
      obtain rfl := Option.some.inj h
      subst hcancelled
      exact ⟨started, stage_leaveTry hopen.record⟩
    · rename_i hother
      obtain rfl := Option.some.inj h
      exact ⟨started, hopen.settle ending, rfl, decide_eq_false hother⟩
  | emitEnding ending =>
    simp only [hawait] at hstage
    obtain ⟨hsettled, hflags⟩ := hstage
    simp only [resumeTurnValue, hawait] at h
    split at h <;> obtain rfl := Option.some.inj h
    · exact ⟨started, hsettled, hflags⟩
    · exact ⟨started, stage_leaveTry (by rw [hflags.2]; exact hsettled)⟩
  | autoRename =>
    simp only [hawait] at hstage
    simp only [resumeTurnValue, hawait] at h
    obtain rfl := Option.some.inj h
    exact ⟨started, stage_leaveTry (by rw [hstage.2.2]; exact hstage.1)⟩
  | cancelledRunEnd =>
    simp only [hawait] at hstage
    simp only [resumeTurnValue, hawait] at h
    obtain rfl := Option.some.inj h
    exact ⟨started, stage_leaveTry hstage.1.record⟩
  | failedRunEnd =>
    simp only [hawait] at hstage
    simp only [resumeTurnValue, hawait] at h
    obtain rfl := Option.some.inj h
    exact ⟨started, hstage.1.settle .failed, hstage.2⟩
  | emitFailed =>
    simp only [hawait] at hstage
    simp only [resumeTurnValue, hawait] at h
    obtain rfl := Option.some.inj h
    exact ⟨started, stage_leaveTry (by rw [hstage.2]; exact hstage.1)⟩
  | closeAgent =>
    simp only [hawait] at hstage
    simp only [resumeTurnValue, hawait] at h
    obtain rfl := Option.some.inj h
    exact ⟨started, hstage⟩
  | emitLastQueue =>
    simp only [hawait] at hstage
    simp only [resumeTurnValue, hawait] at h
    split at h
    · rename_i hevent
      rw [if_pos hevent] at hstage
      obtain rfl := Option.some.inj h
      exact ⟨started, hstage.settle⟩
    · rename_i hevent
      rw [if_neg hevent] at hstage
      obtain rfl := Option.some.inj h
      exact ⟨started, hstage⟩
  | emitCancelled =>
    simp only [hawait] at hstage
    simp only [resumeTurnValue, hawait] at h
    obtain rfl := Option.some.inj h
    exact ⟨started, hstage⟩

/-- An exception in `_execute_turn`. -/
theorem resumeTurnRaised_stage (hstage : task.Stage op.story started cancelling)
    (hsettles : task.settles written = true) (h : op.resumeTurnRaised task written = some next) :
    next.driver.Stage next.story started cancelling := by
  unfold TurnTask.Stage at hstage
  unfold TurnTask.settles at hsettles
  cases hawait : task.await with
  | loadAttachments | newAgent | prepareAgent | pendingInputs | invokeInput =>
    simp only [hawait] at hstage
    simp only [resumeTurnRaised, hawait] at h
    obtain rfl := Option.some.inj h
    exact (stage_caught hstage.1 hstage.2).2
  | autoRename =>
    simp only [hawait] at hstage
    simp only [resumeTurnRaised, hawait] at h
    obtain rfl := Option.some.inj h
    exact (stage_caughtWritten hstage.1 hstage.2).2
  | runEnd ending =>
    simp only [hawait] at hstage
    simp only [hawait, Bool.not_eq_true'] at hsettles
    subst hsettles
    simp only [resumeTurnRaised, hawait] at h
    obtain rfl := Option.some.inj h
    exact (stage_caught hstage.1 hstage.2).2
  | cancelledRunEnd | failedRunEnd => simp [hawait] at hsettles
  | closeAgent =>
    simp only [hawait] at hstage
    simp only [hawait, Bool.not_eq_true'] at hsettles
    rw [hsettles] at hstage
    simp only [resumeTurnRaised, hawait] at h
    obtain rfl := Option.some.inj h
    exact hstage
  | _ => simp [resumeTurnRaised, hawait] at h

/-- A cancellation in `_execute_turn`. -/
theorem resumeTurnCancelled_stage (hstage : task.Stage op.story started cancelling)
    (hsettles : task.settles written = true) (h : op.resumeTurnCancelled task written = some next) :
    next.driver.Stage next.story started cancelling := by
  unfold TurnTask.Stage at hstage
  unfold TurnTask.settles at hsettles
  cases hawait : task.await with
  | created | cancelledRunEnd | failedRunEnd => simp [hawait] at hsettles
  | lock | semaphore =>
    simp only [hawait] at hstage
    simp only [resumeTurnCancelled, hawait] at h
    obtain rfl := Option.some.inj h
    exact (stage_caught hstage.1.2 hstage.2).1
  | emitStarted | emitQueue | loadAttachments | newAgent | prepareAgent | pendingInputs | invokeInput =>
    simp only [hawait] at hstage
    simp only [resumeTurnCancelled, hawait] at h
    obtain rfl := Option.some.inj h
    exact (stage_caught hstage.1 hstage.2).1
  | runEnd ending =>
    simp only [hawait] at hstage
    simp only [hawait, Bool.not_eq_true'] at hsettles
    subst hsettles
    simp only [resumeTurnCancelled, hawait] at h
    obtain rfl := Option.some.inj h
    exact (stage_caught hstage.1 hstage.2).1
  | emitEnding ending | autoRename =>
    simp only [hawait] at hstage
    simp only [resumeTurnCancelled, hawait] at h
    obtain rfl := Option.some.inj h
    exact (stage_caughtWritten hstage.1 hstage.2).1
  | emitFailed =>
    simp only [hawait] at hstage
    simp only [resumeTurnCancelled, hawait] at h
    obtain rfl := Option.some.inj h
    exact stage_leaveTry (by rw [hstage.2]; exact hstage.1)
  | closeAgent | emitLastQueue =>
    simp only [hawait] at hstage
    simp only [hawait, Bool.not_eq_true'] at hsettles
    rw [hsettles] at hstage
    simp only [resumeTurnCancelled, hawait] at h
    obtain rfl := Option.some.inj h
    exact hstage
  | emitCancelled =>
    simp only [hawait] at hstage
    simp only [resumeTurnCancelled, hawait] at h
    obtain rfl := Option.some.inj h
    exact hstage

end Task

/-- **What an await tells.** -/
theorem resume_stage {canLock canEnter : Bool} {result : AwaitResult}
    (hstage : op.driver.Stage op.story started cancelling) (hfresh : cancelling = true → op.cancelRequested = true)
    (hsettles : op.settles result = true) (h : op.resume canLock canEnter result = some next) :
    ∃ started', next.driver.Stage next.story started' cancelling := by
  cases hdriver : op.driver with
  | starting await =>
    rw [hdriver] at hstage
    simp only [resume, hdriver] at h
    exact resumeStart_stage hdriver hstage hsettles h
  | task task =>
    rw [hdriver] at hstage
    simp only [resume, hdriver] at h
    cases result with
    | value => exact resumeTurnValue_stage hstage hfresh h
    | result invoked =>
      simp only [resumeTurn, Option.ite_none_right_eq_some] at h
      obtain rfl := Option.some.inj h.2
      simp only [Driver.Stage, TurnTask.Stage, h.1] at hstage
      exact ⟨started, hstage⟩
    | raised written =>
      simp only [settles, hdriver] at hsettles
      exact ⟨started, resumeTurnRaised_stage hstage hsettles h⟩
    | cancelled written =>
      simp only [settles, hdriver] at hsettles
      simp only [resumeTurn, Option.ite_none_right_eq_some] at h
      exact ⟨started, resumeTurnCancelled_stage hstage hsettles h.2⟩
  | operating await =>
    rw [hdriver] at hstage
    exact hstage.elim
  | ended => simp [resume, hdriver] at h

/-- The event of a cancellation goes with the await at which it is told. -/
theorem stage_cancelling {driver : Driver} {story : Story} (hstage : driver.Stage story started false)
    (hcan : story.CanCancel) : driver.Stage ⟨story.events ++ [.cancelling], story.runEnds⟩ started true := by
  cases driver with
  | starting await =>
    cases await with
    | emitCreated =>
      have hqueued := hcan.1
      rw [hstage.1] at hqueued
      cases hqueued
    | emitQueued => exact ⟨hstage.1, hstage.2.cancel⟩
    | emitQueue => exact ⟨hstage.1, hstage.2.cancel⟩
  | task turn =>
    unfold Driver.Stage TurnTask.Stage at hstage ⊢
    cases hawait : turn.await with
    | created | lock | semaphore =>
      simp only [hawait] at hstage ⊢
      exact ⟨⟨hstage.1.1, hstage.1.2.cancel⟩, hstage.2⟩
    | emitStarted | emitQueue | loadAttachments | newAgent | prepareAgent | pendingInputs | invokeInput | runEnd ending
    | cancelledRunEnd | failedRunEnd =>
      simp only [hawait] at hstage ⊢
      exact ⟨hstage.1.cancel, hstage.2⟩
    | emitEnding ending | autoRename | emitFailed =>
      simp only [hawait] at hstage
      exact absurd hcan hstage.1.not_canCancel
    | closeAgent | emitLastQueue =>
      simp only [hawait] at hstage ⊢
      split at hstage
      · rename_i hevent
        rw [if_pos hevent]
        exact hstage.cancel
      · exact absurd hcan hstage.not_canCancel
    | emitCancelled =>
      simp only [hawait] at hstage
      exact absurd hcan hstage.not_canCancel
  | operating await => exact hstage.elim
  | ended => exact absurd hcan (Story.Settled.not_canCancel hstage)

/-- The kind of an operation stays. -/
theorem kind_cancelTask (op : RuntimeOperation) : op.cancelTask.kind = op.kind := by
  unfold cancelTask
  split <;> rfl

theorem kind_turnCancel (op : RuntimeOperation) : op.turnCancel.kind = op.kind := by
  unfold turnCancel
  split <;> rfl

theorem kind_setCancel (op : RuntimeOperation) (call : Nat) (await : Option CancelAwait) :
    (op.setCancel call await).kind = op.kind := by
  cases await <;> rfl

theorem kind_resumeCancel {call : Nat} {controller : Bool} {result : AwaitResult}
    (h : op.resumeCancel call controller result = some next) : next.kind = op.kind := by
  unfold resumeCancel at h
  split at h
  · obtain rfl := Option.some.inj h
    exact kind_setCancel (op.emit .cancelling) call _
  · split at h <;> obtain rfl := Option.some.inj h
    · exact (kind_setCancel _ _ _).trans op.kind_cancelTask
    · exact kind_setCancel _ _ _
  · obtain rfl := Option.some.inj h
    exact kind_setCancel _ _ _
  · obtain rfl := Option.some.inj h
    exact kind_setCancel _ _ _
  · obtain rfl := Option.some.inj h
    exact kind_setCancel _ _ _
  · simp at h

/-! ### A turn and its cancellation -/

/-- What has been told of a turn goes with its driver; it is cancelled by one call of `turn_cancel`, and the status
    shows it. -/
structure Telling (op : RuntimeOperation) : Prop where
  stage : ∃ started cancelling, op.driver.Stage op.story started cancelling
    ∧ (cancelling = true → op.cancelRequested = true ∧ .openSession ∉ op.cancels)
  requested : op.cancelRequested = true → op.status ≠ .queued ∧ op.status ≠ .active
  called : op.cancels ≠ [] → op.cancelRequested = true
  once : op.cancels.length ≤ 1

theorem Telling.resume (htells : op.Telling) {canLock canEnter : Bool} {result : AwaitResult}
    (hsettles : op.settles result = true) (h : op.resume canLock canEnter result = some next) : next.Telling := by
  obtain ⟨started, cancelling, hstage, hcancelling⟩ := htells.stage
  have hframe := (resume_takes h).frame
  have hrequested : next.cancelRequested = op.cancelRequested := congrArg (·.2.2.1) hframe
  have hcancels : next.cancels = op.cancels := congrArg (·.2.2.2) hframe
  obtain ⟨started', hstage'⟩ := resume_stage hstage (fun hc => (hcancelling hc).1) hsettles h
  refine ⟨⟨started', cancelling, hstage', ?_⟩, ?_, ?_, ?_⟩
  · rw [hrequested, hcancels]
    exact hcancelling
  · rw [hrequested]
    intro hreq
    cases resume_progress h with
    | goesOn kept before after status =>
      rcases status with hsame | ⟨hactive, hnot | ⟨await, hdriver⟩⟩
      · rw [hsame]
        exact htells.requested hreq
      · rw [hnot] at hreq
        cases hreq
      · rw [hdriver] at hstage
        exact hstage.elim
    | ends kept after ending status => simp [status]
    | closes kept before after status =>
      rw [status]
      exact htells.requested hreq
    | abandons left before after status =>
      rw [status]
      exact htells.requested hreq
  · rw [hrequested, hcancels]
    exact htells.called
  · rw [hcancels]
    exact htells.once

theorem Telling.cancelTask (htells : op.Telling) : op.cancelTask.Telling := by
  unfold RuntimeOperation.cancelTask
  split
  · rename_i task hdriver
    obtain ⟨started, cancelling, hstage, hcancelling⟩ := htells.stage
    rw [hdriver] at hstage
    exact ⟨⟨started, cancelling, hstage, hcancelling⟩, htells.requested, htells.called, htells.once⟩
  · exact htells

theorem Telling.turnCancel (htells : op.Telling) : op.turnCancel.Telling := by
  unfold RuntimeOperation.turnCancel
  split
  · rename_i hcancellable
    obtain ⟨hflight, hnot⟩ := Bool.and_eq_true_iff.mp hcancellable
    -- The status is `queued` or `active`, so nothing has been asked for before.
    have hfirst : op.cancelRequested = false := by
      rw [Bool.eq_false_iff]
      intro hrequested
      obtain ⟨hqueued, hactive⟩ := htells.requested hrequested
      cases hstatus : op.status with
      | queued => exact hqueued hstatus
      | active => exact hactive hstatus
      | cancelling => simp [hstatus] at hnot
      | ended ending => simp [hstatus, OperationStatus.isInFlight] at hflight
    have hnone : op.cancels = [] := by
      by_contra hsome
      rw [htells.called hsome] at hfirst
      cases hfirst
    obtain ⟨started, cancelling, hstage, hcancelling⟩ := htells.stage
    obtain rfl : cancelling = false := by
      rw [Bool.eq_false_iff]
      intro hc
      rw [(hcancelling hc).1] at hfirst
      cases hfirst
    refine ⟨⟨started, false, hstage, by simp⟩, by simp, fun _ => rfl, ?_⟩
    show (op.cancels ++ [_]).length ≤ 1
    rw [hnone]
    exact Nat.le_refl 1
  · exact htells

/-- A call of `turn_cancel` that goes on, or ends. -/
theorem Telling.setCancel (htells : op.Telling) (call : Nat) {await : Option CancelAwait}
    (hawait : await ≠ some .openSession) : (op.setCancel call await).Telling := by
  have hsub : ∀ a ∈ (op.setCancel call await).cancels, a ∈ op.cancels ∨ some a = await := by
    intro a ha
    cases await with
    | none => exact .inl (List.mem_of_mem_eraseIdx ha)
    | some b => exact (List.mem_or_eq_of_mem_set ha).imp_right fun heq => by rw [heq]
  obtain ⟨started, cancelling, hstage, hcancelling⟩ := htells.stage
  have hnext : (op.setCancel call await).driver.Stage (op.setCancel call await).story started cancelling := by
    cases await <;> exact hstage
  have hrequested : (op.setCancel call await).cancelRequested = op.cancelRequested := by cases await <;> rfl
  have hstatus : (op.setCancel call await).status = op.status := by cases await <;> rfl
  refine ⟨⟨started, cancelling, hnext, ?_⟩, ?_, ?_, ?_⟩
  · rw [hrequested]
    refine fun hc => ⟨(hcancelling hc).1, fun hmem => ?_⟩
    rcases hsub _ hmem with hold | hnew
    · exact (hcancelling hc).2 hold
    · exact hawait hnew.symm
  · rw [hrequested, hstatus]
    exact htells.requested
  · rw [hrequested]
    refine fun hne => htells.called fun hnil => hne ?_
    cases await <;> simp [RuntimeOperation.setCancel, hnil]
  · cases await with
    | none => exact Nat.le_trans (List.length_eraseIdx_le _ _) htells.once
    | some b => exact Nat.le_trans (Nat.le_of_eq (List.length_set ..)) htells.once

/-- `operation.cancelling` between `operation.queued` and the end. -/
theorem Telling.emitCancelling (htells : op.Telling) {call : Nat} (hcall : op.cancels[call]? = some .openSession)
    (hcan : op.story.CanCancel) : ((op.emit .cancelling).setCancel call (some .emitCancelling)).Telling := by
  obtain ⟨started, cancelling, hstage, hcancelling⟩ := htells.stage
  have hmem : CancelAwait.openSession ∈ op.cancels := List.mem_of_getElem? hcall
  obtain rfl : cancelling = false := by
    rw [Bool.eq_false_iff]
    exact fun hc => (hcancelling hc).2 hmem
  have hsingle : op.cancels = [.openSession] := by
    obtain ⟨await, hawait⟩ := List.length_eq_one_iff.mp (Nat.le_antisymm htells.once (List.length_pos_of_mem hmem))
    rw [hawait] at hmem ⊢
    rw [List.mem_singleton.mp hmem]
  obtain rfl : call = 0 := by
    rw [hsingle] at hcall
    obtain ⟨hlt, -⟩ := List.getElem?_eq_some_iff.mp hcall
    simpa using hlt
  refine ⟨⟨started, true, ?_, ?_⟩, htells.requested, ?_, ?_⟩
  · show op.driver.Stage ⟨op.events ++ [.cancelling], op.runEnds⟩ started true
    exact stage_cancelling hstage hcan
  · refine fun _ => ⟨htells.called (by simp [hsingle]), ?_⟩
    show CancelAwait.openSession ∉ op.cancels.set 0 .emitCancelling
    rw [hsingle]
    simp
  · exact fun _ => htells.called (by simp [hsingle])
  · show (op.cancels.set 0 .emitCancelling).length ≤ 1
    rw [hsingle]
    exact Nat.le_refl 1

theorem Telling.resumeCancel (htells : op.Telling) {call : Nat} {controller : Bool} {result : AwaitResult}
    (hcan : op.cancels[call]? = some .openSession → result = .value → op.story.CanCancel)
    (h : op.resumeCancel call controller result = some next) : next.Telling := by
  unfold RuntimeOperation.resumeCancel at h
  split at h
  · rename_i hcall
    obtain rfl := Option.some.inj h
    exact htells.emitCancelling hcall (hcan hcall rfl)
  · split at h <;> obtain rfl := Option.some.inj h
    · exact htells.cancelTask.setCancel call (by simp)
    · exact htells.setCancel call (by split <;> simp)
  · obtain rfl := Option.some.inj h
    exact htells.setCancel call (by simp)
  · obtain rfl := Option.some.inj h
    exact htells.setCancel call (by simp)
  · obtain rfl := Option.some.inj h
    exact htells.setCancel call (by simp)
  · simp at h

/-- What has been told of a turn is the beginning of a story; it is a whole one when its task has ended. -/
def Lifecycle (op : RuntimeOperation) : Prop :=
  op.story.Begins ∧ (op.driver = .ended → ∃ started cancelling, op.story.Settled started cancelling)

/-- A turn tells a story from its beginning. -/
theorem Telling.lifecycle (htells : op.Telling) : op.Lifecycle := by
  obtain ⟨started, cancelling, hstage, -⟩ := htells.stage
  refine ⟨?_, fun hended => ?_⟩
  · cases hdriver : op.driver with
    | starting await =>
      rw [hdriver] at hstage
      cases await with
      | emitCreated => exact Story.begins_nil hstage.1 hstage.2.1
      | emitQueued => exact hstage.2.begins
      | emitQueue => exact hstage.2.begins
    | task turn =>
      rw [hdriver] at hstage
      unfold Driver.Stage TurnTask.Stage at hstage
      cases hawait : turn.await with
      | created | lock | semaphore =>
        simp only [hawait] at hstage
        exact hstage.1.2.begins
      | emitStarted | emitQueue | loadAttachments | newAgent | prepareAgent | pendingInputs | invokeInput
      | runEnd ending | cancelledRunEnd | failedRunEnd =>
        simp only [hawait] at hstage
        exact hstage.1.begins
      | emitEnding ending | autoRename | emitFailed =>
        simp only [hawait] at hstage
        exact hstage.1.begins
      | closeAgent | emitLastQueue =>
        simp only [hawait] at hstage
        split at hstage
        · exact hstage.begins
        · exact hstage.begins
      | emitCancelled =>
        simp only [hawait] at hstage
        exact hstage.begins
    | operating await =>
      rw [hdriver] at hstage
      exact hstage.elim
    | ended =>
      rw [hdriver] at hstage
      exact Story.Settled.begins hstage
  · rw [hended] at hstage
    exact ⟨started, cancelling, hstage⟩

end RuntimeOperation

/-! ### Runs -/

namespace RuntimeService

/-- The step leaves a turn with a story to its end: `turn_start` is not cancelled behind the registration, the task is
    not cancelled before it begins, writing the end neither raises nor is cancelled with what it does not tell, and
    `turn_cancel` tells of the cancellation between `operation.queued` and the end. -/
def Orderly (service : RuntimeService) : ServiceStep → Prop
  | .resume operation result => ∀ op ∈ service.operations[operation]?, op.settles result = true
  | .resumeCancel operation call _ result =>
    ∀ op ∈ service.operations[operation]?,
      op.cancels[call]? = some .openSession → result = .value → op.story.CanCancel
  | _ => True

instance (service : RuntimeService) : (e : ServiceStep) → Decidable (service.Orderly e)
  | .resume operation result =>
    inferInstanceAs (Decidable (∀ op ∈ service.operations[operation]?, op.settles result = true))
  | .resumeCancel operation call _ result =>
    inferInstanceAs (Decidable (∀ op ∈ service.operations[operation]?,
      op.cancels[call]? = some .openSession → result = .value → op.story.CanCancel))
  | .turnStart _ | .sessionOperation _ | .turnCancel _ | .close => .isTrue trivial

/-- The turns of a service are told. -/
def AllTelling (service : RuntimeService) : Prop :=
  ∀ op ∈ service.operations, op.kind = .turn → op.Telling

theorem step_allTelling {service next : RuntimeService} (e : ServiceStep) (h : service.AllTelling)
    (horderly : service.Orderly e) (hstep : service.step e = some next) : next.AllTelling := by
  cases e with
  | turnStart sessionId =>
    obtain rfl := Option.some.inj hstep
    intro op hop hkind
    rcases List.mem_append.mp hop with hmem | hnew
    · exact h op hmem hkind
    · obtain rfl := List.mem_singleton.mp hnew
      exact ⟨⟨false, false, ⟨rfl, rfl, rfl⟩, by simp⟩, by simp, by simp, by simp⟩
  | sessionOperation sessionId =>
    obtain rfl := Option.some.inj hstep
    intro op hop hkind
    rcases List.mem_append.mp hop with hmem | hnew
    · exact h op hmem hkind
    · obtain rfl := List.mem_singleton.mp hnew
      cases hkind
  | resume operation result =>
    obtain ⟨op, op', hop, hop', rfl⟩ := change_eq_some_iff.mp hstep
    refine (forall_set_iff (P := fun o => o.kind = .turn → o.Telling) h hop).mpr fun hkind => ?_
    have hsame : op'.kind = op.kind := congrArg (·.1) (RuntimeOperation.resume_takes hop').frame
    exact (h op (List.mem_of_getElem? hop) (hsame.symm.trans hkind)).resume (horderly op hop) hop'
  | turnCancel operation =>
    obtain ⟨op, op', hop, hop', rfl⟩ := change_eq_some_iff.mp hstep
    obtain rfl := Option.some.inj hop'
    refine (forall_set_iff (P := fun o => o.kind = .turn → o.Telling) h hop).mpr fun hkind => ?_
    exact (h op (List.mem_of_getElem? hop) (op.kind_turnCancel.symm.trans hkind)).turnCancel
  | resumeCancel operation call controller result =>
    obtain ⟨op, op', hop, hop', rfl⟩ := change_eq_some_iff.mp hstep
    refine (forall_set_iff (P := fun o => o.kind = .turn → o.Telling) h hop).mpr fun hkind => ?_
    have hsame := RuntimeOperation.kind_resumeCancel hop'
    exact (h op (List.mem_of_getElem? hop) (hsame.symm.trans hkind)).resumeCancel (horderly op hop) hop'
  | close =>
    obtain rfl := Option.some.inj hstep
    intro op hop hkind
    obtain ⟨o, ho, rfl⟩ := List.mem_map.mp hop
    exact (h o ho (o.kind_cancelTask.symm.trans hkind)).cancelTask

/-- **The lifecycle of a turn.** In every interleaving of `turn_start`, `turn_cancel`, `close` and the turns' tasks, and
    of their exceptions and cancellations at any await, as far as the steps are orderly: the events of a turn are
    `operation.queued`, perhaps `operation.started`, perhaps `operation.cancelling`, and one end, which is the last,
    and the only `run_end` record has the same status. -/
theorem turn_lifecycle (permits : Nat) (steps : List ServiceStep) (service : RuntimeService)
    (horderly : EveryStep step Orderly { permits := permits } steps)
    (hrun : Transition.run step { permits := permits } steps = some service) :
    ∀ op ∈ service.operations, op.kind = .turn → op.Lifecycle := by
  have htelling : service.AllTelling :=
    run_invariant (I := AllTelling) (fun s e s' hs horderly hstep => step_allTelling e hs horderly hstep)
      (by simp [AllTelling]) horderly hrun
  exact fun op hop hkind => (htelling op hop hkind).lifecycle

/-- A turn that is cancelled behind `operation.started`. -/
def cancelledTurn : List ServiceStep :=
  .turnStart 0 :: List.replicate 6 (.resume 0 .value)
    ++ [.turnCancel 0, .resumeCancel 0 0 false .value, .resumeCancel 0 0 false .value, .resume 0 (.cancelled false)]
    ++ List.replicate 3 (.resume 0 .value)

theorem turn_lifecycle_cancelled : ∃ service, Transition.run step { permits := 1 } cancelledTurn = some service
    ∧ (service.operations.map fun op => op.driver) = [.ended]
    ∧ ∀ op ∈ service.operations, op.kind = .turn → op.Lifecycle :=
  ⟨_, rfl, by decide, turn_lifecycle 1 cancelledTurn _ (by decide) rfl⟩

/-- A call of `turn_cancel` that is still opening the session when the turn has ended tells of the cancellation last. -/
example : ((Transition.run step { permits := 1 }
      (.turnStart 0 :: .turnCancel 0 :: List.replicate 9 (.resume 0 .value) ++ [.resumeCancel 0 0 false .value])).map
        fun service => service.operations.map fun op => (op.driver, op.events))
    = some [(.ended, [.queued, .ended .cancelled, .cancelling])] := by
  decide

end RuntimeService

end AeloonRuntime
