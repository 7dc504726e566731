import AeloonRuntime.Core.RunProtocol
import AeloonRuntime.Core.ToolBatch

namespace AeloonRuntime

open Py Trace

/-!
# Abort protocol — what begins behind a cancellation

`cancel` sets the abort flag, and cancels the tasks that the runtimes hold at that moment.  What
begins behind it depends on where the run was then, and on whether the awaited code lets the
cancellation out.

* `Obs.begins` — a stream, a tool or a compaction begins;
* `CancelPoint.heeded` — behind that point the run looks at the flag, or what it awaits was cancelled,
  before anything else can begin;
* `Obs.swallows` — awaited code that was cancelled goes on as if it had not been;
* `AbortPhase` — what the log so far has led to, and `AbortStep` — the entries that can follow.

A compactor opens streams of its own behind its `compaction_start`.
-/

/-! ### Beginnings -/

/-- A stream is opened, a tool is executed, or a compaction starts. -/
def Obs.begins : Obs → Bool
  | .opened _ _ _ | .executed _ => true
  | .published event _ => event.type = .compactionStart
  | _ => false

/-- The compactor may be at work behind the entry; `before` is whether it may have been before. -/
def Obs.compacting (before : Bool) : Obs → Bool
  | .published event _ =>
    if event.type = .compactionStart then true
    else if event.type = .compactionEnd then false
    else before
  | .compacted _ => false
  | _ => before

/-- The compactor may be at work behind a log. -/
def compacting (log : List Obs) : Bool := log.foldl Obs.compacting false

/-! ### Responses -/

/-- Once the flag is set, nothing begins behind this response: it failed, or its calls are none or not
    executed. -/
def AssistantMessage.settles (m : AssistantMessage) : Bool :=
  m.stopReason.failed || m.toolCalls.isEmpty || m.stopReason = .length

/-- Nor is it answered with a compaction. -/
def RunRequest.harmless (req : RunRequest) (overflowAttempts : Nat) (m : AssistantMessage) : Bool :=
  !recovers req overflowAttempts m && (exhausted req overflowAttempts m || m.settles)

/-- Nor is it retried, whatever was tried before. -/
def RunRequest.final (req : RunRequest) (m : AssistantMessage) (failure : Option Exn) : Bool :=
  !isRetryableFailure req.search m failure req.model.contextWindow
    && !((m.stopReason = .error || m.stopReason = .length)
      && isContextOverflow req.search m (some req.model.contextWindow))
    && m.settles

/-! ### Tasks -/

/-- The tool was executed, or will not be. -/
def Phase.decided : Phase → Bool
  | .created | .starting | .toolCallHook _ => false
  | _ => true

/-- The task executes no tool any more, unless awaited code swallows a cancellation. -/
def Task.halted (t : Task) : Bool := t.cancelRequested || t.phase.decided

/-- A cancelled task goes on to its hooks without its request, or from them into its tool. -/
def Task.swallows (rt : ToolRuntime) (t : Task) (r : Resumption) : Bool :=
  t.cancelRequested && match t.nextPhase rt r with
    | some (.toolCallHook _) => r.delivered
    | some (.executing _) => true
    | _ => false

/-- So no task of the batch does. -/
def Batch.halted : Batch → Bool
  | .gathering tasks _ => tasks.all Task.halted
  | .inSequence _ task _ => task.halted
  | .raised _ left => left.all Task.halted
  | _ => true

/-- An exception went through, and its tasks are not left behind yet. -/
def Batch.hasRaised : Batch → Bool
  | .raised _ _ => true
  | _ => false

/-! ### Cancellations -/

/-- Behind an await of that kind, the run looks at the flag or ends what was cancelled before anything
    can begin. -/
def Site.heeds (req : RunRequest) (overflowAttempts : Nat) : Site → Bool
  | .beforeAgentStart => !(req.hasCompactor && req.contextPolicy.enabled)
  | .attemptEnd message retries => !retries && req.harmless overflowAttempts message
  | .pauseEnd interrupted => interrupted
  | .retryEnd message => req.harmless overflowAttempts message
  | .finalMessage message => message.settles
  | .queueUpdate | .turnStart | .pendingMessage | .requestHook | .retrying | .overflowAttempt
  | .overflowCompaction => false
  | .opening | .inferenceCreated | .streaming | .pausing | .pauseCancelled | .overflowFailed
  | .compaction | .toolBatch | .truncatedCall | .toolResult | .turnEnd | .agentEnd | .settled => true

/-- An await of a compaction. -/
def Site.compacts : Site → Bool
  | .compaction | .overflowCompaction => true
  | _ => false

/-- Behind that point nothing can begin: the await raises or heeds the cancellation, no compactor is at
    work, and the tasks that were left behind execute no tool any more. -/
def CancelPoint.heeded (req : RunRequest) (compacting : Bool) (p : CancelPoint) : Bool :=
  (p.raises || p.site.heeds req p.overflowAttempts) && !(compacting && p.site.compacts)
    && p.left.all Task.halted

/-- Awaited code that was cancelled goes on as if it had not been: a stream that gives a response
    behind which something can begin, or the start event or the hooks of a tool call. -/
def Obs.swallows (req : RunRequest) : Obs → Bool
  | .inferenceEnded true outcome => match outcome with
    | .error .cancelled => false
    | outcome =>
      let (message, failure) := attemptMessage req.model 0 outcome
      !req.final message failure
  | .toolStep before r => before.swallows req.tools r
  | _ => false

/-! ### The protocol -/

/-- What a log has led to. -/
inductive AbortPhase where
  /-- The flag is not set; whether a compactor may be at work. -/
  | live (compacting : Bool)
  /-- The run was cancelled at a point that heeds it. -/
  | aborted
  /-- It was cancelled at another point, or awaited code swallowed a cancellation. -/
  | lost

/-- The phase behind an entry. -/
def AbortPhase.next (req : RunRequest) : AbortPhase → Obs → AbortPhase
  | .lost, _ => .lost
  | .aborted, o => if o.swallows req then .lost else .aborted
  | .live compacting, .cancelled p => if p.heeded req compacting then .aborted else .lost
  | .live compacting, o => .live (o.compacting compacting)

/-- An entry that can follow: behind a heeded cancellation nothing begins. -/
def AbortStep (req : RunRequest) (k : AbortPhase) (o : Obs) (k' : AbortPhase) : Prop :=
  (k = .aborted → o.begins = false) ∧ k' = k.next req o

/-- An entry without a cancellation, at which nothing begins and nothing is swallowed. -/
def Obs.idle : Obs → Bool
  | .cancelled _ | .inferenceEnded _ _ | .toolStep _ _ => false
  | o => !o.begins

section Steps

variable {req : RunRequest} {log : List Obs}

/-- From a lost cancellation on, every log is allowed. -/
theorem steps_lost (log : List Obs) : Steps (AbortStep req) .lost log .lost :=
  .stutter fun _ _ => ⟨by simp, rfl⟩

/-- Without a cancellation the flag is not set. -/
theorem steps_live (req : RunRequest) (h : ∀ o ∈ log, ∀ p, o ≠ .cancelled p) (compacting : Bool) :
    ∃ compacting', Steps (AbortStep req) (.live compacting) log (.live compacting') := by
  induction log generalizing compacting with
  | nil => exact ⟨compacting, .nil _⟩
  | cons o log ih =>
    obtain ⟨compacting', hrest⟩ := ih (fun o ho => h o (List.mem_cons_of_mem _ ho)) (o.compacting compacting)
    refine ⟨compacting', .cons ⟨by simp, ?_⟩ hrest⟩
    have hother := h o List.mem_cons_self
    cases o <;> first | rfl | exact absurd rfl (hother _)

/-- Idle entries keep what holds of the phase, if it does not ask for the compactor. -/
theorem steps_idle (req : RunRequest) {P : AbortPhase → Prop} (h : ∀ o ∈ log, o.idle = true)
    {k : AbortPhase} (hP : P k)
    (hlive : ∀ {compacting compacting'}, P (.live compacting) → P (.live compacting')) :
    ∃ k', Steps (AbortStep req) k log k' ∧ P k' := by
  cases k with
  | live compacting =>
    have huncancelled : ∀ o ∈ log, ∀ p, o ≠ .cancelled p := by
      rintro o ho p rfl
      exact absurd (h _ ho) (by simp [Obs.idle])
    obtain ⟨compacting', hsteps⟩ := steps_live req huncancelled compacting
    exact ⟨_, hsteps, hlive hP⟩
  | lost => exact ⟨.lost, steps_lost log, hP⟩
  | aborted =>
    refine ⟨.aborted, .stutter fun o ho => ?_, hP⟩
    have hidle := h o ho
    cases o <;> simp_all [AbortStep, AbortPhase.next, Obs.idle, Obs.begins, Obs.swallows]

end Steps

/-! ### Tools behind a cancellation -/

section Tools

variable {req : RunRequest} {rt : ToolRuntime} {t t' : Task} {r : Resumption}

/-- A task whose cancellation is not swallowed goes on without its tool. -/
theorem halted_resume (hhalted : t.halted = true) (hkept : t.swallows rt r = false)
    (h : t.resume rt r = some t') :
    t'.halted = true ∧ ∀ callId args, t'.awaits ≠ some (.execute callId args) := by
  obtain ⟨phase, hnext, rfl⟩ := resume_eq_some_iff.mp h
  rw [Task.swallows, hnext] at hkept
  rcases nextPhase_cases hnext with ⟨-, -, rfl⟩ | ⟨hphase, hcancel, -⟩ | ⟨outcome, hphase, -, rfl⟩
    | ⟨args, outcome, hphase, rfl⟩ | ⟨args, result, -, rfl⟩ | ⟨args, result, outcome, -, -, rfl⟩
    | ⟨result, outcome, -, -, rfl⟩
  · simp [Task.halted, Phase.decided, Task.awaits]
  · simp [Task.halted, Phase.decided, hphase, hcancel] at hhalted
  · have hcancel : t.cancelRequested = true := by simpa [Task.halted, Phase.decided, hphase] using hhalted
    cases outcome with
    | error e => simp [orRaise, Task.halted, Phase.decided, Task.awaits]
    | ok u =>
      rcases afterStart_cases rt t.call with ⟨args, hafter⟩ | ⟨args, result, hafter⟩
      · have hopen : r.delivered = false := by simpa [orRaise, hafter, hcancel] using hkept
        simp [orRaise, hafter, Task.halted, Task.stillRequested, hcancel, hopen, Task.awaits]
      · simp [orRaise, hafter, Task.halted, Phase.decided, Task.awaits]
  · have hcancel : t.cancelRequested = true := by simpa [Task.halted, Phase.decided, hphase] using hhalted
    rcases afterToolCallHook_cases args outcome with hafter | ⟨result, hafter⟩
    · simp [hafter, hcancel] at hkept
    · simp [hafter, Task.halted, Phase.decided, Task.awaits]
  · simp [Task.halted, Phase.decided, Task.awaits]
  · rcases hout : outcome.bind (applyResultPatch result) with e | changed <;>
      simp [orRaise, Task.halted, Phase.decided, Task.awaits]
  · rcases outcome with e | u
    · simp [orRaise, Task.halted, Phase.decided, Task.awaits]
    · rw [orRaise]
      split <;> simp [Task.halted, Phase.decided, Task.awaits]

/-- What a tool task publishes starts no compaction. -/
theorem awaits_type {event : RunEvent} (h : t.awaits = some (.emit event) ∨ t.awaits = some (.hook event)) :
    event.type ≠ .compactionStart := by
  rw [Task.awaits] at h
  cases hphase : t.phase <;>
    simp only [hphase, Option.some.injEq, Task.Await.emit.injEq, Task.Await.hook.injEq, reduceCtorEq,
      or_false, false_or] at h
  all_goals
    rw [← h]
    simp

/-- What such a step adds to the log: nothing begins, or the cancellation was swallowed. -/
theorem steps_toolObs (hhalted : t.halted = true) (h : t.resume req.tools r = some t')
    (ctl : RunController) :
    Steps (AbortStep req) .aborted (toolObs ctl t t' r) .lost
      ∨ Steps (AbortStep req) .aborted (toolObs ctl t t' r) .aborted ∧ t'.halted = true := by
  rw [toolObs]
  cases hkept : t.swallows req.tools r with
  | true =>
    refine .inl (.cons ⟨fun _ => rfl, ?_⟩ (steps_lost _))
    exact (if_pos hkept).symm
  | false =>
    obtain ⟨hhalted', hawaits⟩ := halted_resume hhalted hkept h
    have hnext : AbortPhase.aborted.next req (.toolStep t r) = .aborted :=
      if_neg (by simp [Obs.swallows, hkept])
    refine .inr ⟨.cons ⟨fun _ => rfl, hnext.symm⟩ (.stutter fun o ho => ?_), hhalted'⟩
    · split at ho
      · simp at ho
      · rename_i event hevent
        obtain rfl := List.mem_singleton.mp ho
        exact ⟨fun _ => decide_eq_false (awaits_type (.inl hevent)), rfl⟩
      · rename_i event hevent
        obtain rfl := List.mem_singleton.mp ho
        exact ⟨fun _ => decide_eq_false (awaits_type (.inr hevent)), rfl⟩
      · exact absurd ‹_› (hawaits _ _)

/-- `ToolRuntime.cancel` halts the tasks of a batch that has not raised. -/
theorem halted_cancel (rt : ToolRuntime) {b : Batch} (h : b.hasRaised = false) :
    ((b.step rt .cancel).getD b).halted = true ∧ ((b.step rt .cancel).getD b).hasRaised = false := by
  have htask : ∀ t : Task, t.cancel.halted = true := by
    intro t
    unfold Task.cancel
    split
    · rename_i hdone
      unfold Task.done at hdone
      split at hdone
      · rename_i hphase
        simp [Task.halted, Phase.decided, hphase]
      · simp at hdone
    · simp [Task.halted]
  cases b with
  | gathering tasks failure => simp [Batch.step, Batch.halted, Batch.hasRaised, htask]
  | inSequence results task rest => simp [Batch.step, Batch.halted, Batch.hasRaised, htask]
  | skipping results call inStart rest => simp [Batch.step, Batch.halted, Batch.hasRaised]
  | returned results => simp [Batch.step, Batch.halted, Batch.hasRaised]
  | raised e left => simp [Batch.hasRaised] at h

theorem nextSkipped_halted (results : List CallResult) (calls : List ToolCall) :
    (Batch.nextSkipped results calls).halted = true := by
  cases calls <;> rfl

/-- Behind a cancellation the batch starts no further task. -/
theorem halted_wake {b b' : Batch} (hhalted : b.halted = true) (h : b.wake true = some b') :
    b'.halted = true := by
  cases b with
  | gathering tasks failure =>
    cases failure with
    | some e =>
      obtain rfl := Option.some.inj h
      simp only [Batch.halted, List.all_eq_true] at hhalted ⊢
      exact fun t ht => hhalted t (List.mem_of_mem_filter ht)
    | none =>
      rw [Batch.wake] at h
      split at h
      · obtain rfl := Option.some.inj h
        rfl
      · simp at h
  | inSequence results task rest =>
    rw [Batch.wake] at h
    split at h
    · obtain rfl := Option.some.inj h
      rfl
    · rw [if_pos rfl] at h
      obtain rfl := Option.some.inj h
      exact nextSkipped_halted _ _
    · simp at h
  | skipping results call inStart rest => simp [Batch.wake] at h
  | returned results => simp [Batch.wake] at h
  | raised e left => simp [Batch.wake] at h

/-- So it is behind an event of `_fail_unexecuted_call`. -/
theorem halted_skip {b b' : Batch} {outcome : Except Exn Unit} {now : Int}
    (h : b.step rt (.skip outcome now) = some b') : b'.halted = true := by
  simp only [Batch.step] at h
  split at h
  · obtain rfl := Option.some.inj h
    rfl
  · obtain rfl := Option.some.inj h
    rfl
  · obtain rfl := Option.some.inj h
    exact nextSkipped_halted _ _
  · simp at h

/-- A task of the batch ran on, and stays halted. -/
theorem halted_setTask {b : Batch} {index : Nat} (hhalted : b.halted = true) (h : t'.halted = true) :
    (b.setTask index t').halted = true := by
  cases b with
  | gathering tasks failure =>
    simp only [Batch.setTask, Batch.halted, List.all_eq_true] at hhalted ⊢
    intro other hother
    rcases List.mem_or_eq_of_mem_set hother with hother | rfl
    · exact hhalted other hother
    · exact h
  | inSequence results task rest => exact h
  | skipping results call inStart rest => exact hhalted
  | returned results => exact hhalted
  | raised e left => exact hhalted

theorem halted_task {b : Batch} {index : Nat} (hhalted : b.halted = true) (h : b.task? index = some t) :
    t.halted = true := by
  cases b with
  | gathering tasks failure => exact List.all_eq_true.mp hhalted t (List.mem_of_getElem? h)
  | inSequence results task rest =>
    rw [Batch.task?] at h
    split at h
    · obtain rfl := Option.some.inj h
      exact hhalted
    · simp at h
  | skipping results call inStart rest => simp [Batch.task?] at h
  | returned results => simp [Batch.task?] at h
  | raised e left => simp [Batch.task?] at h

/-- The task that ran on is the one behind the step. -/
theorem task_setTask {b : Batch} {index : Nat} (h : b.task? index = some t) (t' : Task) :
    (b.setTask index t').task? index = some t' := by
  cases b with
  | gathering tasks failure =>
    rw [Batch.setTask, Batch.task?, List.getElem?_set_self (List.getElem?_eq_some_iff.mp h).1]
  | inSequence results other rest =>
    rw [Batch.task?] at h
    split at h
    · rename_i hindex
      rw [Batch.setTask, Batch.task?, if_pos hindex]
    · simp at h
  | skipping results call inStart rest => simp [Batch.task?] at h
  | returned results => simp [Batch.task?] at h
  | raised e left => simp [Batch.task?] at h

/-- **Batches.** Behind a cancellation an event of the batch begins nothing, or swallows it. -/
theorem steps_batchObs {b b' : Batch} {event : Event} (hhalted : b.halted = true)
    (hawake : ∀ isAborted, event = .wake isAborted → isAborted = true) (hevent : event ≠ .cancel)
    (h : b.step req.tools event = some b') (ctl : RunController) :
    Steps (AbortStep req) .aborted (batchObs ctl b b' event) .lost
      ∨ Steps (AbortStep req) .aborted (batchObs ctl b b' event) .aborted ∧ b'.halted = true := by
  have hskip : Steps (AbortStep req) .aborted
      (b'.skipEvent?.toList.map fun event => .published event ctl) .aborted := by
    refine .stutter fun o ho => ⟨fun _ => ?_, ?_⟩ <;> obtain ⟨published, hpublished, rfl⟩ := List.mem_map.mp ho
    · unfold Batch.skipEvent? at hpublished
      split at hpublished <;> simp at hpublished <;> rw [hpublished] <;> rfl
    · rfl
  cases event with
  | cancel => exact absurd rfl hevent
  | wake isAborted =>
    obtain rfl := hawake isAborted rfl
    exact .inr ⟨hskip, halted_wake hhalted h⟩
  | skip outcome now => exact .inr ⟨hskip, halted_skip h⟩
  | resume index r =>
    obtain ⟨t, htask, hstep⟩ := Option.bind_eq_some_iff.mp h
    obtain ⟨t', hresume, rfl⟩ := Option.map_eq_some_iff.mp hstep
    have hstay := halted_task hhalted htask
    rw [batchObs, htask, task_setTask htask]
    rcases steps_toolObs hstay hresume ctl with hsteps | ⟨hsteps, hdone⟩
    · exact .inl hsteps
    · exact .inr ⟨hsteps, halted_setTask hhalted hdone⟩

end Tools

end AeloonRuntime
