import AeloonRuntime.Core.ToolRuntime
import Mathlib.Algebra.Ring.Nat

namespace AeloonRuntime

open Py Transition

/-!
# Tool batch — one result for every call

When `execute_calls` returns one result per call, and when it raises instead.

* `Task.CancelLost` — a cancellation is raised in `_execute_call` outside its `try`: before the first
  step, in the start or end event, or in the result hooks;
* `Task.Orderly` — the event sink and the result hooks raise nothing of their own and let a
  cancellation out;
* `execute_calls_iff` — in an orderly run the batch ends with one result per call, in order, if and
  only if no cancellation is lost.
-/

/-! ### Cancellations -/

/-- The awaits of a call that are left. -/
def Phase.remaining : Phase → Nat
  | .created => 6
  | .starting => 5
  | .toolCallHook _ => 4
  | .executing _ => 3
  | .resultHook _ _ => 2
  | .ending _ => 1
  | .finished _ => 0

namespace Task

/-- An open cancellation is raised in the awaited code. -/
def interrupted (t : Task) (r : Resumption) : Bool := t.cancelRequested && r.delivered

/-- The event sink and the result hooks raise nothing of their own and let a cancellation out. -/
def Orderly (t : Task) (r : Resumption) : Prop :=
  match t.phase, r.reply with
  | .starting, .emitted outcome =>
    outcome = if t.interrupted r then .error .cancelled else .ok ()
  | .resultHook _ result, .patched outcome =>
    if t.interrupted r then outcome = .error .cancelled
    else ∃ patch changed, outcome = .ok patch ∧ applyResultPatch result patch = .ok changed
  | .ending _, .emitted outcome =>
    outcome = if t.interrupted r then .error .cancelled else .ok ()
  | _, _ => True

/-- A cancellation is raised where `_execute_call` does not catch it: before its first step, in the
    start event, in the result hooks, in the end event or as the coroutine returns. -/
def CancelLost (t : Task) (r : Resumption) : Prop :=
  t.cancelRequested = true ∧
    match t.phase with
    | .created => True
    | .starting => r.delivered = true
    | .resultHook _ _ => r.delivered = true
    | .ending _ => True
    | _ => False

end Task

/-- The ids and names that results carry. -/
def answeredBy (results : List CallResult) : List (String × String) :=
  results.map fun result => (result.1.toolCallId, result.1.toolName)

/-- The ids and names that calls ask for. -/
def askedBy (calls : List ToolCall) : List (String × String) :=
  calls.map fun call => (call.id, call.name)

/-! ### One task -/

section Task

variable {rt : ToolRuntime} {t t' : Task} {r : Resumption}

/-- A step of a task leads to its next phase. -/
theorem resume_eq_some_iff : t.resume rt r = some t' ↔
    ∃ phase, t.nextPhase rt r = some phase
      ∧ t' = { t with phase := phase, cancelRequested := t.stillRequested r } := by
  unfold Task.resume
  rw [Option.map_eq_some_iff]
  constructor
  · rintro ⟨phase, hphase, rfl⟩
    exact ⟨phase, hphase, rfl⟩
  · rintro ⟨phase, hphase, rfl⟩
    exact ⟨phase, hphase, rfl⟩

theorem resume_call (h : t.resume rt r = some t') : t'.call = t.call := by
  obtain ⟨phase, -, rfl⟩ := resume_eq_some_iff.mp h
  rfl

/-- From the start event, a call goes to its hooks or straight to a result. -/
theorem afterStart_cases (rt : ToolRuntime) (call : ToolCall) :
    (∃ args, rt.afterStart call = .toolCallHook args)
      ∨ ∃ args result, rt.afterStart call = .resultHook args result := by
  unfold ToolRuntime.afterStart
  split
  · exact .inr ⟨_, _, rfl⟩
  · split
    · exact .inr ⟨_, _, rfl⟩
    · split
      · exact .inr ⟨_, _, rfl⟩
      · exact .inl ⟨_, rfl⟩

/-- From the `tool_call` hooks, a call goes into its tool or straight to a result. -/
theorem afterToolCallHook_cases (args : Dict) (outcome : Except Exn Dict) :
    afterToolCallHook args outcome = .executing args
      ∨ ∃ result, afterToolCallHook args outcome = .resultHook args result := by
  unfold afterToolCallHook
  split
  · exact .inr ⟨_, rfl⟩
  · split
    · exact .inr ⟨_, rfl⟩
    · exact .inl rfl

/-- What a step of a task can do: begin, go on to a later await, or end. -/
theorem nextPhase_cases {phase : Phase} (h : t.nextPhase rt r = some phase) :
    (t.phase = .created ∧ t.cancelRequested = true ∧ phase = .finished (.error .cancelled))
    ∨ (t.phase = .created ∧ t.cancelRequested = false ∧ phase = .starting)
    ∨ (∃ outcome, t.phase = .starting ∧ r.reply = .emitted outcome
        ∧ phase = orRaise outcome fun _ => rt.afterStart t.call)
    ∨ (∃ args outcome, t.phase = .toolCallHook args ∧ phase = afterToolCallHook args outcome)
    ∨ (∃ args result, t.phase = .executing args ∧ phase = .resultHook args result)
    ∨ (∃ args result outcome, t.phase = .resultHook args result ∧ r.reply = .patched outcome
        ∧ phase = orRaise (outcome.bind (applyResultPatch result)) .ending)
    ∨ (∃ result outcome, t.phase = .ending result ∧ r.reply = .emitted outcome
        ∧ phase = orRaise outcome fun _ =>
            if t.stillRequested r then .finished (.error .cancelled)
            else .finished (.ok (toolResultMessage t.call result r.now, result.terminate))) := by
  cases hphase : t.phase <;> cases hreply : r.reply <;> simp only [Task.nextPhase, hphase, hreply] at h
  case created.started =>
    cases hcancel : t.cancelRequested <;> simp [hcancel] at h <;> simp [h]
  all_goals
    simp only [Option.some.injEq, reduceCtorEq] at h
  all_goals simp [← h]

/-- A lost cancellation ends the task cancelled, sooner or later: at once, as nothing catches it. -/
theorem resume_lost (horderly : t.Orderly r) (hlost : t.CancelLost r)
    (h : t.resume rt r = some t') : t'.failure? = some .cancelled := by
  obtain ⟨phase, hnext, rfl⟩ := resume_eq_some_iff.mp h
  obtain ⟨hcancel, hwhere⟩ := hlost
  show Task.failure? { t with phase := phase, cancelRequested := _ } = _
  rcases nextPhase_cases hnext with ⟨-, -, rfl⟩ | ⟨-, hopen, -⟩ | ⟨outcome, hphase, hreply, rfl⟩
    | ⟨args, outcome, hphase, -⟩ | ⟨args, result, hphase, -⟩
    | ⟨args, result, outcome, hphase, hreply, rfl⟩ | ⟨result, outcome, hphase, hreply, rfl⟩
  · rfl
  · exact absurd hopen (by simp [hcancel])
  · simp only [hphase] at hwhere
    simp only [Task.Orderly, hphase, hreply, Task.interrupted, hcancel, hwhere] at horderly
    simp [horderly, orRaise, Task.failure?]
  · simp [hphase] at hwhere
  · simp [hphase] at hwhere
  · simp only [hphase] at hwhere
    simp only [Task.Orderly, hphase, hreply, Task.interrupted, hcancel, hwhere] at horderly
    obtain rfl : outcome = .error .cancelled := by simpa using horderly
    rfl
  · simp only [Task.Orderly, hphase, hreply, Task.interrupted, hcancel] at horderly
    cases hdelivered : r.delivered <;>
      simp [horderly, hdelivered, orRaise, Task.failure?, Task.stillRequested, hcancel]

/-- Where no cancellation is lost, the task raises nothing, and its result is its call's. -/
theorem resume_kept (horderly : t.Orderly r) (hkept : ¬ t.CancelLost r)
    (h : t.resume rt r = some t') :
    t'.failure? = none ∧ ∀ result ∈ t'.result?,
      result.1.toolCallId = t.call.id ∧ result.1.toolName = t.call.name := by
  obtain ⟨phase, hnext, rfl⟩ := resume_eq_some_iff.mp h
  show Task.failure? { t with phase := phase, cancelRequested := _ } = _ ∧
    ∀ result ∈ Task.result? { t with phase := phase, cancelRequested := _ }, _
  rcases nextPhase_cases hnext with ⟨hphase, hcancel, -⟩ | ⟨-, -, rfl⟩ | ⟨outcome, hphase, hreply, rfl⟩
    | ⟨args, outcome, -, rfl⟩ | ⟨args, result, -, rfl⟩
    | ⟨args, result, outcome, hphase, hreply, rfl⟩ | ⟨result, outcome, hphase, hreply, rfl⟩
  · exact absurd ⟨hcancel, by simp [hphase]⟩ hkept
  · simp [Task.failure?, Task.result?]
  · have hquiet : t.interrupted r = false := by
      simpa [Task.CancelLost, hphase, Task.interrupted] using hkept
    simp only [Task.Orderly, hphase, hreply, hquiet] at horderly
    rw [horderly]
    rcases afterStart_cases rt t.call with ⟨args, hafter⟩ | ⟨args, result, hafter⟩ <;>
      simp [orRaise, hafter, Task.failure?, Task.result?]
  · rcases afterToolCallHook_cases args outcome with hafter | ⟨result, hafter⟩ <;>
      simp [hafter, Task.failure?, Task.result?]
  · simp [Task.failure?, Task.result?]
  · have hquiet : t.interrupted r = false := by
      simpa [Task.CancelLost, hphase, Task.interrupted] using hkept
    simp only [Task.Orderly, hphase, hreply, hquiet] at horderly
    obtain ⟨patch, changed, rfl, hpatch⟩ := horderly
    simp [orRaise, Except.bind, hpatch, Task.failure?, Task.result?]
  · have hcancel : t.cancelRequested = false := by
      simpa [Task.CancelLost, hphase] using hkept
    simp only [Task.Orderly, hphase, hreply, Task.interrupted, hcancel] at horderly
    simp [horderly, orRaise, Task.stillRequested, hcancel, Task.failure?, Task.result?,
      toolResultMessage]

theorem orRaise_remaining {α : Type} (outcome : Except Exn α) {goOn : α → Phase} {n : Nat}
    (h : ∀ a, (goOn a).remaining ≤ n) : (orRaise outcome goOn).remaining ≤ n := by
  cases outcome with
  | error e => exact Nat.zero_le n
  | ok a => exact h a

/-- A step leaves one await less. -/
theorem resume_remaining (h : t.resume rt r = some t') :
    t'.phase.remaining + 1 ≤ t.phase.remaining := by
  obtain ⟨phase, hnext, rfl⟩ := resume_eq_some_iff.mp h
  show phase.remaining + 1 ≤ _
  rcases nextPhase_cases hnext with ⟨hphase, -, rfl⟩ | ⟨hphase, -, rfl⟩ | ⟨outcome, hphase, -, rfl⟩
    | ⟨args, outcome, hphase, rfl⟩ | ⟨args, result, hphase, rfl⟩
    | ⟨args, result, outcome, hphase, -, rfl⟩ | ⟨result, outcome, hphase, -, rfl⟩
  all_goals rw [hphase]
  · simp [Phase.remaining]
  · simp [Phase.remaining]
  · refine Nat.succ_le_succ (orRaise_remaining outcome fun _ => ?_)
    rcases afterStart_cases rt t.call with ⟨args, hafter⟩ | ⟨args, result, hafter⟩ <;>
      simp [hafter, Phase.remaining]
  · rcases afterToolCallHook_cases args outcome with hafter | ⟨result, hafter⟩ <;>
      simp [hafter, Phase.remaining]
  · simp [Phase.remaining]
  · exact Nat.succ_le_succ (orRaise_remaining _ fun _ => Nat.le_refl 1)
  · refine Nat.succ_le_succ (orRaise_remaining outcome fun _ => ?_)
    split <;> exact Nat.le_refl 0

/-- A task that is not done awaits something that can end. -/
theorem exists_resume (rt : ToolRuntime) (h : t.done = false) : ∃ r t', t.resume rt r = some t' := by
  have hnext : ∃ r, (t.nextPhase rt r).isSome := by
    unfold Task.done at h
    cases hphase : t.phase with
    | created =>
      refine ⟨{ reply := .started }, ?_⟩
      cases hcancel : t.cancelRequested <;> simp [Task.nextPhase, hphase, hcancel]
    | starting => exact ⟨{ reply := .emitted (.ok ()) }, by simp [Task.nextPhase, hphase]⟩
    | toolCallHook args => exact ⟨{ reply := .hooked (.ok []) }, by simp [Task.nextPhase, hphase]⟩
    | executing args =>
      exact ⟨{ reply := .executed (.error .cancelled) }, by simp [Task.nextPhase, hphase]⟩
    | resultHook args result =>
      exact ⟨{ reply := .patched (.ok {}) }, by simp [Task.nextPhase, hphase]⟩
    | ending result => exact ⟨{ reply := .emitted (.ok ()) }, by simp [Task.nextPhase, hphase]⟩
    | finished outcome => simp [hphase] at h
  obtain ⟨r, hr⟩ := hnext
  obtain ⟨phase, hphase⟩ := Option.isSome_iff_exists.mp hr
  exact ⟨r, _, resume_eq_some_iff.mpr ⟨phase, hphase, rfl⟩⟩

end Task

/-! ### The batch -/

/-- The task raised nothing, and its result is its call's. -/
def Task.Sound (t : Task) : Prop :=
  t.failure? = none ∧ ∀ result ∈ t.result?,
    result.1.toolCallId = t.call.id ∧ result.1.toolName = t.call.name

/-- Any event but a call of `cancel`. -/
def Event.isProgress : Event → Bool
  | .cancel => false
  | _ => true

namespace Batch

/-- The sinks and hooks behind an event do their part. -/
def Orderly (b : Batch) : Event → Prop
  | .resume index r => ∀ task ∈ b.task? index, task.Orderly r
  | .skip outcome _ => outcome = .ok ()
  | _ => True

/-- The event raises a cancellation where `_execute_call` does not catch it. -/
def CancelLost (b : Batch) : Event → Prop
  | .resume index r => ∃ task ∈ b.task? index, task.CancelLost r
  | _ => False

/-- Nothing more happens in the batch. -/
def Settled (rt : ToolRuntime) (b : Batch) : Prop :=
  ∀ ev, ev.isProgress = true → b.step rt ev = none

/-- The batch on its way to one result for every call. -/
def Fits (calls : List ToolCall) : Batch → Prop
  | .gathering tasks failure =>
    tasks.map Task.call = calls ∧ (∀ t ∈ tasks, t.Sound) ∧ failure = none
  | .inSequence results task rest =>
    answeredBy results ++ askedBy (task.call :: rest) = askedBy calls ∧ task.Sound
  | .skipping results call _ rest => answeredBy results ++ askedBy (call :: rest) = askedBy calls
  | .returned results => answeredBy results = askedBy calls
  | .raised _ _ => False

/-- The batch behind an uncaught exception. -/
def Broken : Batch → Prop
  | .gathering _ failure => failure ≠ none
  | .inSequence _ task _ => ∃ e, task.phase = .finished (.error e)
  | .raised _ _ => True
  | _ => False

/-- The awaits that are left, those of `execute_calls` included. -/
def remaining : Batch → Nat
  | .gathering tasks _ => (tasks.map (·.phase.remaining)).sum + 1
  | .inSequence _ task rest => task.phase.remaining + 1 + 7 * rest.length
  | .skipping _ _ inStart rest => (if inStart then 2 else 1) + 2 * rest.length
  | .returned _ => 0
  | .raised _ _ => 0

variable {rt : ToolRuntime} {calls : List ToolCall} {b b' : Batch}

/-! ### One result for every call -/

/-- A task without an exception is done once it has a result. -/
theorem done_iff_of_sound {t : Task} (h : t.failure? = none) :
    t.done = true ↔ t.result?.isSome = true := by
  unfold Task.failure? at h
  unfold Task.done Task.result?
  cases hphase : t.phase with
  | finished outcome =>
    cases outcome with
    | error e => simp [hphase] at h
    | ok result => rfl
  | _ => simp

/-- The results of tasks that are all done. -/
theorem answeredBy_results {tasks : List Task} (hsound : ∀ t ∈ tasks, t.Sound)
    (hdone : ∀ t ∈ tasks, t.done = true) :
    answeredBy (tasks.filterMap Task.result?) = askedBy (tasks.map Task.call) := by
  induction tasks with
  | nil => rfl
  | cons t tasks ih =>
    obtain ⟨hfailure, hresult⟩ := hsound t (by simp)
    have hsome := (done_iff_of_sound hfailure).mp (hdone t (by simp))
    obtain ⟨result, hr⟩ := Option.isSome_iff_exists.mp hsome
    obtain ⟨hid, hname⟩ := hresult result hr
    have htail := ih (fun t ht => hsound t (by simp [ht])) fun t ht => hdone t (by simp [ht])
    rw [List.filterMap_cons_some hr]
    show (result.1.toolCallId, result.1.toolName) :: answeredBy _
      = (t.call.id, t.call.name) :: askedBy _
    rw [hid, hname, htail]

theorem start_sound (call : ToolCall) : (Task.start call).Sound :=
  ⟨rfl, by simp [Task.start, Task.result?]⟩

theorem nextCall_fits {results : List CallResult} {rest : List ToolCall}
    (h : answeredBy results ++ askedBy rest = askedBy calls) : (nextCall results rest).Fits calls := by
  cases rest with
  | nil => simpa [nextCall, Fits, askedBy] using h
  | cons call rest => exact ⟨h, start_sound call⟩

theorem nextSkipped_fits {results : List CallResult} {rest : List ToolCall}
    (h : answeredBy results ++ askedBy rest = askedBy calls) :
    (nextSkipped results rest).Fits calls := by
  cases rest with
  | nil => simpa [nextSkipped, Fits, askedBy] using h
  | cons call rest => exact h

/-- The batch begins on its way. -/
theorem start_fits (rt : ToolRuntime) (calls : List ToolCall) : (start rt calls).Fits calls := by
  unfold start
  split
  · exact nextCall_fits rfl
  · split
    · rename_i hempty
      rw [List.isEmpty_iff.mp hempty]
      rfl
    · refine ⟨by simp [Function.comp_def, Task.start], ?_, rfl⟩
      intro t ht
      obtain ⟨call, -, rfl⟩ := List.mem_map.mp ht
      exact start_sound call

/-- A result that answers its call moves that call from the asked to the answered. -/
theorem answered_concat {results : List CallResult} {call : ToolCall} {rest : List ToolCall}
    {result : CallResult} (hid : result.1.toolCallId = call.id) (hname : result.1.toolName = call.name)
    (h : answeredBy results ++ askedBy (call :: rest) = askedBy calls) :
    answeredBy (results ++ [result]) ++ askedBy rest = askedBy calls := by
  rw [← h]
  simp [answeredBy, askedBy, hid, hname]

theorem cancel_call (t : Task) : t.cancel.call = t.call := by
  unfold Task.cancel
  split <;> rfl

theorem cancel_phase (t : Task) : t.cancel.phase = t.phase := by
  unfold Task.cancel
  split <;> rfl

theorem cancel_sound {t : Task} (h : t.Sound) : t.cancel.Sound := by
  unfold Task.Sound Task.failure? Task.result? at *
  rw [cancel_phase, cancel_call]
  exact h

/-- `cancel` breaks no batch. -/
theorem cancel_fits (hfits : b.Fits calls) (h : b.step rt .cancel = some b') : b'.Fits calls := by
  cases b with
  | gathering tasks failure =>
    obtain rfl : _ = b' := by simpa [step] using h
    obtain ⟨hcalls, hsound, hfailure⟩ := hfits
    refine ⟨by simpa [Function.comp_def, cancel_call] using hcalls, ?_, hfailure⟩
    intro t ht
    obtain ⟨t, hmem, rfl⟩ := List.mem_map.mp ht
    exact cancel_sound (hsound t hmem)
  | inSequence results task rest =>
    obtain rfl : _ = b' := by simpa [step] using h
    exact ⟨by rw [cancel_call]; exact hfits.1, cancel_sound hfits.2⟩
  | skipping results call inStart rest =>
    obtain rfl : _ = b' := by simpa [step] using h
    exact hfits
  | returned results => simp [step] at h
  | raised e left => simp [step] at h

/-- A task that runs on without losing a cancellation breaks no batch. -/
theorem setTask_fits {index : Nat} {task task' : Task} {r : Resumption} (hfits : b.Fits calls)
    (htask : b.task? index = some task) (horderly : task.Orderly r) (hkept : ¬ task.CancelLost r)
    (hresume : task.resume rt r = some task') : (b.setTask index task').Fits calls := by
  have hcall := resume_call hresume
  have hsound' : task'.Sound := by
    obtain ⟨hfailure, hresult⟩ := resume_kept horderly hkept hresume
    rw [← hcall] at hresult
    exact ⟨hfailure, hresult⟩
  cases b with
  | gathering tasks failure =>
    obtain ⟨hcalls, hsound, rfl⟩ := hfits
    obtain ⟨hlt, hget⟩ := List.getElem?_eq_some_iff.mp htask
    refine ⟨?_, ?_, by simp [hsound'.1]⟩
    · rw [List.map_set, hcall, ← hget, ← List.map_set, List.set_getElem_self, hcalls]
    · intro t ht
      rcases List.mem_or_eq_of_mem_set ht with ht | rfl
      · exact hsound t ht
      · exact hsound'
  | inSequence results current rest =>
    obtain ⟨-, rfl⟩ : index = results.length ∧ current = task := by simpa [task?] using htask
    exact ⟨by rw [hcall]; exact hfits.1, hsound'⟩
  | skipping results call inStart rest => simp [task?] at htask
  | returned results => simp [task?] at htask
  | raised e left => simp [task?] at htask

/-- Where `execute_calls` runs on, the results it collects are those of the calls. -/
theorem wake_fits {isAborted : Bool} (hfits : b.Fits calls) (h : b.wake isAborted = some b') :
    b'.Fits calls := by
  cases b with
  | gathering tasks failure =>
    obtain ⟨hcalls, hsound, rfl⟩ := hfits
    simp only [wake] at h
    split at h
    · rename_i hdone
      obtain rfl : _ = b' := by simpa using h
      show answeredBy _ = _
      rw [answeredBy_results hsound (List.all_eq_true.mp hdone), hcalls]
    · simp at h
  | inSequence results task rest =>
    obtain ⟨hcalls, hfailure, hresult⟩ := hfits
    simp only [wake] at h
    split at h
    · rename_i e hphase
      simp [Task.failure?, hphase] at hfailure
    · rename_i result hphase
      obtain ⟨hid, hname⟩ := hresult result (by simp [Task.result?, hphase])
      have hnext := answered_concat hid hname hcalls
      split at h
      · obtain rfl : _ = b' := by simpa using h
        exact nextSkipped_fits hnext
      · obtain rfl : _ = b' := by simpa using h
        exact nextCall_fits hnext
    · simp at h
  | skipping results call inStart rest => simp [wake] at h
  | returned results => simp [wake] at h
  | raised e left => simp [wake] at h

/-- **Step.** Where no cancellation is lost, a batch on its way stays on it. -/
theorem step_fits {ev : Event} (hfits : b.Fits calls) (horderly : b.Orderly ev)
    (hkept : ¬ b.CancelLost ev) (h : b.step rt ev = some b') : b'.Fits calls := by
  cases ev with
  | cancel => exact cancel_fits hfits h
  | resume index r =>
    simp only [step, Option.bind_eq_some_iff, Option.map_eq_some_iff] at h
    obtain ⟨task, htask, task', hresume, rfl⟩ := h
    exact setTask_fits hfits htask (horderly task htask) (fun hlost => hkept ⟨task, htask, hlost⟩)
      hresume
  | wake isAborted => exact wake_fits hfits h
  | skip outcome now =>
    obtain rfl : outcome = .ok () := horderly
    cases b with
    | skipping results call inStart rest =>
      cases inStart with
      | true =>
        obtain rfl : _ = b' := by simpa [step] using h
        exact hfits
      | false =>
        obtain rfl : _ = b' := by simpa [step] using h
        exact nextSkipped_fits (answered_concat rfl rfl hfits)
    | gathering tasks failure => simp [step] at h
    | inSequence results task rest => simp [step] at h
    | returned results => simp [step] at h
    | raised e left => simp [step] at h

/-! ### A lost cancellation -/

theorem phase_of_failure {t : Task} {e : Exn} (h : t.failure? = some e) :
    t.phase = .finished (.error e) := by
  unfold Task.failure? at h
  split at h
  · rename_i e' hphase
    rw [hphase, Option.some.inj h]
  · simp at h

/-- A lost cancellation breaks the batch. -/
theorem step_lost {ev : Event} (horderly : b.Orderly ev) (hlost : b.CancelLost ev)
    (h : b.step rt ev = some b') : b'.Broken := by
  cases ev with
  | cancel => exact absurd hlost id
  | wake isAborted => exact absurd hlost id
  | skip outcome now => exact absurd hlost id
  | resume index r =>
    obtain ⟨lost, hmem, hlost⟩ := hlost
    simp only [step, Option.bind_eq_some_iff, Option.map_eq_some_iff] at h
    obtain ⟨task, htask, task', hresume, rfl⟩ := h
    obtain rfl : lost = task := Option.some.inj (hmem.symm.trans htask)
    have hfailure := resume_lost (horderly lost hmem) hlost hresume
    cases b with
    | gathering tasks failure =>
      show failure.or task'.failure? ≠ none
      simp [hfailure]
    | inSequence results current rest => exact ⟨_, phase_of_failure hfailure⟩
    | skipping results call inStart rest => simp [task?] at htask
    | returned results => simp [task?] at htask
    | raised e left => simp [task?] at htask

/-- A task that is done runs no more. -/
theorem resume_done {t : Task} {r : Resumption} (h : t.done = true) : t.resume rt r = none := by
  unfold Task.done at h
  split at h
  · rename_i outcome hphase
    simp [Task.resume, Task.nextPhase, hphase]
  · simp at h

/-- A broken batch stays broken. -/
theorem step_broken {ev : Event} (hbroken : b.Broken) (h : b.step rt ev = some b') : b'.Broken := by
  cases b with
  | gathering tasks failure =>
    cases ev with
    | cancel =>
      obtain rfl : _ = b' := by simpa [step] using h
      exact hbroken
    | resume index r =>
      simp only [step, Option.bind_eq_some_iff, Option.map_eq_some_iff] at h
      obtain ⟨task, -, task', -, rfl⟩ := h
      show failure.or task'.failure? ≠ none
      have hsome : failure ≠ none := hbroken
      cases failure <;> simp_all
    | wake isAborted =>
      cases failure with
      | none => exact absurd rfl hbroken
      | some e =>
        obtain rfl : _ = b' := by simpa [step, wake] using h
        trivial
    | skip outcome now => simp [step] at h
  | inSequence results task rest =>
    obtain ⟨e, hphase⟩ : ∃ e, task.phase = .finished (.error e) := hbroken
    have hdone : task.done = true := by simp [Task.done, hphase]
    cases ev with
    | cancel =>
      obtain rfl : _ = b' := by simpa [step] using h
      exact ⟨e, by rw [cancel_phase, hphase]⟩
    | resume index r =>
      simp only [step, Option.bind_eq_some_iff, Option.map_eq_some_iff] at h
      obtain ⟨current, hcurrent, task', hresume, -⟩ := h
      obtain ⟨-, rfl⟩ : index = results.length ∧ task = current := by simpa [task?] using hcurrent
      rw [resume_done hdone] at hresume
      simp at hresume
    | wake isAborted =>
      obtain rfl : _ = b' := by simpa [step, wake, hphase] using h
      trivial
    | skip outcome now => simp [step] at h
  | skipping results call inStart rest => exact absurd hbroken id
  | returned results => exact absurd hbroken id
  | raised e left => cases ev <;> simp [step, task?, wake] at h

/-- A run that returned lost no cancellation. -/
theorem kept_of_returned {events : List Event} {results : List CallResult}
    (horderly : EveryStep (Batch.step rt) Orderly b events)
    (h : run rt b events = some (.returned results)) :
    EveryStep (Batch.step rt) (fun b ev => ¬ b.CancelLost ev) b events := by
  induction events generalizing b with
  | nil => trivial
  | cons ev events ih =>
    obtain ⟨mid, hstep, hrest⟩ := run_cons_eq_some_iff.mp h
    refine everyStep_cons hstep ?_ (ih (horderly.2 mid hstep) hrest)
    intro hlost
    have hbroken := run_invariant (P := fun _ _ => True) (fun _ _ _ hI _ hs => step_broken hI hs)
      (step_lost horderly.1 hlost hstep) (everyStep_of_forall (fun _ _ => trivial) mid events) hrest
    exact absurd hbroken id

/-! ### The end of a batch -/

/-- A batch on its way that is settled has returned. -/
theorem returned_of_settled (hfits : b.Fits calls) (hsettled : b.Settled rt) :
    ∃ results, b = .returned results := by
  cases b with
  | returned results => exact ⟨results, rfl⟩
  | raised e left => exact absurd hfits id
  | gathering tasks failure =>
    obtain ⟨-, -, rfl⟩ := hfits
    have hwake := hsettled (.wake false) rfl
    simp only [step, wake] at hwake
    split at hwake
    · simp at hwake
    · rename_i hnot
      obtain ⟨t, ht, hdone⟩ : ∃ t ∈ tasks, t.done = false := by simpa using hnot
      obtain ⟨index, hlt, rfl⟩ := List.getElem_of_mem ht
      obtain ⟨r, t', hresume⟩ := exists_resume rt hdone
      have hnone := hsettled (.resume index r) rfl
      simp [step, task?, hlt, hresume] at hnone
  | inSequence results task rest =>
    cases hdone : task.done with
    | false =>
      obtain ⟨r, t', hresume⟩ := exists_resume rt hdone
      have hnone := hsettled (.resume results.length r) rfl
      simp [step, task?, hresume] at hnone
    | true =>
      obtain ⟨result, hresult⟩ :=
        Option.isSome_iff_exists.mp ((done_iff_of_sound hfits.2.1).mp hdone)
      have hphase : task.phase = .finished (.ok result) := by
        unfold Task.result? at hresult
        split at hresult
        · rename_i result' hphase
          rw [hphase, Option.some.inj hresult]
        · simp at hresult
      have hnone := hsettled (.wake true) rfl
      simp [step, wake, hphase] at hnone
  | skipping results call inStart rest =>
    have hnone := hsettled (.skip (.ok ()) 0) rfl
    cases inStart <;> simp [step] at hnone

theorem sum_set_remaining {tasks : List Task} {index : Nat} {task : Task} (task' : Task)
    (hget : tasks[index]? = some task) :
    ((tasks.set index task').map (·.phase.remaining)).sum + task.phase.remaining
      = (tasks.map (·.phase.remaining)).sum + task'.phase.remaining := by
  induction tasks generalizing index with
  | nil => simp at hget
  | cons t tasks ih =>
    cases index with
    | zero =>
      obtain rfl : t = task := by simpa using hget
      simp only [List.set_cons_zero, List.map_cons, List.sum_cons]
      omega
    | succ index =>
      have htail := ih (by simpa using hget)
      simp only [List.set_cons_succ, List.map_cons, List.sum_cons]
      omega

theorem nextCall_remaining (results : List CallResult) (rest : List ToolCall) :
    (nextCall results rest).remaining ≤ 7 * rest.length := by
  cases rest with
  | nil => exact Nat.le_refl 0
  | cons call rest =>
    show 6 + 1 + 7 * rest.length ≤ 7 * (rest.length + 1)
    omega

theorem nextSkipped_remaining (results : List CallResult) (rest : List ToolCall) :
    (nextSkipped results rest).remaining ≤ 2 * rest.length := by
  cases rest with
  | nil => exact Nat.le_refl 0
  | cons call rest =>
    show 2 + 2 * rest.length ≤ 2 * (rest.length + 1)
    omega

theorem start_remaining (rt : ToolRuntime) (calls : List ToolCall) :
    (start rt calls).remaining ≤ 7 * calls.length := by
  unfold start
  split
  · exact nextCall_remaining [] calls
  · cases calls with
    | nil => exact Nat.le_refl 0
    | cons call calls =>
      have hsum : (((call :: calls).map Task.start).map (·.phase.remaining)).sum
          = (calls.length + 1) * 6 := by
        simp [Function.comp_def, Task.start, Phase.remaining]
        omega
      show (((call :: calls).map Task.start).map (·.phase.remaining)).sum + 1
        ≤ 7 * (calls.length + 1)
      omega

theorem wake_remaining {isAborted : Bool} (h : b.wake isAborted = some b') :
    b'.remaining + 1 ≤ b.remaining := by
  cases b with
  | gathering tasks failure =>
    cases failure with
    | some e =>
      obtain rfl : _ = b' := by simpa [wake] using h
      exact Nat.le_add_left 1 _
    | none =>
      simp only [wake] at h
      split at h
      · obtain rfl : _ = b' := by simpa using h
        exact Nat.le_add_left 1 _
      · simp at h
  | inSequence results task rest =>
    simp only [wake] at h
    split at h
    · obtain rfl : _ = b' := by simpa using h
      show 0 + 1 ≤ task.phase.remaining + 1 + 7 * rest.length
      omega
    · rename_i result hphase
      have hskipped := nextSkipped_remaining (results ++ [result]) rest
      have hnext := nextCall_remaining (results ++ [result]) rest
      show b'.remaining + 1 ≤ task.phase.remaining + 1 + 7 * rest.length
      split at h
      · obtain rfl : _ = b' := by simpa using h
        omega
      · obtain rfl : _ = b' := by simpa using h
        omega
    · simp at h
  | skipping results call inStart rest => simp [wake] at h
  | returned results => simp [wake] at h
  | raised e left => simp [wake] at h

/-- Every event but `cancel` leaves fewer awaits. -/
theorem step_remaining {ev : Event} (h : b.step rt ev = some b') :
    b'.remaining + (if ev.isProgress then 1 else 0) ≤ b.remaining := by
  cases ev with
  | cancel =>
    cases b with
    | gathering tasks failure =>
      obtain rfl : _ = b' := by simpa [step] using h
      simp [remaining, Event.isProgress, Function.comp_def, cancel_phase]
    | inSequence results task rest =>
      obtain rfl : _ = b' := by simpa [step] using h
      simp [remaining, Event.isProgress, cancel_phase]
    | skipping results call inStart rest =>
      obtain rfl : _ = b' := by simpa [step] using h
      simp [Event.isProgress]
    | returned results => simp [step] at h
    | raised e left => simp [step] at h
  | resume index r =>
    simp only [step, Option.bind_eq_some_iff, Option.map_eq_some_iff] at h
    obtain ⟨task, htask, task', hresume, rfl⟩ := h
    have hlower := resume_remaining hresume
    simp only [Event.isProgress, if_true]
    cases b with
    | gathering tasks failure =>
      have hsum := sum_set_remaining task' htask
      show ((tasks.set index task').map (·.phase.remaining)).sum + 1 + 1
        ≤ (tasks.map (·.phase.remaining)).sum + 1
      omega
    | inSequence results current rest =>
      obtain ⟨-, rfl⟩ : index = results.length ∧ current = task := by simpa [task?] using htask
      show task'.phase.remaining + 1 + 7 * rest.length + 1
        ≤ current.phase.remaining + 1 + 7 * rest.length
      omega
    | skipping results call inStart rest => simp [task?] at htask
    | returned results => simp [task?] at htask
    | raised e left => simp [task?] at htask
  | wake isAborted => exact wake_remaining h
  | skip outcome now =>
    simp only [Event.isProgress, if_true]
    cases b with
    | skipping results call inStart rest =>
      cases outcome with
      | error e =>
        obtain rfl : _ = b' := by simpa [step] using h
        show 0 + 1 ≤ (if inStart then 2 else 1) + 2 * rest.length
        split <;> omega
      | ok u =>
        cases inStart with
        | true =>
          obtain rfl : _ = b' := by simpa [step] using h
          show 1 + 2 * rest.length + 1 ≤ 2 + 2 * rest.length
          omega
        | false =>
          obtain rfl : _ = b' := by simpa [step] using h
          have hskipped := nextSkipped_remaining (results ++ [unexecutedResult call now]) rest
          show (nextSkipped _ rest).remaining + 1 ≤ 1 + 2 * rest.length
          omega
    | gathering tasks failure => simp [step] at h
    | inSequence results task rest => simp [step] at h
    | returned results => simp [step] at h
    | raised e left => simp [step] at h

/-! ### One result for every call, if and only if no cancellation is lost -/

/-- **One result for every call.** A run of `execute_calls` in which sinks and result hooks do their
    part makes at most seven steps for a call; and once nothing more happens in it, it has returned
    one message for every call, in order, with its call's id and name, if and only if no
    cancellation was raised where `_execute_call` does not catch it. -/
theorem execute_calls_iff (rt : ToolRuntime) (calls : List ToolCall) (events : List Event)
    (b : Batch) (hrun : Batch.run rt (start rt calls) events = some b)
    (horderly : EveryStep (Batch.step rt) Orderly (start rt calls) events) :
    events.countP Event.isProgress ≤ 7 * calls.length ∧
    (b.Settled rt →
      ((∃ messages terminate, b.value? = some (messages, terminate)
          ∧ messages.map (fun m => (m.toolCallId, m.toolName))
            = calls.map fun call => (call.id, call.name))
        ↔ EveryStep (Batch.step rt) (fun b ev => ¬ b.CancelLost ev) (start rt calls) events)) := by
  refine ⟨?_, ?_⟩
  · have hmeasure := run_measure (I := fun _ => True) (fun _ _ _ _ _ => trivial)
      (fun _ _ _ _ h => step_remaining h) trivial hrun
    exact (Nat.le_of_add_left_le hmeasure).trans (start_remaining rt calls)
  · intro hsettled
    constructor
    · rintro ⟨messages, terminate, hvalue, -⟩
      obtain ⟨results, rfl⟩ : ∃ results, b = .returned results := by
        cases b <;> simp [value?] at hvalue
        exact ⟨_, rfl⟩
      exact kept_of_returned horderly hrun
    · intro hkept
      have hfits : b.Fits calls :=
        run_invariant (fun _ _ _ hfits hP hstep => step_fits hfits hP.1 hP.2 hstep)
          (start_fits rt calls) (everyStep_and horderly hkept) hrun
      obtain ⟨results, rfl⟩ := returned_of_settled hfits hsettled
      refine ⟨results.map Prod.fst, results.any Prod.snd, rfl, ?_⟩
      rw [List.map_map]
      exact hfits

/-! ### A call that is cancelled -/

/-- A tool that takes any arguments. -/
def readTool : Tool where
  name := "read"
  parameters := []
  executionMode := .parallel
  prepareArguments := .ok

/-- A runtime with that tool. -/
def readRuntime : ToolRuntime where
  tools := [readTool]
  activeNames := ["read"]
  validate := fun _ _ => .ok ()
  unique := by simp
  known := by simp [readTool]

/-- A call of it. -/
def readCall : ToolCall := ⟨"call-1", "read", []⟩

/-- The call goes into its tool, is cancelled there, and ends. -/
def cancelledInTool : List Event :=
  [.resume 0 { reply := .started }, .resume 0 { reply := .emitted (.ok ()) },
    .resume 0 { reply := .hooked (.ok []) }, .cancel, .resume 0 { reply := .executed (.error .cancelled) },
    .resume 0 { reply := .patched (.ok {}) }, .resume 0 { reply := .emitted (.ok ()) }, .wake true]

/-- The call is cancelled while its start event is published. -/
def cancelledInStart : List Event :=
  [.resume 0 { reply := .started }, .cancel, .resume 0 { reply := .emitted (.error .cancelled) },
    .wake true]

theorem cancelledInTool_orderly :
    EveryStep (Batch.step readRuntime) Orderly (start readRuntime [readCall]) cancelledInTool := by
  refine everyStep_cons rfl (fun task h => ?_) (everyStep_cons rfl (fun task h => ?_)
    (everyStep_cons rfl (fun task h => ?_) (everyStep_cons rfl trivial
    (everyStep_cons rfl (fun task h => ?_) (everyStep_cons rfl (fun task h => ?_)
    (everyStep_cons rfl (fun task h => ?_) (everyStep_cons rfl trivial trivial)))))))
  all_goals cases h
  · trivial
  · rfl
  · trivial
  · trivial
  · exact ⟨_, _, rfl, rfl⟩
  · rfl

/-- A call cancelled inside its tool still has its result. -/
theorem execute_calls_cancelled_in_tool :
    ∃ b, Batch.run readRuntime (start readRuntime [readCall]) cancelledInTool = some b ∧
    cancelledInTool.countP Event.isProgress ≤ 7 * [readCall].length ∧
    (b.Settled readRuntime →
      ((∃ messages terminate, b.value? = some (messages, terminate)
          ∧ messages.map (fun m => (m.toolCallId, m.toolName))
            = [readCall].map fun call => (call.id, call.name))
        ↔ EveryStep (Batch.step readRuntime) (fun b ev => ¬ b.CancelLost ev)
            (start readRuntime [readCall]) cancelledInTool)) :=
  ⟨_, rfl, execute_calls_iff readRuntime [readCall] cancelledInTool _ rfl cancelledInTool_orderly⟩

/-- A call cancelled in its start event raises out of the batch, and has no result. -/
theorem execute_calls_cancelled_in_start :
    ∃ b, Batch.run readRuntime (start readRuntime [readCall]) cancelledInStart = some b ∧
    EveryStep (Batch.step readRuntime) Orderly (start readRuntime [readCall]) cancelledInStart ∧
    b.Settled readRuntime ∧
    ¬ ∃ messages terminate, b.value? = some (messages, terminate)
        ∧ messages.map (fun m => (m.toolCallId, m.toolName))
          = [readCall].map fun call => (call.id, call.name) := by
  refine ⟨.raised .cancelled [], rfl, ?_, ?_, ?_⟩
  · refine everyStep_cons rfl (fun task h => ?_) (everyStep_cons rfl trivial
      (everyStep_cons rfl (fun task h => ?_) (everyStep_cons rfl trivial trivial)))
    all_goals cases h
    · trivial
    · rfl
  · intro ev hprogress
    cases ev with
    | cancel => simp [Event.isProgress] at hprogress
    | resume index r => rfl
    | wake isAborted => rfl
    | skip outcome now => rfl
  · rintro ⟨messages, terminate, hvalue, -⟩
    simp [value?] at hvalue

end Batch

end AeloonRuntime
