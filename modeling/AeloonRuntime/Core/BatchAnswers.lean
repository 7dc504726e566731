import AeloonRuntime.Core.ToolBatch

namespace AeloonRuntime

open Py Transition

/-!
# Batch answers — what a batch returns, whatever its sinks and hooks do

A batch on its way to one result for every call stays on it or is broken; a broken batch does not
return.  So a batch that returns has answered every call, in order.

* `Batch.OnTheWay` — the batch fits its calls, or it is broken;
* `OnTheWay.step` — every event keeps that;
* `OnTheWay.returned` — the results carry the ids of the calls.
-/

section Task

variable {rt : ToolRuntime} {t t' : Task} {r : Resumption}

/-- A result that a task ends with is its call's. -/
theorem resume_answers (h : t.resume rt r = some t') :
    ∀ result ∈ t'.result?, result.1.toolCallId = t'.call.id ∧ result.1.toolName = t'.call.name := by
  obtain ⟨phase, hnext, rfl⟩ := resume_eq_some_iff.mp h
  show ∀ result ∈ Task.result? { t with phase := phase, cancelRequested := _ }, _
  rcases nextPhase_cases hnext with ⟨-, -, rfl⟩ | ⟨-, -, rfl⟩ | ⟨outcome, -, -, rfl⟩
    | ⟨args, outcome, -, rfl⟩ | ⟨args, result, -, rfl⟩ | ⟨args, result, outcome, -, -, rfl⟩
    | ⟨result, outcome, -, -, rfl⟩
  · simp [Task.result?]
  · simp [Task.result?]
  · cases outcome with
    | error e => simp [orRaise, Task.result?]
    | ok u =>
      rcases afterStart_cases rt t.call with ⟨args, hafter⟩ | ⟨args, result, hafter⟩ <;>
        simp [orRaise, hafter, Task.result?]
  · rcases afterToolCallHook_cases args outcome with hafter | ⟨result, hafter⟩ <;>
      simp [hafter, Task.result?]
  · simp [Task.result?]
  · cases outcome.bind (applyResultPatch result) <;> simp [orRaise, Task.result?]
  · cases outcome with
    | error e => simp [orRaise, Task.result?]
    | ok u =>
      cases t.stillRequested r <;> simp [orRaise, Task.result?, toolResultMessage]

end Task

namespace Batch

variable {rt : ToolRuntime} {calls : List ToolCall} {b b' : Batch}

/-- The batch will answer every call, or it is broken. -/
def OnTheWay (calls : List ToolCall) (b : Batch) : Prop := b.Fits calls ∨ b.Broken

/-- A task that runs on breaks the batch with an exception only. -/
theorem setTask_onTheWay {index : Nat} {task task' : Task} {r : Resumption} (hfits : b.Fits calls)
    (htask : b.task? index = some task) (hresume : task.resume rt r = some task') :
    (b.setTask index task').OnTheWay calls := by
  have hcall := resume_call hresume
  have hanswers := resume_answers hresume
  cases b with
  | gathering tasks failure =>
    obtain ⟨hcalls, hsound, rfl⟩ := hfits
    obtain ⟨hlt, hget⟩ := List.getElem?_eq_some_iff.mp htask
    by_cases hfailure : task'.failure? = none
    · refine .inl ⟨?_, ?_, by simp [hfailure]⟩
      · rw [List.map_set, hcall, ← hget, ← List.map_set, List.set_getElem_self, hcalls]
      · intro t ht
        rcases List.mem_or_eq_of_mem_set ht with ht | rfl
        · exact hsound t ht
        · exact ⟨hfailure, hanswers⟩
    · exact .inr (by simpa [setTask, Broken] using hfailure)
  | inSequence results current rest =>
    obtain ⟨-, rfl⟩ : index = results.length ∧ current = task := by simpa [task?] using htask
    by_cases hfailure : task'.failure? = none
    · exact .inl ⟨by rw [hcall]; exact hfits.1, hfailure, hanswers⟩
    · obtain ⟨e, he⟩ := Option.ne_none_iff_exists'.mp hfailure
      exact .inr ⟨e, phase_of_failure he⟩
  | skipping results call inStart rest => simp [task?] at htask
  | returned results => simp [task?] at htask
  | raised e left => simp [task?] at htask

/-- **Step.** Every event leaves a batch on its way, or broken. -/
theorem OnTheWay.step {ev : Event} (hway : b.OnTheWay calls) (h : b.step rt ev = some b') :
    b'.OnTheWay calls := by
  obtain hfits | hbroken := hway
  · cases ev with
    | cancel => exact .inl (cancel_fits hfits h)
    | resume index r =>
      simp only [Batch.step, Option.bind_eq_some_iff, Option.map_eq_some_iff] at h
      obtain ⟨task, htask, task', hresume, rfl⟩ := h
      exact setTask_onTheWay hfits htask hresume
    | wake isAborted => exact .inl (wake_fits hfits h)
    | skip outcome now =>
      cases outcome with
      | ok u =>
        have horderly : b.Orderly (.skip (.ok u) now) := rfl
        exact .inl (step_fits hfits horderly id h)
      | error e =>
        cases b with
        | skipping results call inStart rest =>
          obtain rfl : _ = b' := by simpa [Batch.step] using h
          exact .inr trivial
        | gathering tasks failure => simp [Batch.step] at h
        | inSequence results task rest => simp [Batch.step] at h
        | returned results => simp [Batch.step] at h
        | raised e left => simp [Batch.step] at h
  · exact .inr (step_broken hbroken h)

/-- **Answers.** A batch that returned has a result for every call, in order. -/
theorem OnTheWay.returned {results : List CallResult} (h : (Batch.returned results).OnTheWay calls) :
    (results.map Prod.fst).map ToolResultMessage.toolCallId = calls.map ToolCall.id := by
  obtain hfits | hbroken := h
  · have hids := congrArg (List.map Prod.fst) (show answeredBy results = askedBy calls from hfits)
    simpa [answeredBy, askedBy, Function.comp_def] using hids
  · exact absurd hbroken id

end Batch

end AeloonRuntime
