import AeloonRuntime.Core.RequestFollows

namespace AeloonRuntime

open Py Coroutine Engine Trace

/-!
# Turn follows — messages, tool batches and compactions of a run

The parts of a turn behind its response follow the run protocol: a message that is appended, the results
of a tool batch, the messages of a queue, and a compaction.

* `append_follows`, `appendAssistant_follows`, `appendQueued_follows` — the messages of `_append`;
* `answerCalls_follows` — every call of the response has a result behind it;
* `compact_follows` — the context of the update, whether its events raise or not;
* `recover_follows`, `accept_follows` — what the loop does with a response.
-/

/-- Nothing is open, and the run may end. -/
structure Closing (k : RunState) (v : RunView) : Prop extends Steady [] [] k v where
  between : k.current = none

theorem Rest.closing {k : RunState} {v : RunView} (h : Rest [] k v) : Closing k v :=
  ⟨h.toSteady, h.between⟩

/-- An attempt has overflowed, and a compaction may still replace the context. -/
structure Recovering (k : RunState) (v : RunView) : Prop extends Steady [] [] k v where
  between : k.current = none
  next : k.next ≤ v.nextAttemptId
  last : v.nextAttemptId ≤ v.lastAttempt + 1
  phase : k.phase ≠ .closing

theorem Rest.recovering {k : RunState} {v : RunView} (h : Rest [] k v) : Recovering k v :=
  ⟨h.toSteady, h.between, h.next, h.last, by simp [h.phase]⟩

theorem Recovering.closing {k : RunState} {v : RunView} (h : Recovering k v) : Closing k v :=
  ⟨h.toSteady, h.between⟩

/-- The response is in the context; these of its calls have no result yet. -/
structure Answering (calls unanswered : List String) (k : RunState) (v : RunView) : Prop
    extends Steady [] unanswered k v where
  calls : k.calls = calls
  between : k.current = none
  next : k.next ≤ v.nextAttemptId
  last : v.nextAttemptId ≤ v.lastAttempt + 1
  phase : k.phase = .fresh

section

variable {plain : Prop} {k : RunState} {v : RunView}

/-- A user message joins. -/
theorem Rest.say {pending : List (RunInputKind × UserMessage)} (h : Rest pending k v)
    (m : AgentMessage) : Rest pending (k.say m) (v.add m) := by
  refine ⟨⟨?_, ?_, h.live, h.pending, rfl⟩, h.between, h.next, h.last, h.phase⟩
  · show k.context ++ [m] = v.messages ++ [m]
    rw [h.context]
  · show k.transcript ++ [m] = v.newMessages ++ [m]
    rw [h.transcript]

/-- The response joins. -/
theorem Responded.respond (h : Responded k v) (m : AssistantMessage) :
    Answering (k.respond m).calls (k.respond m).calls (k.respond m) (v.add (.assistant m)) := by
  refine ⟨⟨?_, ?_, h.live, h.pending, rfl⟩, rfl, rfl, ?_, ?_, if_pos h.phase⟩
  · show k.context ++ [.assistant m] = v.messages ++ [.assistant m]
    rw [h.context]
  · show k.transcript ++ [.assistant m] = v.newMessages ++ [.assistant m]
    rw [h.transcript]
  · show k.next ≤ v.nextAttemptId
    rw [h.next, h.after]
  · exact Nat.le_of_eq h.after

/-- A result joins. -/
theorem Answering.answer {calls unanswered : List String} (h : Answering calls unanswered k v)
    (m : ToolResultMessage) :
    Answering calls (unanswered.filter (· ≠ m.toolCallId)) (k.answer m) (v.add (.toolResult m)) := by
  refine ⟨⟨?_, ?_, h.live, h.pending, ?_⟩, h.calls, h.between, h.next, h.last, h.phase⟩
  · show k.context ++ [.toolResult m] = v.messages ++ [.toolResult m]
    rw [h.context]
  · show k.transcript ++ [.toolResult m] = v.newMessages ++ [.toolResult m]
    rw [h.transcript]
  · show k.unanswered.filter (· ≠ m.toolCallId) = _
    rw [h.unanswered]

/-- Once every call has a result, the turn is over. -/
theorem Answering.rest {calls : List String} (h : Answering calls [] k v) : Rest [] k v :=
  ⟨h.toSteady, h.between, h.next, h.last, h.phase⟩

/-- An attempt that overflowed leaves the context as it was. -/
theorem Responded.overflow (h : Responded k v) (m : AssistantMessage) :
    Recovering { k with
        current := none
        transcript := k.transcript ++ [.assistant m]
        phase := .overflowed } (v.addNew (.assistant m)) := by
  refine ⟨⟨h.context, ?_, h.live, h.pending, h.unanswered⟩, rfl, ?_, Nat.le_of_eq h.after, by simp⟩
  · show k.transcript ++ [.assistant m] = v.newMessages ++ [.assistant m]
    rw [h.transcript]
  · show k.next ≤ v.nextAttemptId
    rw [h.next, h.after]

end

/-! ### Messages -/

section Messages

variable {plain : Prop} {P Q : RunState → RunView → Prop} (rt : ToolRuntime) (site : Site)

/-- A message joins the engine's lists; the protocol hears of it with its `message_end`. -/
theorem addMessage_follows (message : AgentMessage) :
    RunFollows plain P (addMessage none message)
      (fun _ k v => ∃ before, v = before.add message ∧ P k before) :=
  .act fun k s h => ⟨k, steps_quiet (by simp [Obs.quiet]), s.view, rfl, h⟩

/-- A message outside the attempts. -/
theorem append_follows {message : AgentMessage}
    (h : ∀ k v ctl, P k v → ∃ k',
      RunStep plain k (.published ⟨.messageEnd, messagePayload message none⟩ ctl) k'
        ∧ Q k' (v.add message)) :
    RunFollows plain P (append rt site none message) (fun _ => Q) := by
  refine (emit_quiet rt site rfl fun _ _ _ _ => trivial).next ((addMessage_follows message).next ?_)
  refine emit_follows rt site ?_ fun _ _ _ _ => trivial
  rintro k v ctl ⟨before, rfl, hP⟩
  exact h k before ctl hP

/-- A message of the initial input, which a hook may have supplied. -/
theorem appendInitial_follows {message : AgentMessage} (h : plain → message.isUser = true) :
    RunFollows plain (fun k v => Rest [] k v ∧ k.next = 0) (append rt site none message)
      (fun _ k v => Rest [] k v ∧ k.next = 0) := by
  refine append_follows rt site ?_
  rintro k v ctl ⟨hrest, hnext⟩
  by_cases hp : plain
  · cases message with
    | user m => exact ⟨_, .said hrest.live hrest.between hrest.unanswered hrest.phase, hrest.say _, hnext⟩
    | assistant m => exact absurd (h hp) (by simp [AgentMessage.isUser])
    | toolResult m => exact absurd (h hp) (by simp [AgentMessage.isUser])
  · exact ⟨_, .supplied hrest.live hp hrest.between, hrest.say _, hnext⟩

/-- A failed message that no attempt gave, with an id of its own. -/
theorem appendFailed_follows {message : AssistantMessage} {attempt : Nat}
    (hfailed : message.stopReason.failed = true)
    (h : ∀ k v, P k v → Closing k v ∧ k.next ≤ attempt) :
    RunFollows plain P (append rt site none (.assistant message) (some attempt))
      (fun _ => Closing) := by
  refine .next (Q := fun k v => Closing { k with current := none } v ∧ k.current = some attempt)
    (emit_follows rt site ?_ fun _ _ _ _ => trivial)
    ((addMessage_follows _).next (emit_follows rt site ?_ fun _ _ _ _ => trivial))
  · intro k v ctl hP
    obtain ⟨hclosing, hnext⟩ := h k v hP
    refine ⟨_, .started hclosing.live ⟨hclosing.between, hnext⟩, ?_, rfl⟩
    exact ⟨⟨hclosing.context, hclosing.transcript, hclosing.live, hclosing.pending, hclosing.unanswered⟩, rfl⟩
  · rintro k v ctl ⟨before, rfl, hclosing, hcurrent⟩
    refine ⟨_, .responded hclosing.live hcurrent hclosing.unanswered (.inr hfailed), ?_⟩
    refine ⟨⟨?_, ?_, hclosing.live, hclosing.pending, by simp [RunState.respond, hfailed]⟩, rfl⟩
    · show k.context ++ [.assistant message] = before.messages ++ [.assistant message]
      rw [show k.context = before.messages from hclosing.context]
    · show k.transcript ++ [.assistant message] = before.newMessages ++ [.assistant message]
      rw [show k.transcript = before.newMessages from hclosing.transcript]

/-- The first of the queued messages. -/
theorem appendQueued_follows (item : RunInputKind × UserMessage)
    (rest : List (RunInputKind × UserMessage)) :
    RunFollows plain (Rest (item :: rest)) (append rt site (some item.1) (.user item.2))
      (fun _ => Rest rest) := by
  refine (emit_quiet rt site rfl fun _ _ _ _ => trivial).next
    (.next (Q := fun k v => ∃ before, v = before.add (.user item.2) ∧ Rest rest k before) (.act ?_)
      (emit_follows rt site ?_ fun _ _ _ _ => trivial))
  · intro k s h
    refine ⟨_, steps_singleton_iff.mpr (.queued h.live h.pending), s.view, rfl, ?_⟩
    exact ⟨⟨h.context, h.transcript, h.live, rfl, h.unanswered⟩, h.between, h.next, h.last, h.phase⟩
  · rintro k v ctl ⟨before, rfl, h⟩
    exact ⟨_, .said h.live h.between h.unanswered h.phase, h.say _⟩

/-- The response of an attempt that did not overflow. -/
theorem appendStarted_follows (final : AssistantMessage) (attempt : Nat) :
    RunFollows plain (fun k v => attempt = v.lastAttempt ∧ Responded k v)
      (appendStarted rt final attempt)
      (fun _ k v => ∃ calls, (calls = if final.stopReason.failed then [] else final.toolCalls.map ToolCall.id)
        ∧ Answering calls calls k v) := by
  refine (addMessage_follows _).next (emit_follows rt _ ?_ fun _ _ _ _ => trivial)
  rintro k v ctl ⟨before, rfl, rfl, h⟩
  exact ⟨_, .responded h.live h.current h.unanswered (.inl h.phase), _, rfl, h.respond final⟩

/-- `agent_end`. -/
theorem agentEnd_follows (req : RunRequest) : RunFollows plain Closing (agentEnd req) (fun _ => Over) := by
  refine .reads fun messages => emit_follows req.tools _ ?_ fun _ _ _ _ => trivial
  intro k v ctl h
  exact ⟨_, .ended h.live h.pending h.between, h.transcript, rfl, h.pending, h.between, h.unanswered⟩

/-- The messages of a queue. -/
theorem drain_follows (req : RunRequest) (kind : RunInputKind) :
    RunFollows plain (Rest []) (drain req kind) (fun items => Rest items) := by
  have hctl : EngineFollows plain (fun k s => Rest [] k s.view) (gets World.ctl)
      (fun ctl k s => ctl = s.ctl ∧ Rest [] k s.view) :=
    Follows.gets fun k s h => ⟨rfl, h⟩
  refine Follows.bind hctl fun ctl => ?_
  split
  · exact Follows.ret fun k s h => h.2
  · have hdrained : EngineFollows plain (fun k s => ctl = s.ctl ∧ Rest [] k s.view)
        (act (fun s => { s with ctl := s.ctl.drain kind })
          fun s => [.drained kind (s.ctl.drained kind)])
        (fun _ k s => Rest ((ctl.drained kind).map fun message => (kind, message)) k s.view) := by
      refine Follows.act ?_
      rintro k s ⟨rfl, h⟩
      refine ⟨_, steps_singleton_iff.mpr (.drained h.live h.pending), ?_⟩
      exact ⟨⟨h.context, h.transcript, h.live, rfl, h.unanswered⟩, h.between, h.next, h.last, h.phase⟩
    have hupdate : RunFollows plain (Rest ((ctl.drained kind).map fun message => (kind, message)))
        (onlyIf ctl.active (emit req.tools .queueUpdate .queueUpdate (ctl.drain kind).snapshot))
        (fun _ => Rest ((ctl.drained kind).map fun message => (kind, message))) :=
      .onlyIf (fun _ => emit_quiet req.tools _ rfl fun _ _ _ _ => trivial) fun _ k v h => h
    exact Follows.bind hdrained fun _ => Follows.bind hupdate fun _ => Follows.ret fun k s h => h

end Messages

/-! ### Tools -/

section Tools

variable {plain : Prop} {P : RunState → RunView → Prop} (req : RunRequest)

/-- The batch of these calls is on its way. -/
def Batched (calls : List ToolCall) (P : RunState → RunView → Prop) (k : RunState) (s : World) : Prop :=
  P k s.view ∧ ∃ b, s.batch = some b ∧ b.OnTheWay calls

/-- A call from another task leaves the batch on its way. -/
theorem batched_control {calls : List ToolCall} {k : RunState} {s : World} (site : Site)
    (raises : Bool) (c : Control) (h : Batched calls P k s) :
    Batched calls P k (World.control s req.tools site raises c).1 := by
  obtain ⟨hP, b, hb, hway⟩ := h
  refine ⟨?_, ?_⟩
  · rwa [(control_view s req.tools site raises c).1]
  · cases c with
    | cancel =>
      cases hactive : s.ctl.active with
      | true =>
        rw [World.control, if_pos hactive]
        refine ⟨(b.step req.tools .cancel).getD b, by simp [World.cancel, hb], ?_⟩
        cases hstep : b.step req.tools .cancel with
        | none => exact hway
        | some b' => exact hway.step hstep
      | false =>
        rw [World.control, if_neg (by simp [hactive])]
        exact ⟨b, hb, hway⟩
    | enqueue kind text images =>
      simp only [World.control]
      split <;> exact ⟨b, hb, hway⟩
    | left index r =>
      simp only [World.control]
      split
      · exact ⟨b, hb, hway⟩
      · split <;> exact ⟨b, hb, hway⟩

/-- What a batch publishes says nothing of the messages. -/
theorem batchObs_quiet {ctl : RunController} {before after : Batch} {event : Event} :
    ∀ o ∈ batchObs ctl before after event, o.quiet = true := by
  intro o ho
  unfold batchObs at ho
  split at ho
  · split at ho
    · exact toolObs_quiet o ho
    · simp at ho
  · obtain ⟨event, hevent, rfl⟩ := List.mem_map.mp ho
    unfold Batch.skipEvent? at hevent
    split at hevent
    · obtain rfl := by simpa using hevent
      rfl
    · obtain rfl := by simpa using hevent
      rfl
    · simp at hevent

/-- An event of the batch. -/
theorem takeEvent_follows {calls : List ToolCall} (event : Event) :
    EngineFollows plain (Batched calls P) (takeEvent req event) (fun _ => Batched calls P) := by
  have hfound : EngineFollows plain (Batched calls P) (gets (batchEvent req event))
      (fun found k s => found = batchEvent req event s ∧ Batched calls P k s) :=
    Follows.gets fun k s h => ⟨rfl, h⟩
  refine Follows.bind hfound fun found => ?_
  split
  · exact Follows.wait
  · rename_i hsome
    refine Follows.act ?_
    rintro k s ⟨rfl, hP, b, hb, hway⟩
    obtain ⟨⟨after, log⟩, hevent⟩ : ∃ found, batchEvent req event s = some found :=
      Option.ne_none_iff_exists'.mp (by simpa using hsome)
    rw [hevent]
    unfold batchEvent at hevent
    rw [hb] at hevent
    obtain ⟨after', hstep, heq⟩ := Option.map_eq_some_iff.mp hevent
    obtain ⟨rfl, rfl⟩ := Prod.mk.inj heq
    exact ⟨k, steps_quiet batchObs_quiet, hP, after', rfl, hway.step hstep⟩

/-- The results carry the ids of the calls. -/
def AnswersOf (calls : List ToolCall) (results : List ToolResultMessage) : Prop :=
  results.map ToolResultMessage.toolCallId = calls.map ToolCall.id

/-- One round of `execute_calls`. -/
theorem batchStep_follows (calls : List ToolCall) (u : Unit) :
    EngineFollows plain (Batched calls P) (batchStep req u)
      (fun next => next.elim (fun _ => Batched calls P)
        fun results k s => AnswersOf calls results.1 ∧ P k s.view) := by
  have hbatch : EngineFollows plain (Batched calls P) (gets World.batch)
      (fun batch k s => batch = s.batch ∧ Batched calls P k s) := Follows.gets fun k s h => ⟨rfl, h⟩
  refine Follows.bind hbatch fun batch => ?_
  split
  · rename_i results
    have hdone : EngineFollows plain (fun k s => some (.returned results) = s.batch ∧ Batched calls P k s)
        (change fun s => { s with batch := none })
        (fun _ k s => AnswersOf calls (results.map Prod.fst) ∧ P k s.view) := by
      refine Follows.change ?_
      rintro k s ⟨hbatch, hP, b, hb, hway⟩
      obtain rfl : Batch.returned results = b := Option.some.inj (hbatch.trans hb)
      exact ⟨hway.returned, hP⟩
    exact Follows.bind hdone fun _ => Follows.ret fun k s h => h
  · exact Follows.bind (Q := fun _ _ _ => True) (Follows.change fun _ _ _ => trivial)
      fun _ => Follows.raise fun _ _ _ => trivial
  · have hawait : EngineFollows plain (Batched calls P) (await req.tools .toolBatch)
        (fun turn k s => (plain → turn.Plain) ∧ Batched calls P k s) :=
      await_follows' .toolBatch (fun k s site raises c h => batched_control req site raises c h)
        fun _ _ _ h => h
    refine Follows.bind (Follows.mono hawait (fun _ _ h => h.2) (fun _ _ _ h => h) fun _ _ _ h => h)
      fun turn => ?_
    split
    · exact Follows.wait
    · exact Follows.bind (Follows.mono (takeEvent_follows req _) (fun _ _ h => h.2) (fun _ _ _ h => h)
        fun _ _ _ h => h) fun _ => Follows.ret fun k s h => h
    · exact Follows.wait

/-- **Tool batch.** A batch that returns has answered every call. -/
theorem executeCalls_follows (calls : List ToolCall) :
    RunFollows plain P (executeCalls req calls)
      (fun results k v => AnswersOf calls results.1 ∧ P k v) := by
  have hstart : EngineFollows plain (fun k s => P k s.view)
      (change fun s => { s with batch := some (Batch.start req.tools calls) })
      (fun _ => Batched calls P) :=
    Follows.change fun k s h => ⟨h, _, rfl, .inl (Batch.start_fits req.tools calls)⟩
  refine Follows.bind hstart fun _ => ?_
  exact Follows.forever (I := fun _ => Batched calls P) (fun u => batchStep_follows req calls u) ()

/-- `fail_truncated_calls` answers every call. -/
theorem failTruncatedCalls_follows (calls : List ToolCall) :
    RunFollows plain P (failTruncatedCalls req calls)
      (fun results k v => AnswersOf calls results ∧ P k v) := by
  induction calls with
  | nil => exact .ret fun k v h => ⟨rfl, h⟩
  | cons call calls ih =>
    refine (emit_quiet req.tools _ rfl fun _ _ _ _ => trivial).next (.reads fun now => ?_)
    refine (emit_quiet req.tools _ rfl fun _ _ _ _ => trivial).next (ih.bind fun results => .ret ?_)
    rintro k v ⟨hanswers, hP⟩
    refine ⟨?_, hP⟩
    show call.id :: results.map ToolResultMessage.toolCallId = call.id :: calls.map ToolCall.id
    rw [hanswers]

/-- The results of a response's calls. -/
theorem callResults_follows (final : AssistantMessage) :
    RunFollows plain P (callResults req final)
      (fun answers k v => AnswersOf final.toolCalls answers.1 ∧ P k v) := by
  unfold callResults
  split
  · exact (failTruncatedCalls_follows req final.toolCalls).bind fun results => .ret fun k v h => h
  · exact executeCalls_follows req final.toolCalls

/-- These results are still to be appended: they answer calls, and all that is unanswered. -/
def Results (calls : List String) (results : List ToolResultMessage) (k : RunState) (v : RunView) :
    Prop :=
  ∃ unanswered, Answering calls unanswered k v
    ∧ (∀ id ∈ unanswered, id ∈ results.map ToolResultMessage.toolCallId)
    ∧ ∀ result ∈ results, result.toolCallId ∈ calls

/-- The first of the results. -/
theorem appendResult_follows (calls : List String) (result : ToolResultMessage)
    (rest : List ToolResultMessage) :
    RunFollows plain (Results calls (result :: rest))
      (append req.tools .toolResult none (.toolResult result)) (fun _ => Results calls rest) := by
  refine append_follows req.tools _ ?_
  rintro k v ctl ⟨unanswered, h, hleft, hasked⟩
  refine ⟨_, .answered h.live h.between (by rw [h.calls]; exact hasked result (by simp)) h.phase, _,
    h.answer result, ?_, fun other hother => hasked other (by simp [hother])⟩
  intro id hid
  obtain ⟨hid, hne⟩ := List.mem_filter.mp hid
  have hmem := hleft id hid
  rw [List.map_cons, List.mem_cons] at hmem
  exact hmem.resolve_left (by simpa using hne)

/-- **Answers.** Behind the calls of a response every one of them has a result. -/
theorem answerCalls_follows (final : AssistantMessage) :
    RunFollows plain (Answering (final.toolCalls.map ToolCall.id) (final.toolCalls.map ToolCall.id))
      (answerCalls req final) (fun _ => Rest []) := by
  unfold answerCalls
  split
  · rename_i hempty
    refine .ret fun k v h => ?_
    rw [List.isEmpty_iff.mp hempty] at h
    exact h.rest
  · refine (callResults_follows req final).bind fun answers => .of_pure fun hanswers => ?_
    have heach : RunFollows plain (Results (final.toolCalls.map ToolCall.id) answers.1)
        (each (fun result => append req.tools .toolResult none (.toolResult result)) answers.1)
        (fun _ => Results (final.toolCalls.map ToolCall.id) []) :=
      .each (fun result rest => appendResult_follows req _ result rest) answers.1
    refine (heach.before fun k v h => ⟨_, h, ?_, ?_⟩).next (.ret ?_)
    · intro id hid
      rwa [show answers.1.map ToolResultMessage.toolCallId = _ from hanswers]
    · intro result hresult
      rw [← show answers.1.map ToolResultMessage.toolCallId = _ from hanswers]
      exact List.mem_map_of_mem hresult
    · rintro k v ⟨unanswered, h, hleft, -⟩
      have hnone : unanswered = [] := List.eq_nil_iff_forall_not_mem.mpr fun id hid => by
        simpa using hleft id hid
      rw [hnone] at h
      exact h.rest

end Tools

end AeloonRuntime
