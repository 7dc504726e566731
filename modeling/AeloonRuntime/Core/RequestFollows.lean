import AeloonRuntime.Core.RunFollows

namespace AeloonRuntime

open Py Coroutine Engine Trace

/-!
# Request follows — one response, with its attempts

`request` follows the run protocol: every attempt has an id of its own, begins once, and ends before the
next one begins; behind the last attempt its response is there, and its `message_end` is still to come.

* `collectStep_follows` — one event of a stream;
* `inferenceTask_follows`, `attempts_follows` — one attempt, and all of them;
* `request_follows` — from the end of a turn to its response.
-/

section

variable {plain : Prop} {request : InferenceContext} {attempt : Nat} {k : RunState} {v : RunView}

/-- The `start` events of a stream are counted apart. -/
theorem Asking.withStarts (h : Asking plain request attempt k v) (n : Nat) :
    Asking plain request attempt { k with starts := n } v :=
  ⟨⟨⟨h.context, h.transcript, h.live, h.pending, h.unanswered⟩, h.sent, h.phase⟩, h.between, h.next⟩

theorem Begun.withStarts (h : Begun plain request attempt k v) (n : Nat) :
    Begun plain request attempt { k with starts := n } v :=
  ⟨⟨⟨h.context, h.transcript, h.live, h.pending, h.unanswered⟩, h.sent, h.phase⟩, h.current, h.next⟩

/-- The attempt begins. -/
theorem Asking.begin (h : Asking plain request attempt k v) (m : AssistantMessage)
    (ctl : RunController) :
    RunStep plain k (.published ⟨.messageStart, attemptPayload m attempt⟩ ctl)
        { k with current := some attempt, next := attempt + 1 }
      ∧ Begun plain request attempt { k with current := some attempt, next := attempt + 1 } v :=
  ⟨.started h.live ⟨h.between, h.next⟩,
    ⟨⟨⟨h.context, h.transcript, h.live, h.pending, h.unanswered⟩, h.sent, h.phase⟩, rfl, rfl⟩⟩

/-- An attempt that will be retried ends. -/
theorem Begun.retry (h : Begun plain request attempt k v) {m : AssistantMessage}
    (hfailed : m.stopReason = .error) (ctl : RunController) :
    RunStep plain k (.published ⟨.messageEnd, retryEndPayload m attempt⟩ ctl)
        { k with current := none, calls := [] }
      ∧ Asking plain request (attempt + 1) { k with current := none, calls := [] } v :=
  ⟨.retried h.live h.current hfailed h.unanswered h.phase,
    ⟨⟨⟨h.context, h.transcript, h.live, h.pending, h.unanswered⟩, h.sent, h.phase⟩, rfl, Nat.le_of_eq h.next⟩⟩

/-- The last attempt is over for the engine. -/
theorem Begun.respond (h : Begun plain request attempt k v) : Responded k (v.ended attempt) :=
  ⟨⟨h.context, h.transcript, h.live, h.pending, h.unanswered⟩, h.current, h.next, rfl, h.phase⟩

end

/-! ### One attempt -/

section Attempt

variable (plain : Prop) (request : InferenceContext) (attempt : Nat)

/-- The attempt has begun, or it has not. -/
def InAttempt : Bool → RunState → RunView → Prop
  | true => Begun plain request attempt
  | false => Asking plain request attempt

/-- In the stream: what has begun was counted at least that often. -/
def Collecting (least : Nat) (c : Collected) (k : RunState) (v : RunView) : Prop :=
  InAttempt plain request attempt c.started k v ∧ (c.started = true → least ≤ k.starts)

end Attempt

section Attempt

variable {plain : Prop} {request : InferenceContext} {attempt : Nat} {α : Type}
  {P Q : RunState → RunView → Prop}

theorem deliver_follows (turn : Turn) : RunFollows plain P (deliver turn) (fun _ => P) :=
  .change fun _ _ hP => hP

/-- An event of the inference task that is a step of the protocol. -/
theorem emitInTask_follows (rt : ToolRuntime) {type : RunEventType} {data : Dict}
    (h : ∀ k v ctl, P k v → ∃ k', RunStep plain k (.published ⟨type, data⟩ ctl) k' ∧ Q k' v) :
    RunFollows plain P (emitInTask rt type data) (fun _ => Q) := by
  refine (publish_follows h).next ((await_follows rt .streaming).bind fun turn =>
    (deliver_follows turn).next ?_)
  split
  · exact .ret fun k v hQ => hQ.2
  · exact .wait

/-- `collect_assistant` behind an event. -/
theorem afterEvent_follows {c : Collected} {outcome : Except Exn Unit} {k : RunState} {v : RunView}
    (h : Collecting plain request attempt 1 c k v) :
    (afterEvent outcome c).elim (fun c k v => Collecting plain request attempt 1 c k v)
      (fun ended : Attempted => InAttempt plain request attempt ended.2) k v := by
  cases outcome with
  | ok u => exact h
  | error e => exact h.1

/-- A `start` event is counted; behind one that began the attempt it is the second. -/
theorem count_follows (c : Collected) :
    RunFollows plain (Collecting plain request attempt 1 c) (note .streamStarted)
      (fun _ k v => Collecting plain request attempt 2 c k v ∧ 1 ≤ k.starts) := by
  refine .note fun k v h => ⟨_, .streamStarted, ⟨?_, ?_⟩, Nat.le_add_left 1 k.starts⟩
  · have hattempt := h.1
    cases hstarted : c.started with
    | true =>
      rw [hstarted] at hattempt
      exact Begun.withStarts hattempt _
    | false =>
      rw [hstarted] at hattempt
      exact Asking.withStarts hattempt _
  · intro hstarted
    exact Nat.succ_le_succ (h.2 hstarted)

/-- The `message_start` behind it begins the attempt, or says so once more. -/
theorem begin_follows (req : RunRequest) (c : Collected) (m : AssistantMessage) :
    RunFollows plain (fun k v => Collecting plain request attempt 2 c k v ∧ 1 ≤ k.starts)
      (emitInTask req.tools .messageStart (attemptPayload m attempt))
      (fun _ => Collecting plain request attempt 1 { c with started := true }) := by
  refine emitInTask_follows req.tools ?_
  rintro k v ctl ⟨⟨hattempt, hleast⟩, hone⟩
  cases hstarted : c.started with
  | true =>
    rw [hstarted] at hattempt
    exact ⟨k, .restarted (Begun.current hattempt) (hleast hstarted), hattempt, fun _ => hone⟩
  | false =>
    rw [hstarted] at hattempt
    obtain ⟨hstep, hbegun⟩ := Asking.begin hattempt m ctl
    exact ⟨_, hstep, hbegun, fun _ => hone⟩

/-- One event of a stream. -/
theorem collectStep_follows (req : RunRequest) (c : Collected) :
    RunFollows plain (Collecting plain request attempt 1 c) (collectStep req attempt c)
      (fun next => next.elim (fun c => Collecting plain request attempt 1 c)
        fun ended => InAttempt plain request attempt ended.2) := by
  refine (await_follows req.tools .streaming).bind fun turn => (deliver_follows turn).next ?_
  refine .before (P := Collecting plain request attempt 1 c) ?_ fun _ _ h => h.2
  split
  · exact .ret fun k v h => h.1
  · exact (count_follows c).next ((begin_follows req c _).bind fun outcome =>
      .ret fun k v h => afterEvent_follows h)
  · refine (emitInTask_follows req.tools ?_).bind fun outcome => .ret fun k v h => afterEvent_follows h
    intro k v ctl h
    refine ⟨k, .updated ?_, h⟩
    have hattempt := h.1
    cases hstarted : c.started with
    | true =>
      rw [hstarted] at hattempt
      exact .inl (Begun.current hattempt)
    | false =>
      rw [hstarted] at hattempt
      exact .inr ⟨Asking.between hattempt, Asking.next hattempt⟩
  · exact .ret fun k v h => h
  · split
    · exact .ret fun k v h => h.1
    · rename_i final hfinal
      split
      · rename_i hstarted
        refine .ret fun k v h => ?_
        have hattempt := h.1
        rw [hstarted] at hattempt
        exact hattempt
      · rename_i hstarted
        refine (emitInTask_follows req.tools (Q := Begun plain request attempt) ?_).bind fun outcome => ?_
        · intro k v ctl h
          have hattempt := h.1
          rw [Bool.not_eq_true] at hstarted
          rw [hstarted] at hattempt
          exact ⟨_, Asking.begin hattempt final ctl⟩
        · cases outcome with
          | error e => exact .ret fun k v h => h
          | ok u => exact .ret fun k v h => h
  · exact .wait

/-- `collect_assistant` as the inference task runs it. -/
theorem collectAssistant_follows (req : RunRequest) (options : StreamOptions) (task : InferenceTask) :
    RunFollows plain (Asking plain request attempt)
      (collectAssistant req attempt request options task)
      (fun ended => InAttempt plain request attempt ended.2) := by
  unfold collectAssistant
  split
  · exact .ret fun k v h => h
  · have hopened : RunFollows plain (Asking plain request attempt)
        (note (.opened attempt request options)) (fun _ => Collecting plain request attempt 1 {}) :=
      .note fun k v h => ⟨_, .opened h.live ⟨h.between, h.next⟩ h.phase h.sent, h.withStarts 0, by simp⟩
    exact hopened.next (.forever (fun c => collectStep_follows req c) {})

/-- The inference task, from its creation to its end. -/
theorem inferenceTask_follows (req : RunRequest) (options : StreamOptions) :
    RunFollows plain (Asking plain request attempt) (inferenceTask req attempt request options)
      (fun ended => InAttempt plain request attempt ended.2) := by
  refine .next (.change fun k s h => h) ((wake_follows req.tools _).next ?_)
  refine .reads fun task => (collectAssistant_follows req options task).bind fun ended =>
    .reads fun task => ?_
  refine .next (Q := InAttempt plain request attempt ended.2)
    (.note fun k v h => ⟨k, .quiet rfl, h⟩) ?_
  exact .next (.change fun k s h => h) (.ret fun k v h => h)

end Attempt

/-! ### All attempts -/

section Attempts

variable {plain : Prop} {context : InferenceContext} (req : RunRequest)

/-- The pause between two attempts. -/
theorem pause_follows {P : RunState → RunView → Prop} : RunFollows plain P (pause req) (fun _ => P) := by
  refine .next (.change fun k s h => h) ((wake_follows req.tools _).next ?_)
  refine .reads fun interrupted => .next (.change fun k s h => h) ?_
  exact (wake_follows req.tools _).next (.ret fun k v h => h)

/-- A cancelled pause: the next attempt begins with the message that it ends with. -/
theorem pauseCancelled_follows (maxRetries attemptId attempt : Nat) :
    RunFollows plain (Asking plain context (attemptId + 1))
      (pauseCancelled req maxRetries attemptId attempt) (fun _ => Responded) := by
  refine .reads fun now => ?_
  refine .next (Q := fun k v => ∃ before, v = before.ended (attemptId + 1)
    ∧ Asking plain context (attemptId + 1) k before) (.change fun k s h => ⟨s.view, rfl, h⟩) ?_
  refine .next (Q := Responded) (emit_follows req.tools _ ?_ fun _ _ _ _ => trivial) ?_
  · rintro k v ctl ⟨before, rfl, h⟩
    obtain ⟨hstep, hbegun⟩ := h.begin (abortedMessage req.model now) ctl
    exact ⟨_, hstep, hbegun.respond⟩
  · exact .next (emit_quiet req.tools _ rfl fun _ _ _ _ => trivial) (.ret fun k v h => h)

/-- The attempt that is not retried. -/
theorem lastAttempt_follows (maxRetries attemptId attempt : Nat) (attemptedRetry : Bool)
    (message : AssistantMessage) :
    RunFollows plain (Begun plain context attemptId)
      (lastAttempt req maxRetries attemptId attempt attemptedRetry message) (fun _ => Responded) := by
  refine .next (.change fun k s h => h.respond) (.next (Q := Responded) ?_ (.ret fun k v h => h))
  exact .onlyIf (fun _ => emit_quiet req.tools _ rfl fun _ _ _ _ => trivial) fun _ k v h => h

/-- A retryable failure is an error. -/
theorem isRetryableFailure_error {search : String → String → Bool} {message : AssistantMessage}
    {failure : Option Exn} {contextWindow : Int}
    (h : isRetryableFailure search message failure contextWindow = true) : message.stopReason = .error := by
  unfold isRetryableFailure at h
  split at h
  · simp at h
  · rename_i hreason
    simpa using hreason

/-- **Attempts.** Every attempt ends before the next one begins, with a new id. -/
theorem attempts_follows (options : StreamOptions) (maxRetries attemptBase remaining attempt : Nat)
    (attemptedRetry : Bool) :
    RunFollows plain (Asking plain context (attemptBase + attempt))
      (attempts req context options maxRetries attemptBase remaining attempt attemptedRetry)
      (fun _ => Responded) := by
  induction remaining generalizing attempt attemptedRetry with
  | zero => exact .raise fun _ _ _ => trivial
  | succ remaining ih =>
    refine (inferenceTask_follows req _).bind fun ended => .reads fun now => ?_
    refine (wake_follows req.tools _).next ?_
    refine .next (Q := Begun plain context (attemptBase + attempt)) (.onlyIf ?_ ?_) ?_
    · intro hstarted
      refine emit_follows req.tools _ ?_ fun _ _ _ _ => trivial
      intro k v ctl h
      rw [show ended.2 = false by simpa using hstarted] at h
      exact ⟨_, Asking.begin h _ ctl⟩
    · intro hstarted k v h
      rwa [show ended.2 = true by simpa using hstarted] at h
    · split
      · exact lastAttempt_follows req maxRetries _ attempt attemptedRetry _
      · rename_i hretries
        refine .next (Q := Asking plain context (attemptBase + attempt + 1))
          (emit_follows req.tools _ ?_ fun _ _ _ _ => trivial) ?_
        · intro k v ctl h
          simp only [Bool.not_eq_true', Bool.not_eq_false, Bool.and_eq_true] at hretries
          have herror := isRetryableFailure_error hretries.1
          exact ⟨_, h.retry herror ctl⟩
        · refine .next (emit_quiet req.tools _ rfl fun _ _ _ _ => trivial)
            ((pause_follows req).bind fun interrupted => ?_)
          split
          · exact pauseCancelled_follows req maxRetries _ attempt
          · exact ih (attempt + 1) true

/-! ### The request -/

variable {P : RunState → RunView → Prop}

/-- Without an answer the messages stay. -/
theorem answeredMessages_follows (messages : List AgentMessage) (answer : HookAnswer) :
    RunFollows plain P (answeredMessages messages answer)
      (fun result k v => (answer = {} → result = messages) ∧ P k v) := by
  unfold answeredMessages
  split
  · exact .ret fun k v h => ⟨fun _ => rfl, h⟩
  · rename_i items hitems
    refine (ofExcept_follows _).behind fun result k v h => ⟨?_, h.2⟩
    rintro rfl
    simp at hitems

/-- The hooks of the `context` event get the messages of the context. -/
theorem contextMessages_follows (messages : List AgentMessage) :
    RunFollows plain (fun k v => messages = v.messages ∧ Rest [] k v) (contextMessages req messages)
      (fun result k v => (plain → result = v.messages) ∧ Rest [] k v) := by
  refine .bind (hook_follows req.tools _ fun k _ _ h => ⟨k, .quiet rfl, h⟩) fun answer => ?_
  refine (answeredMessages_follows messages answer).behind ?_
  rintro result k v ⟨hresult, hplain, rfl, h⟩
  exact ⟨fun hp => hresult (hplain hp), h⟩

theorem requestOptions_follows : RunFollows plain P (requestOptions req) (fun _ => P) :=
  .bind (hook_follows req.tools _ fun k _ _ h => ⟨k, .quiet rfl, h⟩) fun _ => .ret fun _ _ h => h.2

theorem patchContext_follows (context : InferenceContext) :
    RunFollows plain P (patchContext req context)
      (fun result k v => (plain → result.messages = context.messages) ∧ P k v) := by
  refine .bind (hook_follows req.tools _ fun k _ _ h => ⟨k, .quiet rfl, h⟩) fun answer => ?_
  refine (answeredMessages_follows context.messages answer).bind fun messages => .ret ?_
  rintro k v ⟨hmessages, hplain, h⟩
  exact ⟨fun hp => hmessages (hplain hp), h⟩

/-- **Request.** From the end of a turn to its response. -/
theorem request_follows (systemPrompt : String) :
    RunFollows plain (Rest []) (request req systemPrompt) (fun _ => Responded) := by
  refine .bind (Q := fun messages k v => messages = v.messages ∧ Rest [] k v)
    (.gets fun k s h => ⟨rfl, h⟩) fun messages => ?_
  refine .next (Q := fun k v => messages = v.messages ∧ Rest [] k v) (.note ?_) ?_
  · rintro k v ⟨rfl, h⟩
    refine ⟨k, ?_, rfl, h⟩
    rw [← h.context]
    exact .requested h.live h.between h.unanswered h.phase
  refine (contextMessages_follows req messages).bind fun messages => ?_
  refine (requestOptions_follows req).bind fun options => (patchContext_follows req _).bind fun context => ?_
  refine .reads fun now => .bind (Q := fun attemptBase =>
    Asking plain { context with messages := normalizeInferenceMessages now context.messages }
      (attemptBase + 0)) (.gets ?_) fun attemptBase => ?_
  · rintro k s ⟨hpatched, hmessages, h⟩
    refine ⟨⟨h.toSteady, ⟨now, context.messages, rfl, fun hp => ?_⟩, h.phase⟩, h.between, h.next⟩
    rw [hpatched hp, hmessages hp, h.context]
  · exact attempts_follows req options _ attemptBase _ 0 false

end Attempts

end AeloonRuntime
