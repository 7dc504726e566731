import AeloonRuntime.Core.AbortFollows

namespace AeloonRuntime

open Py Coroutine Engine Trace

/-!
# Abort request — responses behind a cancellation

A cancelled attempt ends with a response that is not retried, a cancelled pause with an aborted one;
between two attempts a cancellation is not seen.

* `inferenceTask_held` — the stream is not opened once its task was cancelled, and a cancelled task
  ends with a final response, or swallows the cancellation;
* `attempts_held` — so do all attempts;
* `request_held` — behind a request that was cancelled where it heeds it, the response is harmless.
-/

/-! ### One attempt -/

/-- The task in flight was cancelled before its first step. -/
def AbortCond.unstarted : AbortCond := fun _ task => task = some cancelledTask

/-- The task in flight was cancelled at some time. -/
def AbortCond.requested : AbortCond := fun _ task => (task.getD {}).everRequested = true

section Attempt

variable {req : RunRequest} {C : AbortCond} {site : Site}

theorem allowed_unstarted {raises : Bool} : Allowed req true .unstarted site raises := by
  rintro n task htask -
  obtain ⟨t, rfl⟩ := Option.isSome_iff_exists.mp htask
  rfl

theorem allowed_requested {raises : Bool} : Allowed req true .requested site raises := by
  rintro n task htask -
  obtain ⟨t, rfl⟩ := Option.isSome_iff_exists.mp htask
  rfl

/-- The end of an await in the task keeps that it was cancelled. -/
theorem deliver_held (turn : Turn) :
    AbortFollows req (Held true .requested) (deliver turn) (fun _ => Held true .requested) := by
  refine act_held (by simp) ?_
  rintro k s ⟨htask, hbatch, hphase⟩
  refine ⟨by simpa using htask, hbatch, ?_⟩
  cases k with
  | live compacting => exact hphase
  | lost => trivial
  | aborted =>
    obtain ⟨hflag, hleft, hhalted, hrequested⟩ := hphase
    refine ⟨hflag, hleft, hhalted, ?_⟩
    obtain ⟨t, ht⟩ := Option.isSome_iff_exists.mp htask
    rw [ht] at hrequested
    simpa [AbortCond.requested, ht] using hrequested

/-- An await of the task. -/
theorem streaming_held {R : Exn → AbortPhase → World → Prop} :
    AbortFollows req (Held true .requested) (await req.tools .streaming)
      (fun _ => Held true .requested) R :=
  await_held (D := fun _ => .requested) (fun _ => allowed_requested) fun _ _ _ h => h

theorem emitInTask_held {type : RunEventType} {data : Dict} (htype : type ≠ .compactionStart) :
    AbortFollows req (Held true .requested) (emitInTask req.tools type data)
      (fun _ => Held true .requested) := by
  refine (publish_held htype).bind fun _ => streaming_held.bind fun turn =>
    (deliver_held turn).bind fun _ => ?_
  split
  · exact .ret fun _ _ h => h
  · exact .wait

/-- An event of the stream. -/
theorem collectStep_held (attempt : Nat) (c : Collected) :
    AbortFollows req (Held true .requested) (collectStep req attempt c)
      (fun next => next.elim (fun _ => Held true .requested) fun _ => Held true .requested) := by
  refine streaming_held.bind fun turn => (deliver_held turn).bind fun _ => ?_
  have hafter : ∀ (outcome : Except Exn Unit) (c : Collected),
      AbortFollows req (Held true .requested) (ret (afterEvent outcome c))
        (fun next => next.elim (fun _ => Held true .requested) fun _ => Held true .requested) := by
    intro outcome c
    cases outcome <;> exact .ret fun _ _ h => h
  split
  · exact .ret fun _ _ h => h
  · have hstarted : AbortFollows req (Held true .requested) (note .streamStarted)
        (fun _ => Held true .requested) := act_held (by simp [Obs.idle, Obs.begins]) fun _ _ h => h
    exact hstarted.bind fun _ => (emitInTask_held (by simp)).bind fun outcome => hafter outcome _
  · exact (emitInTask_held (by simp)).bind fun outcome => hafter outcome _
  · exact .ret fun _ _ h => h
  · split
    · exact .ret fun _ _ h => h
    · split
      · exact .ret fun _ _ h => h
      · refine (emitInTask_held (by simp)).bind fun outcome => ?_
        cases outcome <;> exact .ret fun _ _ h => h
  · exact .wait

/-- The task, once it runs: it opens no stream if it was cancelled before. -/
theorem collectAssistant_held (attempt : Nat) (context : InferenceContext) (options : StreamOptions)
    (task : InferenceTask) :
    AbortFollows req (fun k s => s.task.getD {} = task ∧ Held true .unstarted k s)
      (collectAssistant req attempt context options task) (fun _ => Held true .requested) := by
  unfold collectAssistant
  split
  · refine .ret ?_
    rintro k s ⟨-, h⟩
    exact h.weaken fun hC => by rw [hC]; rfl
  · rename_i hrequest
    refine before_held (P := Held true .barred) ?_ ?_
    · have hopened : AbortFollows req (Held true .barred) (note (.opened attempt context options))
          (fun _ => Held true .barred) := act_barred (by simp) fun _ _ h => h
      refine hopened.bind fun _ => before_held (P := Held true .requested) ?_ fun k s h => h.weaken False.elim
      have hround : ∀ c : Collected, AbortFollows req (Held true .requested) (collectStep req attempt c)
          (fun next => next.elim (fun _ => Held true .requested) fun _ => Held true .requested) :=
        collectStep_held attempt
      exact Follows.forever hround {}
    · rintro k s ⟨rfl, h⟩
      exact h.weaken fun hC => hrequest (by rw [hC]; rfl)

/-- The end of the task goes into the log: behind a heeded cancellation it did not swallow it. -/
theorem ended_held (task : InferenceTask) (outcome : Except Exn AssistantMessage) :
    AbortFollows req (fun k s => s.task.getD {} = task ∧ Held true .requested k s)
      (note (.inferenceEnded task.everRequested outcome))
      (fun _ => Held true (.given ((Obs.inferenceEnded true outcome).swallows req = false))) := by
  refine .note ?_
  rintro k s ⟨rfl, htask, hbatch, hphase⟩
  cases k with
  | live compacting => exact ⟨_, ⟨by simp, rfl⟩, htask, hbatch, hphase⟩
  | lost => exact ⟨.lost, ⟨by simp, rfl⟩, htask, hbatch, trivial⟩
  | aborted =>
    obtain ⟨hflag, hleft, hhalted, hrequested⟩ := hphase
    rw [hrequested]
    refine ⟨_, ⟨fun _ => rfl, rfl⟩, htask, hbatch, ?_⟩
    rw [AbortPhase.next]
    split
    · trivial
    · rename_i hkept
      exact ⟨hflag, hleft, hhalted, by simpa [AbortCond.given] using hkept⟩

/-- A task begins where the run was not cancelled. -/
theorem begin_held : AbortFollows req (Held false .barred) (change fun s => { s with task := some {} })
    (fun _ => Held true .barred) := by
  refine .change fun k s h => ⟨rfl, h.batch, ?_⟩
  have hphase := h.phase
  cases k with
  | live compacting => exact hphase
  | lost => trivial
  | aborted => exact hphase.2.2.2.elim

/-- A task is over. -/
theorem over_held {p : Prop} :
    AbortFollows req (Held true (.given p)) (change fun s => { s with task := none })
      (fun _ => Held false (.given p)) := by
  refine .change fun k s h => ⟨rfl, h.batch, ?_⟩
  have hphase := h.phase
  cases k <;> exact hphase

/-- **Attempt.** Behind a heeded cancellation, the outcome of an attempt did not swallow it. -/
theorem inferenceTask_held (attempt : Nat) (context : InferenceContext) (options : StreamOptions) :
    AbortFollows req (Held false .barred) (inferenceTask req attempt context options)
      (fun ended => Held false (.given ((Obs.inferenceEnded true ended.1).swallows req = false))) := by
  refine begin_held.bind fun _ => (wake_held (D := .unstarted) allowed_unstarted fun _ _ h => h.elim).bind
    fun _ => reads_held fun task => (collectAssistant_held attempt context options task).bind
    fun ended => reads_held fun task => (ended_held task _).bind fun _ => over_held.bind fun _ => ?_
  exact .ret fun _ _ h => h

/-- A response that is final is not retried, and is harmless. -/
theorem harmless_of_final {m : AssistantMessage} {failure : Option Exn} (h : req.final m failure = true) :
    isRetryableFailure req.search m failure req.model.contextWindow = false
      ∧ ∀ overflowAttempts, req.harmless overflowAttempts m = true := by
  simp only [RunRequest.final, Bool.and_eq_true, Bool.not_eq_true'] at h
  obtain ⟨⟨hretry, hoverflow⟩, hsettles⟩ := h
  refine ⟨hretry, fun n => ?_⟩
  have hrecovers : recovers req n m = false := by
    unfold recovers
    cases hcause : (decide (m.stopReason = .error) || decide (m.stopReason = .length)) with
    | false => rfl
    | true =>
      rw [hcause, Bool.true_and] at hoverflow
      simp [hoverflow]
  simp [RunRequest.harmless, hrecovers, hsettles]

/-- So is an aborted one. -/
theorem harmless_aborted (now : Int) (n : Nat) : req.harmless n (abortedMessage req.model now) = true := by
  simp [RunRequest.harmless, recovers, abortedMessage, emptyMessage, AssistantMessage.settles,
    StopReason.failed]

/-- An outcome that swallowed no cancellation gives a response that is not retried, and is harmless. -/
theorem harmless_of_kept {outcome : Except Exn AssistantMessage}
    (h : (Obs.inferenceEnded true outcome).swallows req = false) (now : Int) :
    isRetryableFailure req.search (attemptMessage req.model now outcome).1
        (attemptMessage req.model now outcome).2 req.model.contextWindow = false
      ∧ ∀ overflowAttempts, req.harmless overflowAttempts (attemptMessage req.model now outcome).1 = true := by
  rcases outcome with (_ | ⟨text, retryable, after⟩ | ⟨name, text⟩) | m
  · exact ⟨rfl, harmless_aborted now⟩
  · have hfinal : req.final (attemptMessage req.model 0 (.error (.inference text retryable after))).1
        (attemptMessage req.model 0 (.error (.inference text retryable after))).2 = true := by
      simpa [Obs.swallows] using h
    exact harmless_of_final hfinal
  · have hfinal : req.final (attemptMessage req.model 0 (.error (.error name text))).1
        (attemptMessage req.model 0 (.error (.error name text))).2 = true := by
      simpa [Obs.swallows] using h
    exact harmless_of_final hfinal
  · have hfinal : req.final (attemptMessage req.model 0 (.ok m)).1
        (attemptMessage req.model 0 (.ok m)).2 = true := by
      simpa [Obs.swallows] using h
    exact harmless_of_final hfinal

end Attempt

/-! ### All attempts -/

/-- Behind a heeded cancellation the response is harmless. -/
def AbortCond.harmless (req : RunRequest) (m : AssistantMessage) : AbortCond :=
  fun overflowAttempts _ => req.harmless overflowAttempts m = true

/-- Nor is it retried. -/
def AbortCond.last (req : RunRequest) (m : AssistantMessage) (retries : Bool) : AbortCond :=
  fun overflowAttempts _ => retries = false ∧ req.harmless overflowAttempts m = true

section Attempts

variable {req : RunRequest}

/-- A cancelled pause is interrupted. -/
theorem pause_held : AbortFollows req (Held false .barred) (pause req)
    (fun interrupted => Held false (.given (interrupted = true))) := by
  refine begin_held.bind fun _ => (wake_held (D := .unstarted) allowed_unstarted fun _ _ h => h.elim).bind
    fun _ => reads_held fun interrupted => ?_
  refine (before_held over_held ?_).bind fun _ => (wake_held (allowed_given fun _ h => h) fun _ _ h => h).bind
    fun _ => .ret fun _ _ h => h
  rintro k s ⟨rfl, h⟩
  exact h.weaken fun hC => by rw [hC]; rfl

/-- The numbers of the attempts are no concern of it. -/
theorem setLastAttempt_held {C : AbortCond} (attemptId : Nat) :
    AbortFollows req (Held false C) (setLastAttempt attemptId) (fun _ => Held false C) :=
  act_held (by simp) fun k s h => h.stay rfl rfl rfl rfl id

/-- The response behind a cancelled pause is harmless. -/
theorem pauseCancelled_held (maxRetries attemptId attempt : Nat) {C : AbortCond} :
    AbortFollows req (Held false C) (pauseCancelled req maxRetries attemptId attempt)
      (fun m => Held false (.harmless req m)) := by
  refine reads_held fun now => before_held (P := Held false C) ?_ fun _ _ h => h.2
  refine (setLastAttempt_held _).bind fun _ => (emit_free (by simp)).bind fun _ =>
    (emit_free (by simp)).bind fun _ => .ret fun k s h => ?_
  exact h.weaken fun _ => harmless_aborted now _

/-- The attempt that is not retried. -/
theorem lastAttempt_held (maxRetries attemptId attempt : Nat) (attemptedRetry : Bool)
    (m : AssistantMessage) :
    AbortFollows req (Held false (.harmless req m))
      (lastAttempt req maxRetries attemptId attempt attemptedRetry m)
      (fun m => Held false (.harmless req m)) := by
  refine (setLastAttempt_held _).bind fun _ => .bind (Q := fun _ => Held false (.harmless req m))
    (.onlyIf (fun _ => emit_held (by simp) ?_ fun _ _ h => h) fun _ _ _ h => h) fun _ => .ret fun _ _ h => h
  rintro n task - (hC | hraises | hheeds)
  · exact hC
  · simp at hraises
  · exact hheeds

/-- **Attempts.** Behind a heeded cancellation no further attempt begins, and the response is
    harmless. -/
theorem attempts_held (context : InferenceContext) (options : StreamOptions)
    (maxRetries attemptBase remaining attempt : Nat) (attemptedRetry : Bool) :
    AbortFollows req (Held false .barred)
      (attempts req context options maxRetries attemptBase remaining attempt attemptedRetry)
      (fun m => Held false (.harmless req m)) := by
  induction remaining generalizing attempt attemptedRetry with
  | zero => exact .raise fun _ _ h => h.free
  | succ remaining ih =>
    refine (inferenceTask_held _ context _).bind fun ended => reads_held fun now => ?_
    extract_lets m failure retries
    have hkept : ∀ n task, AbortCond.given ((Obs.inferenceEnded true ended.1).swallows req = false) n task →
        AbortCond.last req m retries n task := by
      intro n task hkept
      obtain ⟨hretry, hharmless⟩ := harmless_of_kept hkept now
      refine ⟨?_, hharmless n⟩
      show (isRetryableFailure req.search m failure req.model.contextWindow && _) = false
      rw [show isRetryableFailure req.search m failure req.model.contextWindow = false from hretry,
        Bool.false_and]
    have hsite : Allowed req false (.last req m retries) (.attemptEnd m retries) false := by
      rintro n task - (hC | hraises | hheeds)
      · exact hC
      · simp at hraises
      · simpa [Site.heeds, AbortCond.last] using hheeds
    refine .bind (Q := fun _ => Held false (.last req m retries))
      (before_held (wake_held hsite hkept) ?_) fun _ =>
      .bind (Q := fun _ => Held false (.last req m retries)) (.onlyIf (fun _ => ?_) fun _ _ _ h => h)
        fun _ => ?_
    · rintro k s ⟨-, h⟩
      exact h
    · exact emit_held (by simp) hsite fun _ _ h => h
    · split
      · exact before_held (lastAttempt_held _ _ _ _ m) fun _ _ h => h.weaken And.right
      · rename_i hretries
        refine before_held (P := Held false .barred) ?_ fun _ _ h => h.weaken fun hC => hretries (by simp [hC.1])
        refine (emit_barred fun _ => rfl).bind fun _ => (emit_barred fun _ => rfl).bind fun _ =>
          pause_held.bind fun interrupted => ?_
        split
        · exact pauseCancelled_held _ _ _
        · rename_i hinterrupted
          exact before_held (ih _ _) fun _ _ h => h.weaken fun hC => hinterrupted hC

/-! ### The request -/

/-- What a hook answers instead of the messages. -/
theorem answeredMessages_held {C : AbortCond} (messages : List AgentMessage) (answer : HookAnswer) :
    AbortFollows req (Held false C) (answeredMessages messages answer) (fun _ => Held false C) := by
  unfold answeredMessages
  split
  · exact .ret fun _ _ h => h
  · rename_i items hitems
    cases decodeMessages items with
    | ok messages => exact .ret fun _ _ h => h
    | error e => exact .raise fun _ _ h => h.free

/-- A hook of the request, which heeds no cancellation. -/
theorem requestHook_held {type : RunEventType} {data : Dict} (htype : type ≠ .compactionStart) :
    AbortFollows req (Held false .barred) (hook req.tools .requestHook type data)
      (fun _ => Held false .barred) :=
  hook_held htype (allowed_barred fun _ => rfl) fun _ _ h => h

/-- **Request.** Behind a request that heeds its cancellation, the response is harmless. -/
theorem request_held (systemPrompt : String) :
    AbortFollows req (Held false .barred) (request req systemPrompt)
      (fun m => Held false (.harmless req m)) := by
  refine reads_held fun messages => ?_
  have hrequested : AbortFollows req (fun k s => s.messages = messages ∧ Held false .barred k s)
      (note (.requested messages)) (fun _ => Held false .barred) := by
    refine before_held (P := Held false .barred) ?_ fun _ _ h => h.2
    exact act_held (by simp [Obs.idle, Obs.begins]) fun _ _ h => h
  have hmessages : AbortFollows req (Held false .barred) (contextMessages req messages)
      (fun _ => Held false .barred) :=
    (requestHook_held (by simp)).bind fun answer => answeredMessages_held _ answer
  have hoptions : AbortFollows req (Held false .barred) (requestOptions req)
      (fun _ => Held false .barred) := (requestHook_held (by simp)).bind fun _ => .ret fun _ _ h => h
  have hcontext : ∀ context, AbortFollows req (Held false .barred) (patchContext req context)
      (fun _ => Held false .barred) := fun context =>
    (requestHook_held (by simp)).bind fun answer => (answeredMessages_held _ answer).bind
      fun _ => .ret fun _ _ h => h
  refine hrequested.bind fun _ => hmessages.bind fun messages => hoptions.bind fun options =>
    (hcontext _).bind fun context => reads_held fun now => reads_held fun attemptBase => ?_
  refine before_held (attempts_held _ options _ attemptBase _ 0 false) ?_
  rintro k s ⟨-, -, h⟩
  exact h

end Attempts

end AeloonRuntime
