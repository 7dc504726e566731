import AeloonRuntime.Core.AbortRequest
import AeloonRuntime.Core.RunEvents

namespace AeloonRuntime

open Py Coroutine Engine Trace

/-!
# Abort run — nothing begins behind a cancellation

Every run follows the abort protocol.  So behind a `cancel` that finds the run at a point that heeds it
nothing begins, unless awaited code swallows the cancellation.

* `executeCalls_held` — a batch, whose tasks a cancellation halts;
* `accept_held`, `recover_held`, `turn_held` — what the loop does with a response;
* `runAgent_aborts` — the log of every run is a run of the abort protocol;
* `nothing_begins_after_cancel` — the result.
-/

/-! ### Messages and tools -/

section Tools

variable {req : RunRequest} {C : AbortCond} {site : Site}

/-- Where the flag is not set, the run was not cancelled at a heeded point. -/
theorem Held.barred_of_unset {inFlight : Bool} {k : AbortPhase} {s : World} (h : Held inFlight C k s)
    (hunset : s.ctl.abortRequested = false) : Held inFlight .barred k s := by
  refine ⟨h.task, h.batch, ?_⟩
  have hphase := h.phase
  cases k with
  | live compacting => exact hphase
  | aborted => exact absurd hphase.1 (by simp [hunset])
  | lost => trivial

/-- A message, with its events. -/
theorem append_held (hsite : Allowed req false C site false) (origin : Option RunInputKind)
    (message : AgentMessage) (attempt : Option Nat) :
    AbortFollows req (Held false C) (append req.tools site origin message attempt)
      (fun _ => Held false C) := by
  have hadd : AbortFollows req (Held false C) (addMessage origin message) (fun _ => Held false C) :=
    act_held (by simp [Obs.idle, Obs.begins]) fun k s h => h.stay rfl rfl rfl rfl id
  exact (emit_held (by simp) hsite fun _ _ h => h).bind fun _ => hadd.bind fun _ =>
    emit_held (by simp) hsite fun _ _ h => h

/-- The response, with the event of its end. -/
theorem appendStarted_held (final : AssistantMessage) (attempt : Nat) :
    AbortFollows req (Held false (.given (final.settles = true)))
      (appendStarted req.tools final attempt) (fun _ => Held false (.given (final.settles = true))) := by
  have hadd : AbortFollows req (Held false (.given (final.settles = true)))
      (addMessage none (.assistant final)) (fun _ => Held false (.given (final.settles = true))) :=
    act_held (by simp [Obs.idle, Obs.begins]) fun k s h => h.stay rfl rfl rfl rfl id
  exact hadd.bind fun _ => emit_held (by simp) (allowed_given fun _ h => h) fun _ _ h => h

/-- The calls of a response that was cut off. -/
theorem failTruncatedCalls_held (calls : List ToolCall) :
    AbortFollows req (Held false .free) (failTruncatedCalls req calls) (fun _ => Held false .free) := by
  induction calls with
  | nil => exact .ret fun _ _ h => h
  | cons call calls ih =>
    refine (emit_free (by simp)).bind fun _ => reads_held fun now => ?_
    refine .bind (Q := fun _ => Held false .free)
      (before_held (P := Held false .free) (emit_free (by simp)) ?_) fun _ => ih.bind fun _ => .ret fun _ _ h => h
    rintro k s ⟨-, h⟩
    exact h

/-- Inside `execute_calls`: an exception may have gone through. -/
structure InBatch (k : AbortPhase) (s : World) : Prop where
  task : s.task.isSome = false
  phase : InPhase .free s k

/-- An event of the batch. -/
theorem takeEvent_held {event : Event} (hevent : event ≠ .cancel) :
    AbortFollows req InBatch (takeEvent req event) (fun _ => InBatch) := by
  refine reads_held fun found => ?_
  split
  · exact .wait
  · rename_i hsome
    refine .act ?_
    rintro k s ⟨rfl, htask, hphase⟩
    obtain ⟨⟨after, log⟩, hfound⟩ : ∃ found, batchEvent req event s = some found :=
      Option.ne_none_iff_exists'.mp (by simpa using hsome)
    rw [hfound]
    unfold batchEvent at hfound
    obtain ⟨before, hbatch, hafter⟩ := Option.bind_eq_some_iff.mp hfound
    obtain ⟨after', hstep, heq⟩ := Option.map_eq_some_iff.mp hafter
    obtain ⟨rfl, rfl⟩ := Prod.mk.inj heq
    cases k with
    | live compacting =>
      obtain ⟨compacting', hsteps⟩ := steps_live req batchObs_uncancelled compacting
      exact ⟨_, hsteps, htask, hphase⟩
    | lost => exact ⟨.lost, steps_lost _, htask, trivial⟩
    | aborted =>
      obtain ⟨hflag, hleft, hhalted, hC⟩ := hphase
      rw [hbatch] at hhalted
      refine (steps_batchObs (by simpa using hhalted) (fun isAborted hwake => ?_) ?_ hstep s.ctl).elim
        (fun hsteps => ?_) ?_
      · -- `is_aborted` is asked here, and the flag is set.
        cases event <;> simp at hwake
        rw [← hwake, hflag]
      · cases event <;> first | exact absurd rfl hevent | simp
      · exact ⟨.lost, hsteps, htask, trivial⟩
      · rintro ⟨hsteps, hdone⟩
        exact ⟨.aborted, hsteps, htask, hflag, hleft, by simpa using hdone, hC⟩

/-- One round of `execute_calls`. -/
theorem batchStep_held (u : Unit) :
    AbortFollows req InBatch (batchStep req u)
      (fun next => next.elim (fun _ => InBatch) fun _ => Held false .free) := by
  refine reads_held fun batch => ?_
  split
  · rename_i results
    refine .bind (Q := fun _ => Held false .free) (.change ?_) fun _ => .ret fun _ _ h => h
    rintro k s ⟨-, htask, hphase⟩
    refine ⟨htask, rfl, ?_⟩
    cases k with
    | live compacting => exact hphase
    | lost => trivial
    | aborted => exact ⟨hphase.1, hphase.2.1, rfl, trivial⟩
  · rename_i e left
    refine .bind (Q := fun _ => Held false .free) (.change ?_) fun _ => .raise fun _ _ h => h
    rintro k s ⟨hbatch, htask, hphase⟩
    refine ⟨htask, rfl, ?_⟩
    cases k with
    | live compacting => exact hphase
    | lost => trivial
    | aborted =>
      obtain ⟨hflag, hleft, hhalted, -⟩ := hphase
      rw [hbatch] at hhalted
      refine ⟨hflag, ?_, rfl, trivial⟩
      show (s.left ++ left).all Task.halted = true
      rw [List.all_append, hleft]
      simpa [Batch.halted] using hhalted
  · rename_i hreturned hraised
    refine .bind (Q := fun _ => Held false .free) ?_ fun turn => ?_
    · refine before_held (P := Held false .free)
        (await_held (D := fun _ => .free) (fun _ => allowed_free) fun _ _ _ h => h) ?_
      rintro k s ⟨rfl, htask, hphase⟩
      refine ⟨htask, ?_, hphase⟩
      cases hbatch : s.batch with
      | none => rfl
      | some b =>
        cases b <;> first | rfl | exact absurd hbatch (hraised _ _)
    · split
      · exact .wait
      · rename_i event hevent _
        exact .bind (Q := fun _ => InBatch)
          (before_held (takeEvent_held hevent) fun k s h => ⟨h.task, h.phase⟩) fun _ => .ret fun _ _ h => h
      · exact .wait

/-- **Batch.** It starts only where the run was not cancelled at a heeded point. -/
theorem executeCalls_held (calls : List ToolCall) :
    AbortFollows req (Held false .barred) (executeCalls req calls) (fun _ => Held false .free) := by
  refine .bind (Q := fun _ => InBatch) (.change ?_) fun _ => ?_
  · rintro k s h
    refine ⟨h.task, ?_⟩
    have hphase := h.phase
    cases k with
    | live compacting => exact hphase
    | lost => trivial
    | aborted => exact hphase.2.2.2.elim
  · exact Follows.forever (I := fun _ => InBatch) (Q := fun _ => Held false .free) batchStep_held ()

end Tools

/-! ### Compaction -/

section Compaction

variable {req : RunRequest} {C : AbortCond} {site : Site} {α : Type}

/-- A program in front of which a field is read that does not matter. -/
theorem skip_held {β : Type} {P : AbortPhase → World → Prop} {Q : α → AbortPhase → World → Prop}
    {f : World → β} {g : β → Engine α} (h : ∀ b, AbortFollows req P (g b) Q) :
    AbortFollows req P (gets f >>= g) Q :=
  .bind (.gets fun _ _ hP => hP) h

/-- A handler that lets cancellations go on. -/
theorem attemptException_held {P : AbortPhase → World → Prop} {Q : α → AbortPhase → World → Prop}
    {m : Engine α} {handler : Exn → Engine α} (hm : AbortFollows req P m Q)
    (hh : ∀ e, AbortFollows req (Held false .free) (handler e) Q) :
    AbortFollows req P (attemptException m handler) Q := by
  refine .attempt hm fun e => ?_
  split
  · exact .raise fun _ _ h => h
  · exact hh e

/-- The compactor's answer. -/
theorem awaitCompactor_held (hsite : Allowed req false C site false) :
    AbortFollows req (Held false C) (awaitCompactor req site) (fun _ => Held false C) := by
  refine (await_heeded hsite fun _ _ h => h).bind fun turn => ?_
  split
  · exact .ret fun k s h => h.returned (by simp only [*, TurnReply.raises])
  · exact .raise fun k s h => h.free
  · exact .wait

/-- **Compaction.** It starts only where the run was not cancelled at a heeded point. -/
theorem compact_held (hsite : Allowed req false C site false) (reason : CompactionReason)
    (willRetry : Bool) :
    AbortFollows req (Held false .barred) (compact req site reason willRetry) (fun _ => Held false C) := by
  have hstart : AbortFollows req (Held false .barred)
      (emit req.tools site .compactionStart [("reason", .str reason.text)]) (fun _ => Held false C) :=
    emit_of_publish (act_barred (fun _ o ho p => by rw [List.mem_singleton.mp ho]; simp) fun _ _ h => h)
      hsite fun _ _ h => h.elim
  have hupdate : ∀ update, AbortFollows req (Held false C)
      (act (fun s => s.update update) fun _ => [.compacted update]) (fun _ => Held false C) :=
    fun update => act_held (by simp [Obs.idle, Obs.begins]) fun k s h => h.stay rfl rfl rfl rfl id
  refine hstart.bind fun _ => (awaitCompactor_held hsite).bind fun update => (hupdate update).bind fun _ => ?_
  exact (emit_held (by simp) hsite fun _ _ h => h).bind fun _ => emit_held (by simp) hsite fun _ _ h => h

/-- A compaction before or behind the loop. -/
theorem compactAround_held (reason : CompactionReason) :
    AbortFollows req (Held false .barred) (compactAround req reason) (fun _ => Held false .free) :=
  attemptException_held (compact_held allowed_free reason false) fun _ => emit_free (by simp)

end Compaction

/-! ### The loop -/

section Loop

variable {req : RunRequest} {C : AbortCond}

theorem agentEnd_held : AbortFollows req (Held false C) (agentEnd req) (fun _ => Held false .free) :=
  skip_held fun _ => emit_free (by simp)

/-- The messages of a queue; the event of it heeds no cancellation. -/
theorem drain_held (kind : RunInputKind) :
    AbortFollows req (Held false .barred) (drain req kind) (fun _ => Held false .barred) := by
  refine skip_held fun ctl => ?_
  split
  · exact .ret fun _ _ h => h
  · have hdrained : AbortFollows req (Held false .barred)
        (act (fun s => { s with ctl := s.ctl.drain kind }) fun s => [.drained kind (s.ctl.drained kind)])
        (fun _ => Held false .barred) := act_held (by simp [Obs.idle, Obs.begins]) fun k s h =>
      h.stay rfl rfl rfl (RunController.setQueue_abortRequested _ _ _) id
    have hupdate : AbortFollows req (Held false .barred)
        (onlyIf ctl.active (emit req.tools .queueUpdate .queueUpdate (ctl.drain kind).snapshot))
        (fun _ => Held false .barred) := .onlyIf (fun _ => emit_barred fun _ => rfl) fun _ _ _ h => h
    exact hdrained.bind fun _ => hupdate.bind fun _ => .ret fun _ _ h => h

/-- The results of a response's calls: none is executed behind a heeded cancellation. -/
theorem answerCalls_held {final : AssistantMessage} (hkept : final.stopReason.failed = false) :
    AbortFollows req (Held false (.given (final.settles = true))) (answerCalls req final)
      (fun _ => Held false .free) := by
  unfold answerCalls
  split
  · exact .ret fun _ _ h => h.free
  · rename_i hcalls
    have hresults : AbortFollows req (Held false (.given (final.settles = true))) (callResults req final)
        (fun _ => Held false .free) := by
      unfold callResults
      split
      · exact (before_held (failTruncatedCalls_held _) fun _ _ h => h.free).bind fun _ => .ret fun _ _ h => h
      · rename_i hlength
        refine before_held (executeCalls_held _) fun _ _ h => h.weaken fun hsettles => ?_
        simp [AssistantMessage.settles, AbortCond.given, hkept, hcalls, hlength] at hsettles
    refine hresults.bind fun answers => .bind (Q := fun _ => Held false .free) ?_ fun _ => .ret fun _ _ h => h
    exact Follows.each (I := fun _ => Held false .free)
      (fun result _ => append_held allowed_free none (.toolResult result) none) answers.1

/-- Behind a round that ends the run nothing begins any more; another one begins only where the run
    was not cancelled at a heeded point. -/
abbrev AfterAbort (next : LoopState ⊕ AssistantMessage) : AbortPhase → World → Prop :=
  next.elim (fun _ => Held false .barred) fun _ => Held false .free

/-- **Response.** Behind one that was cancelled, the loop looks at the flag. -/
theorem accept_held (final : AssistantMessage) :
    AbortFollows req (Held false (.given (final.settles = true))) (accept req final) AfterAbort := by
  refine skip_held fun attempt => (appendStarted_held final attempt).bind fun _ => ?_
  split
  · exact (emit_free (by simp)).bind fun _ => agentEnd_held.bind fun _ => .ret fun _ _ h => h
  · rename_i hkept
    refine (answerCalls_held (by simpa using hkept)).bind fun answers =>
      (emit_free (by simp)).bind fun _ => reads_held fun aborted => ?_
    split
    · refine .bind (Q := fun _ => Held false .free)
        (before_held (P := Held false .free) agentEnd_held ?_) fun _ => .ret fun _ _ h => h
      exact fun _ _ h => h.2
    · rename_i haborted
      refine .bind (Q := fun _ => Held false .barred)
        (before_held (P := Held false .barred) (drain_held .steer) ?_) fun _ => .ret fun _ _ h => h
      exact fun _ _ h => h.2.barred_of_unset (h.1.trans (by simpa using haborted))

/-- The failure of a recovery ends the run. -/
theorem recoveryFailed_held (final : AssistantMessage) (e : Exn) :
    AbortFollows req (Held false .free) (recoveryFailed req final e)
      (fun failed k s => failed.isSome = true ∧ Held false .free k s) := by
  refine .bind (Q := fun _ => Held false .free) (emit_free (by simp)) fun _ => skip_held fun aborted => ?_
  split
  · refine skip_held fun now => skip_held fun attempt => ?_
    exact (append_held allowed_free none _ _).bind fun _ => .ret fun _ _ h => ⟨rfl, h⟩
  · exact .ret fun _ _ h => ⟨rfl, h⟩

/-- A response that overflowed. -/
theorem recover_held (st : LoopState) (final : AssistantMessage) :
    AbortFollows req (Held false .barred) (recover req st final) AfterAbort := by
  have hcount : AbortFollows req (Held false .barred)
      (change fun s => { s with overflowAttempts := s.overflowAttempts + 1 }) (fun _ => Held false .barred) :=
    act_held (by simp) fun k s h => h.stay rfl rfl rfl rfl id
  have hadd : AbortFollows req (Held false .barred) (addNewMessage (.assistant final))
      (fun _ => Held false .barred) :=
    act_held (by simp [Obs.idle, Obs.begins]) fun k s h => h.stay rfl rfl rfl rfl id
  refine hcount.bind fun _ => skip_held fun attempt => (emit_barred fun _ => rfl).bind fun _ =>
    hadd.bind fun _ => (emit_barred fun _ => rfl).bind fun _ =>
    .bind (Q := fun failed => Held false (.given (failed.isSome = true)))
      (attemptException_held ?_ fun e => ?_) fun failed => ?_
  · refine (compact_held (allowed_barred fun _ => rfl) _ _).bind fun _ => .ret fun _ _ h => ?_
    exact h.weaken False.elim
  · refine (recoveryFailed_held final e).mono (fun _ _ h => h) ?_ fun _ _ _ h => h
    rintro failed k s ⟨hsome, h⟩
    exact h.weaken fun _ => hsome
  · cases failed with
    | none => exact .ret fun _ _ h => h.weaken fun hC => by simp [AbortCond.given] at hC
    | some final => exact agentEnd_held.bind fun _ => .ret fun _ _ h => h

/-- **Turn.** -/
theorem turn_held (systemPrompt : String) (st : LoopState) :
    AbortFollows req (Held false .barred) (turn req systemPrompt st) AfterAbort := by
  have hpending : AbortFollows req (Held false .barred)
      (each (fun item => append req.tools .pendingMessage (some item.1) (.user item.2)) st.pending)
      (fun _ => Held false .barred) :=
    Follows.each (I := fun _ => Held false .barred)
      (fun item _ => append_held (allowed_barred fun _ => rfl) (some item.1) (.user item.2) none) st.pending
  refine .bind (Q := fun _ => Held false .barred)
    (.onlyIf (fun _ => emit_barred fun _ => rfl) fun _ _ _ h => h) fun _ =>
    hpending.bind fun _ => (request_held systemPrompt).bind fun final => reads_held fun attempts => ?_
  split
  · rename_i hrecovers
    refine before_held (recover_held st final) ?_
    rintro k s ⟨rfl, h⟩
    exact h.weaken fun hharmless => by simp [AbortCond.harmless, RunRequest.harmless, hrecovers] at hharmless
  · split
    · refine before_held (accept_held _) ?_
      rintro k s ⟨-, h⟩
      exact h.weaken fun _ => rfl
    · rename_i hexhausted
      refine before_held (accept_held final) ?_
      rintro k s ⟨rfl, h⟩
      refine h.weaken fun hharmless => ?_
      simp only [AbortCond.harmless, RunRequest.harmless, Bool.and_eq_true, Bool.or_eq_true] at hharmless
      exact hharmless.2.resolve_left hexhausted

/-- **Round.** -/
theorem loopStep_held (systemPrompt : String) (st : LoopState) :
    AbortFollows req (Held false .barred) (loopStep req systemPrompt st) AfterAbort := by
  unfold loopStep
  split
  · exact turn_held systemPrompt st
  · refine (drain_held .followUp).bind fun followUp => ?_
    split
    · exact .ret fun _ _ h => h
    · split
      · exact .raise fun _ _ h => h.free
      · exact agentEnd_held.bind fun _ => .ret fun _ _ h => h

/-- The initial messages. -/
theorem appendAll_held (initial : List AgentMessage) :
    AbortFollows req (Held false .free) (each (append req.tools .opening none) initial)
      (fun _ => Held false .free) :=
  Follows.each (I := fun _ => Held false .free)
    (fun message _ => append_held allowed_free none message none) initial

/-- **Loop.** -/
theorem runLoop_held (initial : List AgentMessage) (systemPrompt : String) :
    AbortFollows req (Held false C) (runLoop req initial systemPrompt) (fun _ => Held false .free) := by
  refine (emit_free (by simp)).bind fun _ => (emit_free (by simp)).bind fun _ =>
    (appendAll_held initial).bind fun _ => reads_held fun aborted => ?_
  split
  · refine before_held (P := Held false .free) ?_ fun _ _ h => h.2
    refine skip_held fun now => skip_held fun attempt => (append_held allowed_free none _ _).bind fun _ =>
      (emit_free (by simp)).bind fun _ => agentEnd_held.bind fun _ => .ret fun _ _ h => h
  · rename_i haborted
    refine .bind (Q := fun _ => Held false .barred)
      (before_held (P := Held false .barred) (drain_held .steer) ?_) fun pending => ?_
    · exact fun _ _ h => h.2.barred_of_unset (h.1.trans (by simpa using haborted))
    · have hround : ∀ st, AbortFollows req (Held false .barred) (loopStep req systemPrompt st) AfterAbort :=
        loopStep_held systemPrompt
      exact Follows.forever hround ({ pending := pending } : LoopState)

end Loop

/-! ### The run -/

section Run

variable {req : RunRequest}

theorem finishInputError_held (initial : List AgentMessage) (final : AssistantMessage) {C : AbortCond} :
    AbortFollows req (Held false C) (finishInputError req initial final) (fun _ => Held false .free) := by
  refine (emit_free (by simp)).bind fun _ => (emit_free (by simp)).bind fun _ =>
    (appendAll_held initial).bind fun _ => (append_held allowed_free none _ _).bind fun _ => ?_
  exact (emit_free (by simp)).bind fun _ => agentEnd_held.bind fun _ => .ret fun _ _ h => h

theorem resultOfRun_held (final : AssistantMessage) (update : Option ContextUpdate) :
    AbortFollows req (Held false .free) (resultOfRun final update) (fun _ => Held false .free) :=
  skip_held fun _ => .ret fun _ _ h => h

/-- Behind the loop, a compaction starts only where the flag is not set. -/
theorem compactBehind_held (final : AssistantMessage) :
    AbortFollows req (Held false .free) (compactBehind req final) (fun _ => Held false .free) := by
  refine reads_held fun aborted => skip_held fun messages => skip_held fun exceeds => ?_
  have hunset : aborted = false → ∀ reason, AbortFollows req
      (fun k s => s.ctl.abortRequested = aborted ∧ Held false .free k s) (compactAround req reason)
      (fun _ => Held false .free) := fun haborted reason =>
    before_held (compactAround_held reason) fun _ _ h => h.2.barred_of_unset (h.1.trans haborted)
  split
  · rename_i hoverflow
    simp only [Bool.and_eq_true, Bool.not_eq_true'] at hoverflow
    exact hunset hoverflow.1.1.2 .overflow
  · refine .onlyIf (fun hthreshold => ?_) fun _ _ _ h => h.2
    simp only [Bool.and_eq_true, Bool.not_eq_true'] at hthreshold
    exact hunset hthreshold.1.2 .threshold

theorem runWith_held (initial : List AgentMessage) (systemPrompt : String) :
    AbortFollows req (Held false (.given ((req.hasCompactor && req.contextPolicy.enabled) = false)))
      (runWith req initial systemPrompt) (fun _ => Held false .free) := by
  refine skip_held fun now => ?_
  split
  · exact (finishInputError_held initial _).bind fun final => resultOfRun_held final none
  · refine skip_held fun messages => reads_held fun exceeds =>
      .bind (Q := fun _ => Held false .free) (.onlyIf (fun hexceeds => ?_) fun _ _ _ h => h.2.free) fun _ => ?_
    · refine before_held (compactAround_held .threshold) ?_
      rintro k s ⟨hover, h⟩
      refine h.weaken fun hnever => ?_
      rw [hexceeds, Bool.and_eq_true] at hover
      have henabled : req.contextPolicy.enabled = true := by
        have hshould := hover.2
        unfold shouldCompact at hshould
        exact (Bool.and_eq_true _ _ ▸ hshould).1
      simp [AbortCond.given, hover.1, henabled] at hnever
    · exact (runLoop_held initial systemPrompt).bind fun final => (compactBehind_held final).bind fun _ =>
        skip_held fun update => resultOfRun_held final update

theorem runBody_held :
    AbortFollows req (Held false .barred) (runBody req) (fun _ => Held false .free) := by
  have hsite : Allowed req false (.given ((req.hasCompactor && req.contextPolicy.enabled) = false))
      .beforeAgentStart false := allowed_given fun _ hheeds => (Bool.not_eq_true' _).mp hheeds
  exact (hook_held (by simp) hsite fun _ _ h => h.elim).bind fun answer =>
    (answeredMessages_held _ answer).bind fun initial => runWith_held initial _

/-- The `finally` of `run`. -/
theorem settle_held :
    AbortFollows req (Held false .free) (settle req) (fun _ _ _ => True) (fun _ _ _ => True) := by
  have hsettled : AbortFollows req (Held false .free)
      (emit req.tools .settled .settled [("nextTurnCount", .int 0)]) (fun _ _ _ => True)
      (fun _ _ _ => True) :=
    (emit_free (by simp)).mono (fun _ _ h => h) (fun _ _ _ _ => trivial) fun _ _ _ _ => trivial
  exact hsettled.bind fun _ => .change fun _ _ _ => trivial

/-- In front of a run. -/
structure Idle (k : AbortPhase) (s : World) : Prop where
  phase : ∃ compacting, k = .live compacting
  task : s.task = none
  batch : s.batch = none

theorem run_held :
    AbortFollows req Idle (run req) (fun _ _ _ => True) (fun _ _ _ => True) := by
  refine reads_held fun bound => ?_
  have hbound : AbortFollows req (fun k s => s.ctl.bind = bound ∧ Idle k s) (ofExcept bound)
      (fun ctl k s => ctl.abortRequested = false ∧ Idle k s) (fun _ _ _ => True) := by
    cases bound with
    | error e => exact .raise fun _ _ _ => trivial
    | ok ctl =>
      refine .ret ?_
      rintro k s ⟨hbind, h⟩
      refine ⟨?_, h⟩
      unfold RunController.bind at hbind
      split at hbind
      · simp at hbind
      · rw [← Except.ok.inj hbind]
  refine hbound.bind fun ctl => .bind (Q := fun _ => Held false .barred) (.change ?_) fun _ => ?_
  · rintro k s ⟨hflag, ⟨compacting, rfl⟩, htask, hbatch⟩
    exact ⟨by simp [htask], by simp [hbatch], hflag⟩
  · have hraised : ∀ e : Exn, AbortFollows req (Held false .free)
        (settle req >>= fun _ => (raise e : Engine RunResult)) (fun _ => Held false .free)
        (fun _ _ _ => True) := fun e => settle_held.bind fun _ => .raise fun _ _ _ => trivial
    have hbody : AbortFollows req (Held false .barred)
        (attempt (runBody req) fun e => settle req >>= fun _ => raise e) (fun _ => Held false .free)
        (fun _ _ _ => True) := Follows.attempt runBody_held hraised
    exact hbody.bind fun result => settle_held.bind fun _ => .ret fun _ _ _ => trivial

/-- **Runs.** The log of every run is a run of the abort protocol. -/
theorem runAgent_aborts (req : RunRequest) (ctl : RunController) (script : List Turn) :
    ∃ k, Steps (AbortStep req) (.live false) (runAgent req (World.create req ctl) script).log k := by
  have hrun : AbortFollows req Idle (runAgent req) (fun _ _ _ => True) (fun _ _ _ => True) := by
    unfold runAgent
    split
    · exact .raise fun _ _ _ => trivial
    · split
      · exact .raise fun _ _ _ => trivial
      · exact run_held
  obtain ⟨-, k, hsteps, -⟩ := hrun (.live false) (World.create req ctl) script (fun _ _ => trivial)
    ⟨⟨false, rfl⟩, rfl, rfl⟩
  exact ⟨k, hsteps⟩

end Run

/-! ### Behind a cancellation -/

/-- The first cancellation finds the run at a heeded point, and no awaited code swallows one. -/
structure HeedsCancel (req : RunRequest) (log : List Obs) : Prop where
  heeded : ∀ front p back, log = front ++ .cancelled p :: back → (∀ q, .cancelled q ∉ front) →
    p.heeded req (compacting front) = true
  kept : ∀ o ∈ log, o.swallows req = false

section Logs

variable {req : RunRequest} {log : List Obs}

theorem HeedsCancel.of_append {front back : List Obs} (h : HeedsCancel req (front ++ back)) :
    HeedsCancel req front := by
  refine ⟨fun before p behind hsplit => ?_, fun o ho => h.kept o (List.mem_append_left back ho)⟩
  exact h.heeded before p (behind ++ back) (by rw [hsplit]; simp)

/-- What a log leads to: until the first cancellation the run is live, and from it on it is aborted. -/
theorem phase_of_heeds {k : AbortPhase} (h : Steps (AbortStep req) (.live false) log k)
    (hheeds : HeedsCancel req log) :
    ((∀ p, .cancelled p ∉ log) ∧ k = .live (compacting log)) ∨ ((∃ p, .cancelled p ∈ log) ∧ k = .aborted) := by
  have halong := h.along (I := fun k front => HeedsCancel req front →
    ((∀ p, .cancelled p ∉ front) ∧ k = .live (compacting front))
      ∨ ((∃ p, .cancelled p ∈ front) ∧ k = .aborted)) ?_ fun _ => .inl ⟨by simp, rfl⟩
  · exact halong hheeds
  · rintro k front o k' hbefore ⟨-, rfl⟩ hheeds
    rcases hbefore hheeds.of_append with ⟨hnone, rfl⟩ | ⟨⟨p, hp⟩, rfl⟩
    · by_cases hcancel : ∃ p, o = .cancelled p
      · obtain ⟨p, rfl⟩ := hcancel
        have hpoint := hheeds.heeded front p [] rfl hnone
        exact .inr ⟨⟨p, by simp⟩, if_pos hpoint⟩
      · have hother : ∀ p, o ≠ .cancelled p := fun p hp => hcancel ⟨p, hp⟩
        refine .inl ⟨fun p hp => ?_, ?_⟩
        · rcases List.mem_append.mp hp with hp | hp
          · exact hnone p hp
          · exact hother p (List.mem_singleton.mp hp).symm
        · rw [show compacting (front ++ [o]) = o.compacting (compacting front) from List.foldl_append]
          cases o <;> first | rfl | exact absurd rfl (hother _)
    · refine .inr ⟨⟨p, List.mem_append_left _ hp⟩, ?_⟩
      exact if_neg (by simp [hheeds.kept o (by simp)])

/-- Behind a heeded cancellation, nothing begins as long as none is swallowed. -/
theorem begins_of_aborted {k : AbortPhase} (h : Steps (AbortStep req) .aborted log k)
    (hkept : ∀ o ∈ log, o.swallows req = false) : ∀ o ∈ log, o.begins = false := by
  induction log with
  | nil => simp
  | cons o log ih =>
    obtain ⟨mid, ⟨hbegins, rfl⟩, hrest⟩ := steps_cons_iff.mp h
    have hnext : AbortPhase.aborted.next req o = .aborted :=
      if_neg (by simp [hkept o List.mem_cons_self])
    rw [hnext] at hrest
    intro other hother
    rcases List.mem_cons.mp hother with rfl | hother
    · exact hbegins rfl
    · exact ih hrest (fun o ho => hkept o (List.mem_cons_of_mem _ ho)) other hother

end Logs

/-- **Abort.** In a run whose first cancellation finds it at a heeded point, and in which no awaited code
    swallows a cancellation, no stream is opened, no tool is executed and no compaction starts behind
    any cancellation. -/
theorem nothing_begins_after_cancel (req : RunRequest) (ctl : RunController) (script : List Turn)
    (hheeds : HeedsCancel req (runAgent req (World.create req ctl) script).log) :
    ∀ front p back, (runAgent req (World.create req ctl) script).log = front ++ .cancelled p :: back →
      ∀ o ∈ back, o.begins = false := by
  intro front p back hsplit
  obtain ⟨k, hsteps⟩ := runAgent_aborts req ctl script
  rw [hsplit] at hsteps hheeds
  obtain ⟨mid, hfront, hback⟩ := steps_append_iff.mp (List.append_cons front (.cancelled p) back ▸ hsteps)
  have hfirst : HeedsCancel req (front ++ [.cancelled p]) := by
    rw [List.append_cons] at hheeds
    exact hheeds.of_append
  rcases phase_of_heeds hfront hfirst with ⟨hnone, -⟩ | ⟨-, rfl⟩
  · exact absurd (by simp) (hnone p)
  · exact begins_of_aborted hback fun o ho => hheeds.kept o (by simp [ho])

/-- A log all of whose cancellations are at heeded points, found by a look at every entry. -/
theorem heedsCancel_of_scan {req : RunRequest} {log : List Obs}
    (hheeded : (List.range log.length).all (fun i => match log[i]? with
      | some (.cancelled p) => p.heeded req (compacting (log.take i))
      | _ => true) = true)
    (hkept : log.all (fun o => !o.swallows req) = true) : HeedsCancel req log := by
  refine ⟨?_, fun o ho => by simpa using List.all_eq_true.mp hkept o ho⟩
  rintro front p back rfl -
  have hlook := List.all_eq_true.mp hheeded front.length (by simp)
  simpa using hlook

/-- An entry of that kind stands behind a cancellation. -/
def behindCancel (kind : Obs → Bool) : List Obs → Bool
  | [] => false
  | .cancelled _ :: log => log.any kind || behindCancel kind log
  | _ :: log => behindCancel kind log

theorem exists_behindCancel {kind : Obs → Bool} {log : List Obs} (h : behindCancel kind log = true) :
    ∃ front p back o, log = front ++ .cancelled p :: back ∧ o ∈ back ∧ kind o = true := by
  induction log with
  | nil => simp [behindCancel] at h
  | cons first log ih =>
    have hlater : behindCancel kind log = true →
        ∃ front p back o, first :: log = front ++ .cancelled p :: back ∧ o ∈ back ∧ kind o = true := by
      intro hlog
      obtain ⟨front, p, back, o, hsplit, ho⟩ := ih hlog
      exact ⟨first :: front, p, back, o, by rw [hsplit]; rfl, ho⟩
    cases first with
    | cancelled p =>
      rw [behindCancel, Bool.or_eq_true] at h
      rcases h with hhere | hthere
      · obtain ⟨o, ho, hkind⟩ := List.any_eq_true.mp hhere
        exact ⟨[], p, log, o, rfl, ho, hkind⟩
      · exact hlater hthere
    | _ => exact hlater h

/-- A run that is cancelled in the stream of its first attempt, which ends cancelled. -/
def cancelledScript : List Turn :=
  sampleOpening ++ [goesOn, streams (some .start), goesOn,
    { controls := [.cancel], reply := .streamed (.error .cancelled) }] ++ List.replicate 6 goesOn

/-- That run. -/
def cancelledRun : Ran World Turn Obs Exn RunResult :=
  runAgent sampleRequest (World.create sampleRequest {}) cancelledScript

/-- It returns the aborted message, and nothing begins behind the cancellation. -/
theorem nothing_begins_after_cancelled_stream :
    cancelledRun.outcome.returns (fun result => result.stopReason = .aborted) = true
      ∧ behindCancel (fun _ => true) cancelledRun.log = true
      ∧ ∀ front p back, cancelledRun.log = front ++ .cancelled p :: back → ∀ o ∈ back, o.begins = false := by
  refine ⟨by decide +kernel, by decide +kernel, ?_⟩
  exact nothing_begins_after_cancel sampleRequest {} cancelledScript
    (heedsCancel_of_scan (by decide +kernel) (by decide +kernel))

/-- A stream is opened. -/
def Obs.opensStream : Obs → Bool
  | .opened _ _ _ => true
  | _ => false

/-- A run that is cancelled in its `context` hook, which goes on. -/
def cancelledInHook : List Turn :=
  sampleOpening.take 5 ++ [{ controls := [.cancel], reply := .hooked (.ok {}) }, noAnswer, noAnswer, goesOn]

/-- The flag is not looked at behind the hook: the request opens its stream. -/
theorem stream_opened_behind_cancel :
    ∃ front p back o, (runAgent sampleRequest (World.create sampleRequest {}) cancelledInHook).log
        = front ++ .cancelled p :: back ∧ o ∈ back ∧ o.opensStream = true :=
  exists_behindCancel (by decide +kernel)

end AeloonRuntime
