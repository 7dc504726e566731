import AeloonRuntime.Core.TurnFollows

namespace AeloonRuntime

open Py Coroutine Engine Trace

/-!
# Loop follows — whole turns and whole runs

The loop of a run, and the run around it, follow the run protocol.

* `compact_follows` — a compaction, whose events may raise at any point;
* `recover_follows`, `accept_follows` — what the loop does with a response;
* `loopStep_follows` — one round keeps `Rest`, or ends in `Over`;
* `runAgent_follows` — the log of every run is a run of the protocol, and a result has its transcript.
-/

section Compaction

variable {plain : Prop} {P Q : RunState → RunView → Prop} (req : RunRequest)

/-- What holds in front of an update of the context, and what holds behind it. -/
structure Updatable (P Q : RunState → RunView → Prop) : Prop where
  between : ∀ k v, P k v → k.current = none
  settled : ∀ k v, P k v → k.unanswered = []
  phase : ∀ k v, P k v → k.ended = true ∨ k.phase ≠ .closing
  updated : ∀ k v (update : ContextUpdate), P k v →
    Q { k with context := update.messages, calls := [], phase := .fresh }
      { v with messages := update.messages }

theorem recovering_updatable : Updatable Recovering (Rest []) where
  between _ _ h := h.between
  settled _ _ h := h.unanswered
  phase _ _ h := .inr h.phase
  updated _ _ _ h :=
    ⟨⟨rfl, h.transcript, h.live, h.pending, h.unanswered⟩, h.between, h.next, h.last, rfl⟩

theorem over_updatable : Updatable Over Over where
  between _ _ h := h.between
  settled _ _ h := h.settled
  phase _ _ h := .inl h.ended
  updated _ _ _ h := ⟨h.transcript, h.ended, h.pending, h.between, h.settled⟩

/-- Before the first attempt. -/
def Fresh (k : RunState) (v : RunView) : Prop := Rest [] k v ∧ k.next = 0

theorem fresh_updatable : Updatable Fresh Fresh where
  between _ _ h := h.1.between
  settled _ _ h := h.1.unanswered
  phase _ _ h := .inr (by simp [h.1.phase])
  updated k v update h := ⟨recovering_updatable.updated k v update h.1.recovering, h.2⟩

/-- The compactor's answer. -/
theorem awaitCompactor_follows (site : Site) :
    RunFollows plain P (awaitCompactor req site) (fun _ => P) (fun _ => P) := by
  refine (await_follows req.tools site).bind fun turn => ?_
  split
  · exact .ret fun k v h => h.2
  · exact .raise fun k v h => h.2
  · exact .wait

/-- **Compaction.** Behind it the context is updated; where it raises, it is so or it is not. -/
theorem compact_follows (hP : Updatable P Q) (hQ : ∀ k v, Q k v → P k v) (site : Site)
    (reason : CompactionReason) (willRetry : Bool) :
    RunFollows plain P (compact req site reason willRetry) (fun _ => Q) (fun _ => P) := by
  have hupdate : ∀ update, RunFollows plain P (act (fun s => s.update update) fun _ => [.compacted update])
      (fun _ => Q) (fun _ => P) := by
    intro update
    refine .act fun k s h => ⟨_, steps_singleton_iff.mpr (.compacted ?_ ?_ ?_), ?_⟩
    · exact hP.between k s.view h
    · exact hP.settled k s.view h
    · exact hP.phase k s.view h
    · exact hP.updated k s.view update h
  refine (emit_quiet req.tools site rfl fun _ _ _ h => h).next
    ((awaitCompactor_follows req site).bind fun update => (hupdate update).next ?_)
  exact (emit_quiet req.tools site rfl fun _ k v h => hQ k v h).next
    (emit_quiet req.tools site rfl fun _ k v h => hQ k v h)

/-- A compaction before or behind the loop. -/
theorem compactAround_follows (hP : Updatable P P) (reason : CompactionReason) :
    RunFollows plain P (compactAround req reason) (fun _ => P) :=
  (compact_follows req hP (fun _ _ h => h) .compaction reason false).attemptException
    (fun _ => emit_quiet req.tools _ rfl fun _ _ _ _ => trivial) fun _ _ _ _ => trivial

end Compaction

/-! ### The loop -/

section Loop

variable {plain : Prop} (req : RunRequest)

/-- The failure of a recovery, which may append an aborted message. -/
theorem recoveryFailed_follows (final : AssistantMessage) (e : Exn) :
    RunFollows plain Recovering (recoveryFailed req final e)
      (fun failed k v => failed.isSome = true ∧ Closing k v) := by
  refine (emit_quiet req.tools _ rfl fun _ _ _ _ => trivial).next (.reads fun aborted => ?_)
  split
  · refine .reads fun now => .bind (Q := fun last k v => last = v.lastAttempt ∧ Recovering k v)
      (.gets fun k s h => ⟨rfl, h⟩) fun last => ?_
    refine (appendFailed_follows req.tools _ rfl ?_).next (.ret fun k v h => ⟨rfl, h⟩)
    rintro k v ⟨rfl, h⟩
    exact ⟨h.closing, h.next.trans h.last⟩
  · exact .ret fun k v h => ⟨rfl, h.closing⟩

/-- Only errors and cut responses are answered with a compaction. -/
theorem recovers_cause {attempts : Nat} {final : AssistantMessage}
    (h : recovers req attempts final = true) :
    final.stopReason = .error ∨ final.stopReason = .length := by
  simp only [recovers, Bool.and_eq_true, Bool.or_eq_true, decide_eq_true_eq] at h
  exact h.1.1.1.1

/-- What a round of the loop leads to. -/
abbrev AfterRound (next : LoopState ⊕ AssistantMessage) : RunState → RunView → Prop :=
  next.elim (fun st => Rest st.pending) fun _ => Over

/-- A response that overflowed: it is in the transcript and not in the context. -/
theorem recover_follows (st : LoopState) {final : AssistantMessage}
    (hcause : final.stopReason = .error ∨ final.stopReason = .length) :
    RunFollows plain Responded (recover req st final) AfterRound := by
  refine .next (Q := Responded) (.change fun k s h => h) ?_
  refine .bind (Q := fun last k v => last = v.lastAttempt ∧ Responded k v)
    (.gets fun k s h => ⟨rfl, h⟩) fun last => ?_
  refine .next (Q := fun k v => Recovering k (v.addNew (.assistant final)))
    (emit_follows req.tools _ ?_ fun _ _ _ _ => trivial) ?_
  · rintro k v ctl ⟨rfl, h⟩
    exact ⟨_, .overflowed h.live h.current hcause h.phase, h.overflow final⟩
  refine .next (Q := Recovering) (.act fun k s h => ⟨k, steps_quiet (by simp [Obs.quiet]), h⟩) ?_
  refine (emit_quiet req.tools _ rfl fun _ _ _ _ => trivial).next ?_
  -- The compaction may fail at any point; nothing is open then.
  refine .bind (Q := fun failed k v => if failed.isSome then Closing k v else Rest [] k v)
    (.attemptException (R := fun _ => Recovering) ?_ ?_ fun _ _ _ _ => trivial) fun failed => ?_
  · exact (compact_follows req recovering_updatable (fun k v h => h.recovering) _ _ _).next
      (.ret fun k v h => h)
  · intro e
    refine (recoveryFailed_follows req final e).behind ?_
    rintro failed k v ⟨hsome, h⟩
    rwa [if_pos hsome]
  · cases failed with
    | none => exact .ret fun k v h => h
    | some final => exact (agentEnd_follows req).next (.ret fun k v h => h)

/-- A response that did not overflow. -/
theorem accept_follows (final : AssistantMessage) :
    RunFollows plain Responded (accept req final) AfterRound := by
  refine .bind (Q := fun last k v => last = v.lastAttempt ∧ Responded k v)
    (.gets fun k s h => ⟨rfl, h⟩) fun last => (appendStarted_follows req.tools final last).next ?_
  split
  · rename_i hfailed
    refine .before (P := Closing) ?_ ?_
    · exact (emit_quiet req.tools _ rfl fun _ _ _ _ => trivial).next
        ((agentEnd_follows req).next (.ret fun k v h => h))
    · rintro k v ⟨calls, hcalls, h⟩
      rw [hcalls] at h
      exact h.rest.closing
  · rename_i hkept
    refine .before (P := Answering (final.toolCalls.map ToolCall.id) (final.toolCalls.map ToolCall.id))
      ?_ ?_
    · refine (answerCalls_follows req final).bind fun answers =>
        (emit_quiet req.tools _ rfl fun _ _ _ _ => trivial).next (.reads fun aborted => ?_)
      split
      · exact ((agentEnd_follows req).before fun k v h => h.closing).next (.ret fun k v h => h)
      · exact (drain_follows req .steer).bind fun pending => .ret fun k v h => h
    · rintro k v ⟨calls, hcalls, h⟩
      rwa [← hcalls]

/-- One turn. -/
theorem turn_follows (systemPrompt : String) (st : LoopState) :
    RunFollows plain (Rest st.pending) (turn req systemPrompt st) AfterRound := by
  refine .next (Q := Rest st.pending) (.onlyIf (fun _ => ?_) fun _ k v h => h) ?_
  · exact emit_quiet req.tools _ rfl fun _ _ _ _ => trivial
  have hpending : RunFollows plain (Rest st.pending)
      (each (fun item => append req.tools .pendingMessage (some item.1) (.user item.2)) st.pending)
      (fun _ => Rest []) :=
    .each (fun item rest => appendQueued_follows req.tools _ item rest) st.pending
  refine hpending.next ((request_follows req systemPrompt).bind fun final => .reads fun attempts => ?_)
  split
  · rename_i hrecovers
    exact recover_follows req st (recovers_cause req hrecovers)
  · split
    · exact accept_follows req _
    · exact accept_follows req final

/-- **Round.** A round of the loop leaves nothing open, or the run is over. -/
theorem loopStep_follows (systemPrompt : String) (st : LoopState) :
    RunFollows plain (Rest st.pending) (loopStep req systemPrompt st) AfterRound := by
  unfold loopStep
  split
  · exact turn_follows req systemPrompt st
  · rename_i hidle
    have hnone : st.pending = [] := by
      simp only [Bool.or_eq_true, Bool.not_eq_true', not_or, Bool.not_eq_false, List.isEmpty_iff] at hidle
      exact hidle.2
    rw [hnone]
    refine (drain_follows req .followUp).bind fun followUp => ?_
    split
    · exact .ret fun k v h => h
    · rename_i hempty
      have hnothing : followUp = [] := by simpa using hempty
      rw [hnothing]
      split
      · exact .raise fun _ _ _ => trivial
      · exact ((agentEnd_follows req).before fun k v h => h.closing).next (.ret fun k v h => h)

/-- The initial messages. -/
theorem appendAll_follows {initial : List AgentMessage}
    (h : plain → ∀ m ∈ initial, m.isUser = true) :
    RunFollows plain Fresh (each (append req.tools .opening none) initial) (fun _ => Fresh) := by
  refine .before (P := fun k v => (∀ m ∈ initial, plain → m.isUser = true) ∧ Fresh k v) ?_
    fun k v hfresh => ⟨fun m hm hp => h hp m hm, hfresh⟩
  refine .behind (Q := fun _ k v => (∀ m ∈ ([] : List AgentMessage), plain → m.isUser = true) ∧ Fresh k v)
    (.each (I := fun rest k v => (∀ m ∈ rest, plain → m.isUser = true) ∧ Fresh k v) ?_ initial)
    fun _ k v h => h.2
  intro m rest
  refine .of_pure fun husers => ?_
  refine (appendInitial_follows req.tools _ (husers m (by simp))).behind fun _ k v hfresh => ⟨?_, hfresh⟩
  intro other hother
  exact husers other (by simp [hother])

/-- **Loop.** -/
theorem runLoop_follows {initial : List AgentMessage} (systemPrompt : String)
    (h : plain → ∀ m ∈ initial, m.isUser = true) :
    RunFollows plain Fresh (runLoop req initial systemPrompt) (fun _ => Over) := by
  refine (emit_quiet req.tools _ rfl fun _ _ _ _ => trivial).next
    ((emit_quiet req.tools _ rfl fun _ _ _ _ => trivial).next
    ((appendAll_follows req h).next (.reads fun aborted => ?_)))
  split
  · refine .reads fun now => .bind (Q := fun last k v => last = v.lastAttempt ∧ Fresh k v)
      (.gets fun k s h => ⟨rfl, h⟩) fun last => ?_
    refine (appendFailed_follows req.tools _ rfl ?_).next ?_
    · rintro k v ⟨rfl, hfresh⟩
      exact ⟨hfresh.1.closing, hfresh.1.next.trans hfresh.1.last⟩
    · exact (emit_quiet req.tools _ rfl fun _ _ _ _ => trivial).next
        ((agentEnd_follows req).next (.ret fun k v h => h))
  · refine ((drain_follows req .steer).before fun k v h => h.1).bind fun pending => ?_
    exact RunFollows.forever (I := fun st => Rest st.pending)
      (fun st => loopStep_follows req systemPrompt st) ({ pending := pending } : LoopState)

end Loop

/-! ### The run -/

section Run

variable {plain : Prop} (req : RunRequest)

/-- What a result says of the protocol's state. -/
structure Returned (result : RunResult) (k : RunState) : Prop where
  newMessages : result.newMessages = k.transcript
  ended : k.ended = true
  pending : k.pending = []

theorem resultOfRun_follows (final : AssistantMessage) (update : Option ContextUpdate) :
    RunFollows plain Over (resultOfRun final update) (fun result k _ => Returned result k) := by
  refine .bind (Q := fun messages k v => messages = v.newMessages ∧ Over k v)
    (.gets fun k s h => ⟨rfl, h⟩) fun messages => .ret ?_
  rintro k v ⟨rfl, h⟩
  exact ⟨h.transcript.symm, h.ended, h.pending⟩

theorem finishInputError_follows {initial : List AgentMessage} {final : AssistantMessage}
    (h : plain → ∀ m ∈ initial, m.isUser = true) (hfailed : final.stopReason.failed = true) :
    RunFollows plain Fresh (finishInputError req initial final) (fun _ => Over) := by
  refine (emit_quiet req.tools _ rfl fun _ _ _ _ => trivial).next
    ((emit_quiet req.tools _ rfl fun _ _ _ _ => trivial).next ((appendAll_follows req h).next ?_))
  refine (appendFailed_follows req.tools _ hfailed fun k v hfresh =>
    ⟨hfresh.1.closing, Nat.le_of_eq hfresh.2⟩).next ?_
  exact (emit_quiet req.tools _ rfl fun _ _ _ _ => trivial).next
    ((agentEnd_follows req).next (.ret fun k v h => h))

theorem compactBehind_follows (final : AssistantMessage) :
    RunFollows plain Over (compactBehind req final) (fun _ => Over) := by
  refine .reads fun aborted => .reads fun messages => .reads fun exceeds => ?_
  split
  · exact compactAround_follows req over_updatable .overflow
  · exact .onlyIf (fun _ => compactAround_follows req over_updatable .threshold) fun _ k v h => h

/-- An oversized input is an error. -/
theorem oversizedInputError_failed {messages : List AgentMessage} {now : Int} {m : AssistantMessage}
    (h : oversizedInputError req messages now = some m) : m.stopReason.failed = true := by
  obtain ⟨message, -, rfl⟩ := Option.map_eq_some_iff.mp h
  rfl

theorem runWith_follows {initial : List AgentMessage} (systemPrompt : String)
    (h : plain → ∀ m ∈ initial, m.isUser = true) :
    RunFollows plain Fresh (runWith req initial systemPrompt)
      (fun result k _ => Returned result k) := by
  refine .reads fun now => ?_
  split
  · rename_i oversized hoversized
    exact (finishInputError_follows req h (oversizedInputError_failed req hoversized)).bind
      fun final => resultOfRun_follows final none
  · refine .reads fun messages => .reads fun exceeds => .next (Q := Fresh) (.onlyIf (fun _ => ?_) fun _ k v h => h) ?_
    · exact compactAround_follows req fresh_updatable .threshold
    · exact (runLoop_follows req systemPrompt h).bind fun final =>
        (compactBehind_follows req final).next (.reads fun update => resultOfRun_follows final update)

theorem runBody_follows :
    RunFollows plain Fresh (runBody req) (fun result k _ => Returned result k) := by
  refine .bind (hook_follows req.tools _ fun k _ _ h => ⟨k, .quiet rfl, h⟩) fun answer => ?_
  refine (answeredMessages_follows _ answer).bind fun initial => ?_
  refine .before (P := fun k v => (plain → initial = req.input.map .user) ∧ Fresh k v)
    (.of_pure fun hinitial => runWith_follows req _ fun hp m hm => ?_) ?_
  · rw [hinitial hp] at hm
    obtain ⟨user, -, rfl⟩ := List.mem_map.mp hm
    rfl
  · rintro k v ⟨hinitial, hplain, h⟩
    exact ⟨fun hp => hinitial (hplain hp), h⟩

/-- The `finally` of `run` says nothing of the messages. -/
theorem settle_follows {P : RunState → RunView → Prop} : RunFollows plain P (settle req) (fun _ => P) :=
  (emit_quiet req.tools _ rfl fun _ _ _ _ => trivial).next (.change fun _ _ h => h)

theorem run_follows : RunFollows plain Fresh (run req) (fun result k _ => Returned result k) := by
  refine .reads fun ctl => (ofExcept_follows ctl).bind fun ctl =>
    .next (Q := Fresh) (.change fun k s h => h.2) ?_
  have hraised : ∀ e : Exn, RunFollows plain (fun _ _ => True) (settle req >>= fun _ => raise e)
      (fun result k _ => Returned result k) :=
    fun e => (settle_follows req).next (.raise fun _ _ _ => trivial)
  have hbody : RunFollows plain Fresh
      (attempt (runBody req) fun e => settle req >>= fun _ => raise e)
      (fun result k _ => Returned result k) := Follows.attempt (runBody_follows req) hraised
  exact hbody.bind fun result => (settle_follows req).next (.ret fun k v h => h)

/-- **Runs.** The log of every run is a run of the protocol, however the run ends; a result has its
    transcript. -/
theorem runAgent_follows (ctl : RunController) {script : List Turn}
    (hscript : plain → ∀ turn ∈ script, turn.Plain) :
    ∃ k, Steps (RunStep plain) { context := req.messages }
        (runAgent req (World.create req ctl) script).log k
      ∧ ∀ result, (runAgent req (World.create req ctl) script).outcome = .value result →
        Returned result k := by
  have hfresh : Fresh { context := req.messages } (World.create req ctl).view :=
    ⟨⟨⟨rfl, rfl, rfl, rfl, rfl⟩, rfl, Nat.le_refl 0, Nat.zero_le 1, rfl⟩, rfl⟩
  have hrun : RunFollows plain Fresh (runAgent req) (fun result k _ => Returned result k) := by
    unfold runAgent
    split
    · exact .raise fun _ _ _ => trivial
    · split
      · exact .raise fun _ _ _ => trivial
      · exact run_follows req
  obtain ⟨-, k, hsteps, hends⟩ := hrun _ _ script (fun t ht hp => hscript hp t ht) hfresh
  refine ⟨k, hsteps, ?_⟩
  intro result hresult
  rw [hresult] at hends
  exact hends

end Run

end AeloonRuntime
