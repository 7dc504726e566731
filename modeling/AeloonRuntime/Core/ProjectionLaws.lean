import AeloonRuntime.Core.Projection

namespace AeloonRuntime

open Py

/-!
# Projection laws — what a provider is sent, message by message

The projection of a transcript keeps everything but the failed attempts, and answers every tool call
that has no result before the next assistant or user message.

* `projectionEntries` — the projected messages with the indices they come from;
* `isSynthetic` — an entry whose index is an assistant message's but which is a tool result;
* `Settled` — a transcript with nothing to leave out and nothing to put in;
* `project_inference_messages_spec` — the three laws together.
-/

/-! ### Entries -/

/-- `isinstance(message, ToolResultMessage)`. -/
def AgentMessage.isToolResult : AgentMessage → Bool
  | .toolResult _ => true
  | _ => false

/-- The id that a tool result answers. -/
def AgentMessage.resultId? : AgentMessage → Option String
  | .toolResult m => some m.toolCallId
  | _ => none

/-- The message is no failed attempt. -/
def AgentMessage.kept : AgentMessage → Bool
  | .assistant m => !m.stopReason.failed
  | _ => true

/-- The projected messages, each with the index of the message it comes from. -/
def projectionEntries (now : Int) (messages : List AgentMessage) : List (AgentMessage × Nat) :=
  (ProjectionState.run now {} messages 0).result

/-- A tool result that comes from an assistant message was put in. -/
def isSynthetic (messages : List AgentMessage) (entry : AgentMessage × Nat) : Bool :=
  entry.1.isToolResult && messages[entry.2]?.any AgentMessage.isAssistant

/-- The entry was put in for a call of the message at an index. -/
def SyntheticFor (messages : List AgentMessage) (i : Nat) (id : String)
    (entry : AgentMessage × Nat) : Prop :=
  isSynthetic messages entry = true ∧ entry.2 = i ∧ entry.1.resultId? = some id

/-- The messages that come from the transcript. -/
def realMessages (messages : List AgentMessage) (entries : List (AgentMessage × Nat)) :
    List AgentMessage :=
  (entries.filter fun entry => !isSynthetic messages entry).map Prod.fst

/-- The tool results between a message and the next assistant or user message. -/
def resultsBehind (messages : List AgentMessage) (i : Nat) : List AgentMessage :=
  (messages.drop (i + 1)).takeWhile AgentMessage.isToolResult

/-- The index of the next assistant or user message, or the length. -/
def nextTurnIndex (messages : List AgentMessage) (i : Nat) : Nat :=
  i + 1 + (resultsBehind messages i).length

/-- A call is answered before the next assistant or user message. -/
def answeredBehind (messages : List AgentMessage) (i : Nat) (id : String) : Prop :=
  some id ∈ (resultsBehind messages i).map AgentMessage.resultId?

/-! ### The loop from a state on -/

/-- What `flush_orphans` puts in. -/
def orphans (now : Int) (pending : List (String × String × Nat)) (resolved : List String) :
    List (AgentMessage × Nat) :=
  (pending.filter fun call => call.1 ∉ resolved).map
    fun call => (orphanResult now call.1 call.2.1, call.2.2)

/-- The entries that the loop adds from a state on. -/
def entriesFrom (now : Int) (pending : List (String × String × Nat)) (resolved : List String)
    (messages : List AgentMessage) (k : Nat) : List (AgentMessage × Nat) :=
  (ProjectionState.run now { pendingCalls := pending, resolvedCalls := resolved } messages k).result

section Loop

variable {now : Int} {pending : List (String × String × Nat)} {resolved : List String}
  {messages : List AgentMessage} {k : Nat}

@[simp] theorem orphans_nil : orphans now [] resolved = [] := rfl

/-- What is put in answers a pending call. -/
theorem mem_orphans {entry : AgentMessage × Nat} (h : entry ∈ orphans now pending resolved) :
    ∃ call ∈ pending, call.1 ∉ resolved ∧ entry = (orphanResult now call.1 call.2.1, call.2.2) := by
  obtain ⟨call, hcall, rfl⟩ := List.mem_map.mp h
  obtain ⟨hmem, hopen⟩ := List.mem_filter.mp hcall
  exact ⟨call, hmem, by simpa using hopen, rfl⟩

/-- The loop only adds to the result. -/
theorem run_result (st : ProjectionState) (messages : List AgentMessage) (k : Nat) :
    (st.run now messages k).result
      = st.result ++ entriesFrom now st.pendingCalls st.resolvedCalls messages k := by
  unfold entriesFrom
  induction messages generalizing st k with
  | nil => simp [ProjectionState.run, ProjectionState.flushOrphans]
  | cons message messages ih =>
    rw [ProjectionState.run, ProjectionState.run, ih, ih (ProjectionState.step _ _ _ _),
      ← List.append_assoc]
    cases message with
    | user m => simp [ProjectionState.step, ProjectionState.flushOrphans]
    | assistant m =>
      by_cases hfailed : m.stopReason.failed = true
      · simp [ProjectionState.step, ProjectionState.flushOrphans, hfailed]
      · simp [ProjectionState.step, ProjectionState.flushOrphans, hfailed]
    | toolResult m => simp [ProjectionState.step]

theorem entriesFrom_nil : entriesFrom now pending resolved [] k = orphans now pending resolved := by
  simp [entriesFrom, ProjectionState.run, ProjectionState.flushOrphans, orphans]

theorem entriesFrom_user (m : UserMessage) :
    entriesFrom now pending resolved (.user m :: messages) k
      = orphans now pending resolved ++ (.user m, k) :: entriesFrom now [] [] messages (k + 1) := by
  rw [entriesFrom, ProjectionState.run, run_result]
  simp [ProjectionState.step, ProjectionState.flushOrphans, orphans]

theorem entriesFrom_failed {m : AssistantMessage} (hfailed : m.stopReason.failed = true) :
    entriesFrom now pending resolved (.assistant m :: messages) k
      = orphans now pending resolved ++ entriesFrom now [] [] messages (k + 1) := by
  rw [entriesFrom, ProjectionState.run, run_result]
  simp [ProjectionState.step, ProjectionState.flushOrphans, orphans, hfailed]

theorem entriesFrom_assistant {m : AssistantMessage} (hkept : m.stopReason.failed = false) :
    entriesFrom now pending resolved (.assistant m :: messages) k
      = orphans now pending resolved
        ++ (.assistant m, k) :: entriesFrom now (pendingOf m.toolCalls k) [] messages (k + 1) := by
  rw [entriesFrom, ProjectionState.run, run_result]
  simp [ProjectionState.step, ProjectionState.flushOrphans, orphans, hkept]

theorem entriesFrom_toolResult (m : ToolResultMessage) :
    entriesFrom now pending resolved (.toolResult m :: messages) k
      = (.toolResult m, k)
        :: entriesFrom now pending (m.toolCallId :: resolved) messages (k + 1) := by
  rw [entriesFrom, ProjectionState.run, run_result]
  simp [ProjectionState.step]

/-- The pending calls of a message come from it. -/
theorem origin_pendingOf {calls : List ToolCall} {call : String × String × Nat}
    (h : call ∈ pendingOf calls k) : call.2.2 = k := by
  obtain ⟨id, -, rfl⟩ := List.mem_map.mp h
  rfl

theorem pendingOf_ids (calls : List ToolCall) (k : Nat) :
    (pendingOf calls k).map Prod.fst = (calls.map ToolCall.id).eraseDups := by
  simp [pendingOf, Function.comp_def]

/-- Entries come from the pending calls or from the messages that follow. -/
theorem origin_entriesFrom {entry : AgentMessage × Nat}
    (h : entry ∈ entriesFrom now pending resolved messages k) :
    (∃ call ∈ pending, entry.2 = call.2.2) ∨ k ≤ entry.2 := by
  have horphan : ∀ {pending resolved}, entry ∈ orphans now pending resolved →
      ∃ call ∈ pending, entry.2 = call.2.2 := by
    intro pending resolved h
    obtain ⟨call, hcall, -, rfl⟩ := mem_orphans h
    exact ⟨call, hcall, rfl⟩
  induction messages generalizing pending resolved k with
  | nil => exact .inl (horphan (entriesFrom_nil ▸ h))
  | cons message messages ih =>
    cases message with
    | user m =>
      rw [entriesFrom_user, List.mem_append, List.mem_cons] at h
      obtain h | rfl | h := h
      · exact .inl (horphan h)
      · exact .inr (Nat.le_refl k)
      · obtain ⟨call, hcall, -⟩ | hle := ih h
        · simp at hcall
        · exact .inr (by omega)
    | assistant m =>
      by_cases hfailed : m.stopReason.failed = true
      · rw [entriesFrom_failed hfailed, List.mem_append] at h
        obtain h | h := h
        · exact .inl (horphan h)
        · obtain ⟨call, hcall, -⟩ | hle := ih h
          · simp at hcall
          · exact .inr (by omega)
      · rw [entriesFrom_assistant (by simpa using hfailed), List.mem_append, List.mem_cons] at h
        obtain h | rfl | h := h
        · exact .inl (horphan h)
        · exact .inr (Nat.le_refl k)
        · obtain ⟨call, hcall, horigin⟩ | hle := ih h
          · exact .inr (by rw [horigin, origin_pendingOf hcall])
          · exact .inr (by omega)
    | toolResult m =>
      rw [entriesFrom_toolResult, List.mem_cons] at h
      obtain rfl | h := h
      · exact .inr (Nat.le_refl k)
      · obtain hcall | hle := ih h
        · exact .inl hcall
        · exact .inr (by omega)

end Loop

/-! ### Removing what was put in -/

section Real

variable {now : Int} {all : List AgentMessage} {pending : List (String × String × Nat)}
  {resolved : List String}

/-- The pending calls come from assistant messages of the transcript. -/
def FromAssistants (all : List AgentMessage) (pending : List (String × String × Nat)) : Prop :=
  ∀ call ∈ pending, all[call.2.2]?.any AgentMessage.isAssistant = true

theorem fromAssistants_nil : FromAssistants all [] := by simp [FromAssistants]

theorem fromAssistants_pendingOf {m : AssistantMessage} {k : Nat}
    (h : all[k]? = some (.assistant m)) (calls : List ToolCall) :
    FromAssistants all (pendingOf calls k) := by
  intro call hcall
  rw [origin_pendingOf hcall, h]
  rfl

/-- Everything that is put in is synthetic. -/
theorem isSynthetic_orphan (now : Int) (resolved : List String) (hp : FromAssistants all pending) :
    ∀ entry ∈ orphans now pending resolved, isSynthetic all entry = true := by
  intro entry hentry
  obtain ⟨call, hcall, -, rfl⟩ := mem_orphans hentry
  have horigin := hp call hcall
  simp [isSynthetic, orphanResult, AgentMessage.isToolResult, horigin]

/-- A message of the transcript, at its own index, is not. -/
theorem isSynthetic_real {m : AgentMessage} {k : Nat} (h : all[k]? = some m) :
    isSynthetic all (m, k) = false := by
  unfold isSynthetic
  rw [h]
  cases m <;> rfl

theorem realMessages_append (xs ys : List (AgentMessage × Nat)) :
    realMessages all (xs ++ ys) = realMessages all xs ++ realMessages all ys := by
  simp [realMessages]

theorem realMessages_cons {m : AgentMessage} {k : Nat} (h : all[k]? = some m)
    (entries : List (AgentMessage × Nat)) :
    realMessages all ((m, k) :: entries) = m :: realMessages all entries := by
  simp [realMessages, isSynthetic_real h]

theorem realMessages_synthetic {entries : List (AgentMessage × Nat)}
    (h : ∀ entry ∈ entries, isSynthetic all entry = true) : realMessages all entries = [] := by
  rw [realMessages, List.map_eq_nil_iff, List.filter_eq_nil_iff]
  intro entry hentry
  simp [h entry hentry]

/-- Without what was put in, the loop keeps the messages that are no failed attempts. -/
theorem realMessages_entriesFrom (now : Int) (resolved : List String) {messages : List AgentMessage}
    {k : Nat} (hall : all.drop k = messages) (hp : FromAssistants all pending) :
    realMessages all (entriesFrom now pending resolved messages k)
      = messages.filter AgentMessage.kept := by
  induction messages generalizing pending resolved k with
  | nil =>
    rw [entriesFrom_nil, realMessages_synthetic (isSynthetic_orphan now resolved hp)]
    rfl
  | cons message messages ih =>
    have hat : all[k]? = some message := by
      rw [← List.head?_drop, hall, List.head?_cons]
    have hrest : all.drop (k + 1) = messages := by
      rw [← List.tail_drop, hall, List.tail_cons]
    cases message with
    | user m =>
      rw [entriesFrom_user, realMessages_append, realMessages_synthetic (isSynthetic_orphan now resolved hp),
        realMessages_cons hat, ih [] hrest fromAssistants_nil, List.nil_append,
        List.filter_cons_of_pos rfl]
    | assistant m =>
      by_cases hfailed : m.stopReason.failed = true
      · rw [entriesFrom_failed hfailed, realMessages_append,
          realMessages_synthetic (isSynthetic_orphan now resolved hp), ih [] hrest fromAssistants_nil]
        simp [AgentMessage.kept, hfailed]
      · have hkept : m.stopReason.failed = false := by simpa using hfailed
        rw [entriesFrom_assistant hkept, realMessages_append,
          realMessages_synthetic (isSynthetic_orphan now resolved hp), realMessages_cons hat,
          ih [] hrest (fromAssistants_pendingOf hat m.toolCalls)]
        simp [AgentMessage.kept, hkept]
    | toolResult m =>
      rw [entriesFrom_toolResult, realMessages_cons hat, ih _ hrest hp, List.filter_cons_of_pos rfl]

/-- What is put in answers a pending call or a call of a kept message. -/
theorem synthetic_entriesFrom {messages : List AgentMessage} {k : Nat}
    (hall : all.drop k = messages) {entry : AgentMessage × Nat}
    (h : entry ∈ entriesFrom now pending resolved messages k)
    (hsynthetic : isSynthetic all entry = true) :
    ∃ call : String × String × Nat, entry = (orphanResult now call.1 call.2.1, call.2.2)
      ∧ (call ∈ pending ∨ ∃ m, all[call.2.2]? = some (.assistant m) ∧ m.stopReason.failed = false
        ∧ call ∈ pendingOf m.toolCalls call.2.2) := by
  have horphan : ∀ {pending resolved}, entry ∈ orphans now pending resolved →
      ∃ call : String × String × Nat, entry = (orphanResult now call.1 call.2.1, call.2.2)
        ∧ call ∈ pending := by
    intro pending resolved h
    obtain ⟨call, hcall, -, rfl⟩ := mem_orphans h
    exact ⟨call, rfl, hcall⟩
  induction messages generalizing pending resolved k with
  | nil =>
    obtain ⟨call, heq, hcall⟩ := horphan (entriesFrom_nil ▸ h)
    exact ⟨call, heq, .inl hcall⟩
  | cons message messages ih =>
    have hat : all[k]? = some message := by
      rw [← List.head?_drop, hall, List.head?_cons]
    have hrest : all.drop (k + 1) = messages := by
      rw [← List.tail_drop, hall, List.tail_cons]
    have hreal : entry ≠ (message, k) := by
      rintro rfl
      simp [isSynthetic_real hat] at hsynthetic
    cases message with
    | user m =>
      rw [entriesFrom_user, List.mem_append, List.mem_cons] at h
      obtain h | h | h := h
      · obtain ⟨call, heq, hcall⟩ := horphan h
        exact ⟨call, heq, .inl hcall⟩
      · exact absurd h hreal
      · obtain ⟨call, heq, hcall | hcall⟩ := ih hrest h
        · simp at hcall
        · exact ⟨call, heq, .inr hcall⟩
    | assistant m =>
      by_cases hfailed : m.stopReason.failed = true
      · rw [entriesFrom_failed hfailed, List.mem_append] at h
        obtain h | h := h
        · obtain ⟨call, heq, hcall⟩ := horphan h
          exact ⟨call, heq, .inl hcall⟩
        · obtain ⟨call, heq, hcall | hcall⟩ := ih hrest h
          · simp at hcall
          · exact ⟨call, heq, .inr hcall⟩
      · have hkept : m.stopReason.failed = false := by simpa using hfailed
        rw [entriesFrom_assistant hkept, List.mem_append, List.mem_cons] at h
        obtain h | h | h := h
        · obtain ⟨call, heq, hcall⟩ := horphan h
          exact ⟨call, heq, .inl hcall⟩
        · exact absurd h hreal
        · obtain ⟨call, heq, hcall | hcall⟩ := ih hrest h
          · have horigin := origin_pendingOf hcall
            exact ⟨call, heq, .inr ⟨m, by rw [horigin, hat], hkept, by rw [horigin]; exact hcall⟩⟩
          · exact ⟨call, heq, .inr hcall⟩
    | toolResult m =>
      rw [entriesFrom_toolResult, List.mem_cons] at h
      obtain h | h := h
      · exact absurd h hreal
      · exact ih hrest h

end Real

/-! ### One assistant message -/

section Segment

variable {now : Int} {pending : List (String × String × Nat)} {resolved : List String}

/-- One message of the loop: what it adds, and what is pending behind it. -/
theorem entriesFrom_cons (now : Int) (resolved : List String) (message : AgentMessage) (k : Nat)
    (hp : ∀ call ∈ pending, call.2.2 ≤ k) :
    ∃ added pending' resolved', (∀ entry ∈ added, entry.2 ≤ k) ∧ (∀ call ∈ pending', call.2.2 ≤ k)
      ∧ ∀ messages, entriesFrom now pending resolved (message :: messages) k
        = added ++ entriesFrom now pending' resolved' messages (k + 1) := by
  have horphan : ∀ entry ∈ orphans now pending resolved, entry.2 ≤ k := by
    intro entry hentry
    obtain ⟨call, hcall, -, rfl⟩ := mem_orphans hentry
    exact hp call hcall
  have hadded : ∀ entry ∈ orphans now pending resolved ++ [(message, k)], entry.2 ≤ k := by
    intro entry hentry
    obtain h | h := List.mem_append.mp hentry
    · exact horphan entry h
    · rw [List.mem_singleton.mp h]
  cases message with
  | user m =>
    refine ⟨_, [], [], hadded, by simp, ?_⟩
    intro messages
    rw [entriesFrom_user, List.append_assoc, List.singleton_append]
  | assistant m =>
    by_cases hfailed : m.stopReason.failed = true
    · exact ⟨_, [], [], horphan, by simp, fun messages => entriesFrom_failed hfailed⟩
    · refine ⟨_, pendingOf m.toolCalls k, [], hadded, ?_, ?_⟩
      · intro call hcall
        rw [origin_pendingOf hcall]
      · intro messages
        rw [entriesFrom_assistant (by simpa using hfailed), List.append_assoc, List.singleton_append]
  | toolResult m =>
    refine ⟨[(.toolResult m, k)], pending, m.toolCallId :: resolved, by simp, hp, ?_⟩
    intro messages
    rw [entriesFrom_toolResult, List.singleton_append]

/-- The loop up to a kept message and from there on. -/
theorem entriesFrom_split (now : Int) (resolved : List String) {m : AssistantMessage} (hkept : m.stopReason.failed = false)
    (front rest : List AgentMessage) (k : Nat) (hp : ∀ call ∈ pending, call.2.2 < k) :
    ∃ before, (∀ entry ∈ before, entry.2 < k + front.length)
      ∧ entriesFrom now pending resolved (front ++ .assistant m :: rest) k
        = before ++ (.assistant m, k + front.length)
          :: entriesFrom now (pendingOf m.toolCalls (k + front.length)) [] rest
              (k + front.length + 1) := by
  induction front generalizing pending resolved k with
  | nil =>
    refine ⟨orphans now pending resolved, ?_, entriesFrom_assistant hkept⟩
    intro entry hentry
    obtain ⟨call, hcall, -, rfl⟩ := mem_orphans hentry
    exact hp call hcall
  | cons message front ih =>
    obtain ⟨added, pending', resolved', hadded, hp', heq⟩ :=
      entriesFrom_cons now resolved message k fun call hcall =>
        Nat.le_of_lt (hp call hcall)
    obtain ⟨before, hbefore, hrest⟩ := ih resolved' (k + 1) fun call hcall => Nat.lt_succ_of_le (hp' call hcall)
    have hlength : k + (message :: front).length = k + 1 + front.length := by
      rw [List.length_cons]; omega
    refine ⟨added ++ before, ?_, ?_⟩
    · intro entry hentry
      rw [hlength]
      obtain h | h := List.mem_append.mp hentry
      · have := hadded entry h
        omega
      · exact hbefore entry h
    · rw [List.cons_append, heq, hrest, hlength, List.append_assoc]

/-- The loop over tool results that follow each other. -/
theorem entriesFrom_results (results rest : List AgentMessage) (k : Nat)
    (h : ∀ m ∈ results, m.isToolResult = true) :
    entriesFrom now pending resolved (results ++ rest) k
      = results.zipIdx k ++ entriesFrom now pending
          ((results.filterMap AgentMessage.resultId?).reverse ++ resolved) rest (k + results.length) := by
  induction results generalizing resolved k with
  | nil => simp
  | cons message results ih =>
    cases message with
    | user m => simp [AgentMessage.isToolResult] at h
    | assistant m => simp [AgentMessage.isToolResult] at h
    | toolResult m =>
      rw [List.cons_append, entriesFrom_toolResult, ih (k + 1) fun m hm => h m (by simp [hm])]
      simp [AgentMessage.resultId?, Nat.add_comm, Nat.add_left_comm]

/-- In front of an assistant or user message and at the end, the open calls are answered. -/
theorem entriesFrom_flush {rest : List AgentMessage} (k : Nat)
    (h : ∀ m ∈ rest.head?, m.isToolResult = false) :
    entriesFrom now pending resolved rest k
      = orphans now pending resolved ++ entriesFrom now [] [] rest k := by
  cases rest with
  | nil => rw [entriesFrom_nil, entriesFrom_nil, orphans_nil, List.append_nil]
  | cons message rest =>
    cases message with
    | user m => rw [entriesFrom_user, entriesFrom_user, orphans_nil, List.nil_append]
    | assistant m =>
      by_cases hfailed : m.stopReason.failed = true
      · rw [entriesFrom_failed hfailed, entriesFrom_failed hfailed, orphans_nil, List.nil_append]
      · have hkept : m.stopReason.failed = false := by simpa using hfailed
        rw [entriesFrom_assistant hkept, entriesFrom_assistant hkept, orphans_nil, List.nil_append]
    | toolResult m => simp [AgentMessage.isToolResult] at h

end Segment

section Answers

variable {messages : List AgentMessage} {i : Nat} {m : AssistantMessage}

/-- The messages behind one are its results and those from the next turn on. -/
theorem drop_eq_results (messages : List AgentMessage) (i : Nat) :
    messages.drop (i + 1) = resultsBehind messages i ++ messages.drop (nextTurnIndex messages i)
      ∧ ∀ m ∈ (messages.drop (nextTurnIndex messages i)).head?, m.isToolResult = false := by
  have hsplit : resultsBehind messages i ++ (messages.drop (i + 1)).dropWhile AgentMessage.isToolResult
      = messages.drop (i + 1) := List.takeWhile_append_dropWhile
  have hrest : messages.drop (nextTurnIndex messages i)
      = (messages.drop (i + 1)).dropWhile AgentMessage.isToolResult := by
    rw [nextTurnIndex, ← List.drop_drop]
    conv_lhs => rw [← hsplit]
    exact List.drop_left
  rw [hrest]
  refine ⟨hsplit.symm, ?_⟩
  intro m hm
  have hhead := List.head?_dropWhile_not AgentMessage.isToolResult (messages.drop (i + 1))
  rw [Option.mem_def.mp hm] at hhead
  simpa using hhead

/-- The entries around a kept message: what comes from in front of it, its results, what is put in for
    its calls, and what comes from behind. -/
theorem projectionEntries_around (now : Int) (hat : messages[i]? = some (.assistant m))
    (hkept : m.stopReason.failed = false) :
    ∃ before, (∀ entry ∈ before, entry.2 < i)
      ∧ projectionEntries now messages
        = before ++ ((.assistant m, i) :: (resultsBehind messages i).zipIdx (i + 1))
          ++ orphans now (pendingOf m.toolCalls i)
            (((resultsBehind messages i).filterMap AgentMessage.resultId?).reverse)
          ++ entriesFrom now [] [] (messages.drop (nextTurnIndex messages i))
            (nextTurnIndex messages i) := by
  have hi : i < messages.length := (List.getElem?_eq_some_iff.mp hat).1
  have hget : messages[i] = .assistant m := (List.getElem?_eq_some_iff.mp hat).2
  have hmessages : messages.take i ++ .assistant m :: messages.drop (i + 1) = messages := by
    rw [← hget, List.getElem_cons_drop, List.take_append_drop]
  have hlength : (messages.take i).length = i := by
    rw [List.length_take]
    omega
  have hresults : ∀ r ∈ resultsBehind messages i, r.isToolResult = true :=
    fun r hr => List.mem_takeWhile_imp hr
  obtain ⟨hdrop, hhead⟩ := drop_eq_results messages i
  obtain ⟨before, hbefore, heq⟩ := entriesFrom_split now [] hkept (messages.take i)
    (messages.drop (i + 1)) 0 fun call hcall => absurd hcall List.not_mem_nil
  rw [hlength, Nat.zero_add, hmessages] at heq
  rw [hlength, Nat.zero_add] at hbefore
  refine ⟨before, hbefore, ?_⟩
  show entriesFrom now [] [] messages 0 = _
  rw [heq, hdrop, entriesFrom_results _ _ _ hresults, entriesFrom_flush _ hhead, List.append_nil]
  simp [nextTurnIndex, List.append_assoc]

/-- The results behind a message, with their own indices, are messages of the transcript. -/
theorem resultsBehind_real {entry : AgentMessage × Nat}
    (h : entry ∈ (resultsBehind messages i).zipIdx (i + 1)) : isSynthetic messages entry = false := by
  obtain ⟨r, k⟩ := entry
  obtain ⟨hle, hget⟩ := List.mk_mem_zipIdx_iff_le_and_getElem?_sub.mp h
  apply isSynthetic_real
  have hdrop := congrArg (·[k - (i + 1)]?) (drop_eq_results messages i).1
  simp only [List.getElem?_drop] at hdrop
  rw [show i + 1 + (k - (i + 1)) = k by omega,
    List.getElem?_append_left (List.getElem?_eq_some_iff.mp hget).1, hget] at hdrop
  exact hdrop

theorem nodup_eraseDups {α : Type} [BEq α] [LawfulBEq α] (as : List α) : as.eraseDups.Nodup := by
  match as with
  | [] => simp
  | a :: as =>
    have hshorter : (as.filter fun b => !b == a).length < as.length + 1 :=
      Nat.lt_succ_of_le (List.length_filter_le _ _)
    rw [List.eraseDups_cons, List.nodup_cons]
    refine ⟨?_, nodup_eraseDups _⟩
    simp [List.mem_eraseDups]
termination_by as.length

/-- An open call among the pending ones gets its answer. -/
theorem orphans_split {now : Int} {resolved : List String} {id name : String}
    (front rest : List (String × String × Nat)) (hopen : id ∉ resolved) :
    orphans now (front ++ (id, name, i) :: rest) resolved
      = orphans now front resolved ++ (orphanResult now id name, i) :: orphans now rest resolved := by
  simp [orphans, hopen]

/-- The ids of the pending calls are those of the message, each once. -/
theorem exists_pending {calls : List ToolCall} {id : String} (h : id ∈ calls.map ToolCall.id) (i : Nat) :
    ∃ call ∈ calls, call.id = id ∧ ∃ front rest,
      pendingOf calls i = front ++ (id, call.name, i) :: rest
        ∧ ∀ other ∈ front ++ rest, other.1 ≠ id := by
  obtain ⟨front, rest, hsplit⟩ := List.append_of_mem (List.mem_eraseDups.mpr h)
  have hfind : ((calls.reverse.find? fun call => call.id = id)).isSome := by
    obtain ⟨call, hcall, rfl⟩ := List.mem_map.mp h
    rw [List.find?_isSome]
    exact ⟨call, by simpa using hcall, by simp⟩
  obtain ⟨call, hcall⟩ := Option.isSome_iff_exists.mp hfind
  have hid : call.id = id := by simpa using List.find?_some hcall
  refine ⟨call, by simpa using List.mem_of_find?_eq_some hcall, hid,
    front.map fun other => (other, ((calls.reverse.find? fun c => c.id = other).map ToolCall.name).getD "", i),
    rest.map fun other => (other, ((calls.reverse.find? fun c => c.id = other).map ToolCall.name).getD "", i),
    ?_, ?_⟩
  · rw [pendingOf, hsplit, List.map_append, List.map_cons, hcall]
    rfl
  · intro other hother
    have hnodup := nodup_eraseDups (calls.map ToolCall.id)
    rw [hsplit, List.perm_middle.nodup_iff, List.nodup_cons] at hnodup
    rw [← List.map_append] at hother
    obtain ⟨x, hx, rfl⟩ := List.mem_map.mp hother
    rintro rfl
    exact hnodup.1 hx

/-- The synthetic entries of a kept message stand behind its results, in front of the next turn. -/
theorem orphans_of_message (now : Int) (hat : messages[i]? = some (.assistant m))
    (hkept : m.stopReason.failed = false) :
    ∃ before after, projectionEntries now messages
        = before ++ orphans now (pendingOf m.toolCalls i)
            (((resultsBehind messages i).filterMap AgentMessage.resultId?).reverse) ++ after
      ∧ (∀ entry ∈ before ++ after, isSynthetic messages entry = true → entry.2 ≠ i)
      ∧ realMessages messages before
        = (messages.take (nextTurnIndex messages i)).filter AgentMessage.kept
      ∧ realMessages messages after
        = (messages.drop (nextTurnIndex messages i)).filter AgentMessage.kept := by
  obtain ⟨front, hfront, heq⟩ := projectionEntries_around now hat hkept
  have hafter := realMessages_entriesFrom now [] (rfl : messages.drop (nextTurnIndex messages i) = _)
    fromAssistants_nil
  refine ⟨_, _, heq, ?_, ?_, hafter⟩
  · intro entry hentry hsynthetic
    rw [List.mem_append, List.mem_append, List.mem_cons] at hentry
    obtain (h | rfl | h) | h := hentry
    · exact Nat.ne_of_lt (hfront entry h)
    · rw [isSynthetic_real hat] at hsynthetic
      exact absurd hsynthetic Bool.false_ne_true
    · rw [resultsBehind_real h] at hsynthetic
      exact absurd hsynthetic Bool.false_ne_true
    · obtain ⟨call, hcall, -⟩ | hle := origin_entriesFrom h
      · exact absurd hcall List.not_mem_nil
      · unfold nextTurnIndex at hle
        omega
  · -- The whole is the kept transcript, and so is what comes behind.
    have hall := realMessages_entriesFrom now [] (rfl : messages.drop 0 = _) fromAssistants_nil
    change realMessages messages (projectionEntries now messages) = _ at hall
    have horphans := realMessages_synthetic (isSynthetic_orphan now
      (((resultsBehind messages i).filterMap AgentMessage.resultId?).reverse)
      (fromAssistants_pendingOf hat m.toolCalls))
    rw [heq, realMessages_append, realMessages_append, hafter, horphans, List.append_nil,
      List.drop_zero] at hall
    have hsplit := congrArg (List.filter AgentMessage.kept)
      (List.take_append_drop (nextTurnIndex messages i) messages)
    rw [List.filter_append] at hsplit
    exact List.append_cancel_right (hall.trans hsplit.symm)

end Answers

/-! ### Transcripts with nothing to put in -/

/-- Every call is answered before the next turn and no attempt failed; `opened` are the calls without
    a result at the start. -/
def Settled : List String → List AgentMessage → Prop
  | opened, [] => opened = []
  | opened, .user _ :: messages => opened = [] ∧ Settled [] messages
  | opened, .assistant m :: messages =>
    opened = [] ∧ m.stopReason.failed = false
      ∧ Settled (m.toolCalls.map ToolCall.id).eraseDups messages
  | opened, .toolResult m :: messages => Settled (opened.filter fun id => id ≠ m.toolCallId) messages

section Settled

variable {now : Int} {pending : List (String × String × Nat)} {resolved : List String}

/-- The pending calls without a result. -/
def openIds (pending : List (String × String × Nat)) (resolved : List String) : List String :=
  (pending.map Prod.fst).filter fun id => id ∉ resolved

theorem openIds_cons (id : String) :
    openIds pending (id :: resolved) = (openIds pending resolved).filter fun other => other ≠ id := by
  rw [openIds, openIds, List.filter_filter]
  apply List.filter_congr
  intro other _
  by_cases h : other = id <;> simp [h]

theorem openIds_pendingOf (calls : List ToolCall) (k : Nat) :
    openIds (pendingOf calls k) [] = (calls.map ToolCall.id).eraseDups := by
  rw [openIds, pendingOf_ids]
  exact List.filter_eq_self.mpr fun id _ => by simp

theorem orphans_eq_nil (h : openIds pending resolved = []) : orphans now pending resolved = [] := by
  rw [orphans, List.map_eq_nil_iff, List.filter_eq_nil_iff]
  intro call hcall
  exact List.filter_eq_nil_iff.mp h call.1 (List.mem_map_of_mem hcall)

/-- Answers to all calls that are open leave none open. -/
theorem settled_answers {messages : List AgentMessage} (results : List ToolResultMessage)
    (opened : List String) (h : Settled [] messages)
    (hall : ∀ id ∈ opened, id ∈ results.map ToolResultMessage.toolCallId) :
    Settled opened (results.map AgentMessage.toolResult ++ messages) := by
  induction results generalizing opened with
  | nil =>
    obtain rfl : opened = [] := List.eq_nil_iff_forall_not_mem.mpr fun id hid => by simpa using hall id hid
    exact h
  | cons r results ih =>
    refine ih _ ?_
    intro id hid
    obtain ⟨hmem, hne⟩ := List.mem_filter.mp hid
    have := hall id hmem
    rw [List.map_cons, List.mem_cons] at this
    exact this.resolve_left (by simpa using hne)

/-- The answers that are put in settle the calls that are open. -/
theorem settled_orphans {messages : List AgentMessage} (h : Settled [] messages) :
    Settled (openIds pending resolved)
      ((orphans now pending resolved).map Prod.fst ++ messages) := by
  obtain ⟨results, heq, hids⟩ : ∃ results : List ToolResultMessage,
      (orphans now pending resolved).map Prod.fst = results.map AgentMessage.toolResult
        ∧ results.map ToolResultMessage.toolCallId = openIds pending resolved := by
    refine ⟨(pending.filter fun call => call.1 ∉ resolved).map fun call =>
      { toolCallId := call.1, toolName := call.2.1, content := [.text "No result provided"],
        isError := true, timestamp := now }, ?_, ?_⟩
    · simp only [orphans, orphanResult, List.map_map, Function.comp_def]
    · simp only [openIds, List.map_map, List.filter_map, Function.comp_def]
  rw [heq]
  apply settled_answers results _ h
  intro id hid
  rw [hids]
  exact hid

/-- What the loop leaves is settled. -/
theorem settled_entriesFrom (pending : List (String × String × Nat)) (resolved : List String)
    (messages : List AgentMessage) (k : Nat) :
    Settled (openIds pending resolved)
      ((entriesFrom now pending resolved messages k).map Prod.fst) := by
  induction messages generalizing pending resolved k with
  | nil =>
    rw [entriesFrom_nil, ← List.append_nil (List.map _ _)]
    exact settled_orphans rfl
  | cons message messages ih =>
    cases message with
    | user m =>
      rw [entriesFrom_user, List.map_append, List.map_cons]
      exact settled_orphans ⟨rfl, ih [] [] (k + 1)⟩
    | assistant m =>
      by_cases hfailed : m.stopReason.failed = true
      · rw [entriesFrom_failed hfailed, List.map_append]
        exact settled_orphans (ih [] [] (k + 1))
      · have hkept : m.stopReason.failed = false := by simpa using hfailed
        rw [entriesFrom_assistant hkept, List.map_append, List.map_cons]
        refine settled_orphans ⟨rfl, hkept, ?_⟩
        rw [← openIds_pendingOf m.toolCalls k]
        exact ih _ [] (k + 1)
    | toolResult m =>
      rw [entriesFrom_toolResult, List.map_cons]
      show Settled ((openIds pending resolved).filter fun id => id ≠ m.toolCallId) _
      rw [← openIds_cons]
      exact ih pending _ (k + 1)

/-- A settled transcript is its own projection. -/
theorem entriesFrom_settled (pending : List (String × String × Nat)) (resolved : List String)
    {messages : List AgentMessage} (k : Nat) (h : Settled (openIds pending resolved) messages) :
    entriesFrom now pending resolved messages k = messages.zipIdx k := by
  induction messages generalizing pending resolved k with
  | nil => rw [entriesFrom_nil, orphans_eq_nil h, List.zipIdx_nil]
  | cons message messages ih =>
    rw [List.zipIdx_cons]
    cases message with
    | user m =>
      obtain ⟨hopen, hrest⟩ := h
      rw [entriesFrom_user, orphans_eq_nil hopen, List.nil_append, ih [] [] (k + 1) hrest]
    | assistant m =>
      obtain ⟨hopen, hkept, hrest⟩ := h
      rw [← openIds_pendingOf m.toolCalls k] at hrest
      rw [entriesFrom_assistant hkept, orphans_eq_nil hopen, List.nil_append, ih _ [] (k + 1) hrest]
    | toolResult m =>
      change Settled ((openIds pending resolved).filter fun id => id ≠ m.toolCallId) messages at h
      rw [← openIds_cons] at h
      rw [entriesFrom_toolResult, ih pending _ (k + 1) h]

end Settled

/-! ### The boundary -/

theorem foldl_max_spec (origins : List (Nat × Nat)) (least : Int) :
    least ≤ origins.foldl (fun best origin => max best (origin.2 : Int)) least
      ∧ (∀ origin ∈ origins,
        (origin.2 : Int) ≤ origins.foldl (fun best origin => max best (origin.2 : Int)) least)
      ∧ (origins.foldl (fun best origin => max best (origin.2 : Int)) least = least
        ∨ ∃ origin ∈ origins,
          origins.foldl (fun best origin => max best (origin.2 : Int)) least = origin.2) := by
  induction origins generalizing least with
  | nil => simp
  | cons first origins ih =>
    obtain ⟨hleast, hall, hfound⟩ := ih (max least first.2)
    rw [List.foldl_cons]
    refine ⟨by omega, ?_, ?_⟩
    · intro origin horigin
      obtain rfl | h := List.mem_cons.mp horigin
      · omega
      · exact hall origin h
    · obtain h | ⟨origin, horigin, h⟩ := hfound
      · by_cases hle : (first.2 : Int) ≤ least
        · exact .inl (by omega)
        · exact .inr ⟨first, List.mem_cons_self, by omega⟩
      · exact .inr ⟨origin, List.mem_cons_of_mem _ horigin, h⟩

/-- The projected boundary is the last index whose origin is not behind the boundary, or `-1`. -/
theorem projectedBoundary_spec (origins : List Nat) (b : Int) :
    (∀ j o : Nat, origins[j]? = some o → (o : Int) ≤ b → (j : Int) ≤ projectedBoundary origins b)
      ∧ (projectedBoundary origins b = -1
        ∨ ∃ j o : Nat, origins[j]? = some o ∧ (o : Int) ≤ b ∧ projectedBoundary origins b = j) := by
  obtain ⟨-, hall, hfound⟩ :=
    foldl_max_spec (origins.zipIdx.filter fun origin => (origin.1 : Int) ≤ b) (-1)
  refine ⟨?_, ?_⟩
  · intro j o hget hle
    refine hall (o, j) (List.mem_filter.mpr ⟨?_, by simpa using hle⟩)
    exact List.mk_mem_zipIdx_iff_getElem?.mpr hget
  · obtain h | ⟨⟨o, j⟩, hmem, h⟩ := hfound
    · exact .inl h
    · obtain ⟨hzip, hle⟩ := List.mem_filter.mp hmem
      exact .inr ⟨j, o, List.mk_mem_zipIdx_iff_getElem?.mp hzip, by simpa using hle, h⟩

/-- Over messages that are their own origins, a projected boundary stays where it is. -/
theorem projectedBoundary_range {origins : List Nat} {n : Nat} (b : Int) (hlength : origins.length = n) :
    projectedBoundary (List.range n) (projectedBoundary origins b) = projectedBoundary origins b := by
  obtain ⟨hall, hfound⟩ := projectedBoundary_spec (List.range n) (projectedBoundary origins b)
  obtain ⟨-, h⟩ := projectedBoundary_spec origins b
  have hrange : ∀ {j o : Nat}, (List.range n)[j]? = some o → o = j := by
    intro j o hget
    rw [List.getElem?_range (by simpa using (List.getElem?_eq_some_iff.mp hget).1)] at hget
    exact (Option.some.inj hget).symm
  obtain h | ⟨j, o, hget, -, h⟩ := h
  · obtain hfound | ⟨k, o, hget, hle, -⟩ := hfound
    · rw [hfound, h]
    · omega
  · have hj : j < n := hlength ▸ (List.getElem?_eq_some_iff.mp hget).1
    have hlow := hall j j (List.getElem?_range hj) (by omega)
    obtain hfound | ⟨k, o', hget', hle, hk⟩ := hfound
    · omega
    · have := hrange hget'
      omega

/-! ### The projection -/

/-- **Projection.** Without what is put in, the projection is the transcript without its failed
    attempts; a call of a kept message gets one answer, in front of the next turn, exactly if it has
    none there; and a projection is its own projection, with its boundary. -/
theorem project_inference_messages_spec (now : Int) (messages : List AgentMessage) :
    (∀ boundaryIndex, (projectInferenceMessages now messages boundaryIndex).1
        = (projectionEntries now messages).map Prod.fst)
      ∧ realMessages messages (projectionEntries now messages) = messages.filter AgentMessage.kept
      ∧ (∀ i m, messages[i]? = some (.assistant m) → m.stopReason.failed = false →
        ∀ id ∈ m.toolCalls.map ToolCall.id,
          (answeredBehind messages i id →
            ∀ entry ∈ projectionEntries now messages, ¬ SyntheticFor messages i id entry)
          ∧ (¬ answeredBehind messages i id →
            ∃ call ∈ m.toolCalls, call.id = id ∧ ∃ before after,
              projectionEntries now messages = before ++ (orphanResult now id call.name, i) :: after
              ∧ SyntheticFor messages i id (orphanResult now id call.name, i)
              ∧ (∀ entry ∈ before ++ after, ¬ SyntheticFor messages i id entry)
              ∧ realMessages messages before
                = (messages.take (nextTurnIndex messages i)).filter AgentMessage.kept
              ∧ realMessages messages after
                = (messages.drop (nextTurnIndex messages i)).filter AgentMessage.kept))
      ∧ (∀ entry ∈ projectionEntries now messages, isSynthetic messages entry = true →
        ∃ i m id, messages[i]? = some (.assistant m) ∧ m.stopReason.failed = false
          ∧ id ∈ m.toolCalls.map ToolCall.id ∧ SyntheticFor messages i id entry)
      ∧ ∀ now' boundaryIndex, projectInferenceMessages now'
          (projectInferenceMessages now messages boundaryIndex).1
          (projectInferenceMessages now messages boundaryIndex).2
        = projectInferenceMessages now messages boundaryIndex := by
  refine ⟨fun _ => rfl, realMessages_entriesFrom now [] rfl fromAssistants_nil, ?_, ?_, ?_⟩
  · intro i m hat hkept id hid
    obtain ⟨before, after, heq, hother, hbefore, hafter⟩ := orphans_of_message now hat hkept
    have hanswered : answeredBehind messages i id
        ↔ id ∈ ((resultsBehind messages i).filterMap AgentMessage.resultId?).reverse := by
      rw [List.mem_reverse, List.mem_filterMap]
      exact List.mem_map
    generalize ((resultsBehind messages i).filterMap AgentMessage.resultId?).reverse = resolved
      at heq hanswered
    refine ⟨?_, ?_⟩
    · rintro hin entry hentry ⟨hsynthetic, horigin, hentryId⟩
      rw [heq, List.append_assoc, List.mem_append, List.mem_append] at hentry
      obtain h | h | h := hentry
      · exact hother entry (List.mem_append_left _ h) hsynthetic horigin
      · obtain ⟨call, -, hopen, rfl⟩ := mem_orphans h
        obtain rfl := Option.some.inj hentryId
        exact hopen (hanswered.mp hin)
      · exact hother entry (List.mem_append_right _ h) hsynthetic horigin
    · intro hopen
      obtain ⟨call, hcall, hcallId, front, rest, hpending, hdistinct⟩ := exists_pending hid i
      have hsynthetic := isSynthetic_orphan now resolved (fromAssistants_pendingOf hat m.toolCalls)
      rw [hpending, orphans_split front rest (mt hanswered.mpr hopen)] at heq hsynthetic
      refine ⟨call, hcall, hcallId, before ++ orphans now front resolved,
        orphans now rest resolved ++ after,
        heq.trans ?_, ?_, ?_, ?_, ?_⟩
      · rw [List.append_assoc, List.append_assoc, List.append_assoc, List.cons_append]
      · exact ⟨hsynthetic _ (List.mem_append_right _ List.mem_cons_self), rfl, rfl⟩
      · rintro entry hentry ⟨hsyn, horigin, hentryId⟩
        have horphan : ∀ {pending resolved}, entry ∈ orphans now pending resolved →
            ∃ other ∈ pending, other.1 = id := by
          intro pending resolved h
          obtain ⟨other, hmem, -, rfl⟩ := mem_orphans h
          exact ⟨other, hmem, Option.some.inj hentryId⟩
        rw [List.mem_append, List.mem_append, List.mem_append] at hentry
        obtain (h | h) | h | h := hentry
        · exact hother entry (List.mem_append_left _ h) hsyn horigin
        · obtain ⟨other, hmem, hsame⟩ := horphan h
          exact hdistinct other (List.mem_append_left _ hmem) hsame
        · obtain ⟨other, hmem, hsame⟩ := horphan h
          exact hdistinct other (List.mem_append_right _ hmem) hsame
        · exact hother entry (List.mem_append_right _ h) hsyn horigin
      · rw [realMessages_append, hbefore, realMessages_synthetic, List.append_nil]
        exact fun entry h => hsynthetic entry (List.mem_append_left _ h)
      · rw [realMessages_append, hafter, realMessages_synthetic, List.nil_append]
        exact fun entry h => hsynthetic entry
          (List.mem_append_right _ (List.mem_cons_of_mem _ h))
  · intro entry hentry hsynthetic
    obtain ⟨call, rfl, hcall | ⟨m, hat, hkept, hcall⟩⟩ :=
      synthetic_entriesFrom (rfl : messages.drop 0 = _) hentry hsynthetic
    · exact absurd hcall List.not_mem_nil
    · refine ⟨call.2.2, m, call.1, hat, hkept, ?_, hsynthetic, rfl, rfl⟩
      rw [← List.mem_eraseDups, ← pendingOf_ids m.toolCalls call.2.2]
      exact List.mem_map_of_mem hcall
  · intro now' boundaryIndex
    have heq : projectionEntries now' ((projectionEntries now messages).map Prod.fst)
        = ((projectionEntries now messages).map Prod.fst).zipIdx :=
      entriesFrom_settled [] [] 0 (settled_entriesFrom [] [] messages 0)
    have hmessages : (projectionEntries now' ((projectionEntries now messages).map Prod.fst)).map Prod.fst
        = (projectionEntries now messages).map Prod.fst := by
      rw [heq, List.zipIdx_map_fst]
    have horigins : (projectionEntries now' ((projectionEntries now messages).map Prod.fst)).map Prod.snd
        = List.range (projectionEntries now messages).length := by
      rw [heq, List.zipIdx_map_snd, List.length_map, ← List.range_eq_range']
    refine Prod.ext hmessages ?_
    cases boundaryIndex with
    | none => rfl
    | some b =>
      show some (projectedBoundary ((projectionEntries now'
        ((projectionEntries now messages).map Prod.fst)).map Prod.snd) _) = some _
      rw [horigins]
      exact congrArg some (projectedBoundary_range b (List.length_map Prod.snd))

end AeloonRuntime
