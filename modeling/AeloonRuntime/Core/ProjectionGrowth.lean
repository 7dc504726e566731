import AeloonRuntime.Core.MessageCodec
import AeloonRuntime.Core.ProjectionLaws

namespace AeloonRuntime

open Py

/-!
# Projection growth — the projection of a transcript that grows

The projection of a transcript and a block behind it: what is open at the end of the transcript is
answered in front of the block, so that the two parts are projected apart.

* `entriesFrom_append` — the two parts of the loop;
* `normalize_append_settled`, `normalize_append_failed` — a block with nothing to put in joins as it is,
  a failed attempt is left out;
* `AnsweredBlock` — a response and its results, as a block.
-/

section Loop

variable {now : Int} {pending : List (String × String × Nat)} {resolved : List String}
  {block : List AgentMessage}

/-- The loop over a transcript and over a block that begins a turn. -/
theorem entriesFrom_append (messages : List AgentMessage) (k : Nat)
    (h : ∀ m ∈ block.head?, m.isToolResult = false) :
    entriesFrom now pending resolved (messages ++ block) k
      = entriesFrom now pending resolved messages k
        ++ entriesFrom now [] [] block (k + messages.length) := by
  induction messages generalizing pending resolved k with
  | nil => rw [List.nil_append, entriesFrom_flush k h, entriesFrom_nil, List.length_nil, Nat.add_zero]
  | cons message messages ih =>
    have hlength : k + (message :: messages).length = k + 1 + messages.length := by
      rw [List.length_cons]
      omega
    rw [List.cons_append, hlength]
    cases message with
    | user m => simp [entriesFrom_user, ih]
    | assistant m =>
      cases hfailed : m.stopReason.failed with
      | true => simp [entriesFrom_failed hfailed, ih]
      | false => simp [entriesFrom_assistant hfailed, ih]
    | toolResult m => simp [entriesFrom_toolResult, ih]

/-- The projection, by its entries. -/
theorem normalize_eq (now : Int) (messages : List AgentMessage) :
    normalizeInferenceMessages now messages = (entriesFrom now [] [] messages 0).map Prod.fst := rfl

/-- A block with nothing to leave out and nothing to put in joins the projection as it is. -/
theorem normalize_append_settled (messages : List AgentMessage)
    (h : ∀ m ∈ block.head?, m.isToolResult = false) (hsettled : Settled [] block) :
    normalizeInferenceMessages now (messages ++ block)
      = normalizeInferenceMessages now messages ++ block := by
  rw [normalize_eq, normalize_eq, entriesFrom_append messages 0 h, List.map_append,
    entriesFrom_settled [] [] _ hsettled]
  simp

/-- A failed attempt is left out. -/
theorem normalize_append_failed (messages : List AgentMessage) {m : AssistantMessage}
    (hfailed : m.stopReason.failed = true) :
    normalizeInferenceMessages now (messages ++ [.assistant m])
      = normalizeInferenceMessages now messages := by
  have hhead : ∀ other ∈ [AgentMessage.assistant m].head?, other.isToolResult = false := by
    simp [AgentMessage.isToolResult]
  rw [normalize_eq, normalize_eq, entriesFrom_append messages 0 hhead, entriesFrom_failed hfailed,
    entriesFrom_nil, orphans_nil, List.append_nil, List.append_nil]

end Loop

/-! ### A response and its results -/

/-- A response with the results behind it; these of its calls have none yet. -/
structure AnsweredBlock (m : AssistantMessage) (results : List ToolResultMessage)
    (unanswered : List String) : Prop where
  kept : m.stopReason.failed = false
  answered : ∀ id ∈ m.toolCalls.map ToolCall.id,
    id ∈ results.map ToolResultMessage.toolCallId ∨ id ∈ unanswered

/-- The messages of a block. -/
def blockMessages (m : AssistantMessage) (results : List ToolResultMessage) : List AgentMessage :=
  .assistant m :: results.map .toolResult

section Block

variable {m : AssistantMessage} {results : List ToolResultMessage} {unanswered : List String}

/-- Once every call is answered, the block is settled. -/
theorem AnsweredBlock.settled (h : AnsweredBlock m results []) : Settled [] (blockMessages m results) := by
  refine ⟨rfl, h.kept, ?_⟩
  rw [← List.append_nil (results.map AgentMessage.toolResult)]
  refine settled_answers results _ rfl ?_
  intro id hid
  exact (h.answered id (List.mem_eraseDups.mp hid)).resolve_right List.not_mem_nil

theorem blockMessages_head : ∀ other ∈ (blockMessages m results).head?, other.isToolResult = false := by
  simp [blockMessages, AgentMessage.isToolResult]

/-- The ids of calls that are read back. -/
theorem callIds_decoded (m : AssistantMessage) :
    m.decoded.toolCalls.map ToolCall.id
      = (m.toolCalls.map ToolCall.id).map fun id => textOr id "tool-call" := by
  show ((m.content.map Content.decoded).filterMap Content.toolCall?).map ToolCall.id
    = ((m.content.filterMap Content.toolCall?).map ToolCall.id).map _
  rw [List.filterMap_map, List.map_map, List.map_filterMap, List.map_filterMap]
  congr 1
  funext part
  cases part <;> rfl

/-- A block that is read back is one. -/
theorem AnsweredBlock.decoded (h : AnsweredBlock m results []) :
    AnsweredBlock m.decoded (results.map ToolResultMessage.decoded) [] := by
  refine ⟨?_, ?_⟩
  · rw [← h.kept]
    exact StopReason.failed_decoded m.stopReason
  · intro id hid
    rw [callIds_decoded] at hid
    obtain ⟨raw, hraw, rfl⟩ := List.mem_map.mp hid
    obtain ⟨r, hr, rfl⟩ := List.mem_map.mp ((h.answered raw hraw).resolve_right List.not_mem_nil)
    exact .inl (by simpa [ToolResultMessage.decoded] using ⟨r, hr, rfl⟩)

theorem blockMessages_decoded (m : AssistantMessage) (results : List ToolResultMessage) :
    (blockMessages m results).map AgentMessage.decoded
      = blockMessages m.decoded (results.map ToolResultMessage.decoded) := by
  simp [blockMessages, AgentMessage.decoded, Function.comp_def]

end Block

/-! ### Two copies of a transcript -/

/-- The projections are equal once they are read back. -/
def SameProjection (messages durable : List AgentMessage) : Prop :=
  ∀ now, (normalizeInferenceMessages now messages).map AgentMessage.decoded
    = (normalizeInferenceMessages now durable).map AgentMessage.decoded

section Same

variable {messages durable : List AgentMessage}

/-- A user message joins both, as it is and read back. -/
theorem SameProjection.user (h : SameProjection messages durable) (m : UserMessage) :
    SameProjection (messages ++ [.user m]) (durable ++ [AgentMessage.decoded (.user m)]) := by
  intro now
  have hhead : ∀ (m : UserMessage), ∀ other ∈ [AgentMessage.user m].head?, other.isToolResult = false := by
    simp [AgentMessage.isToolResult]
  rw [normalize_append_settled messages (hhead m) ⟨rfl, rfl⟩, AgentMessage.decoded,
    normalize_append_settled durable (hhead m.decoded) ⟨rfl, rfl⟩, List.map_append, List.map_append, h now]
  congr 1
  show [AgentMessage.decoded (.user m)] = [AgentMessage.decoded (AgentMessage.decoded (.user m))]
  rw [decoded_decoded]

/-- A failed attempt may join either. -/
theorem SameProjection.failed (h : SameProjection messages durable) {m : AssistantMessage}
    (hfailed : m.stopReason.failed = true) :
    SameProjection (messages ++ [.assistant m]) durable
      ∧ SameProjection messages (durable ++ [AgentMessage.decoded (.assistant m)]) := by
  have hdecoded : m.decoded.stopReason.failed = true := by
    rw [← hfailed]
    exact StopReason.failed_decoded m.stopReason
  refine ⟨?_, ?_⟩
  · intro now
    rw [normalize_append_failed messages hfailed]
    exact h now
  · intro now
    rw [AgentMessage.decoded, normalize_append_failed durable hdecoded]
    exact h now

/-- A response with all its results joins both. -/
theorem SameProjection.block (h : SameProjection messages durable) {m : AssistantMessage}
    {results : List ToolResultMessage} (hblock : AnsweredBlock m results []) :
    SameProjection (messages ++ blockMessages m results)
      (durable ++ (blockMessages m results).map AgentMessage.decoded) := by
  intro now
  rw [blockMessages_decoded, normalize_append_settled messages blockMessages_head hblock.settled,
    normalize_append_settled durable blockMessages_head hblock.decoded.settled, List.map_append,
    List.map_append, h now, ← blockMessages_decoded, List.map_map]
  congr 2
  funext other
  exact (decoded_decoded other).symm

end Same

end AeloonRuntime
