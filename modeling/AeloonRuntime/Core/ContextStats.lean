import AeloonRuntime.Core.Types
import Mathlib.Algebra.BigOperators.Group.List.Basic
import Mathlib.Algebra.Order.Field.Rat

namespace AeloonRuntime

open Py

/-!
# Core — token estimates

`core/context_stats.py`: the estimated token footprint of a message and of a whole context, and the
statistics that are shown of it.

`estimate_context_tokens` takes a boundary as an index or as a time; `build_context` never gives
a time without an index, and the index takes precedence, so only the index is modelled.  A percentage
that the source rounds to two digits is a function of two integers, `Rounding`.
-/

/-- `len(part.text)` of a text block, the flat rate of any other block. -/
def blockChars : Content → Nat
  | .text text => text.length
  | _ => 4800

/-- What a block of an assistant message counts for. -/
def assistantBlockChars : Content → Nat
  | .text text => text.length
  | .thinking thinking => thinking.length
  | .toolCall _ name arguments => name.length + (dumpsDefault (.obj arguments)).length
  | .image _ _ => 0

/-- The characters `estimate_tokens` counts. -/
def messageChars : AgentMessage → Nat
  | .user m => match m.content with
    | .str text => text.length
    | .parts parts => (parts.map blockChars).sum
  | .assistant m => (m.content.map assistantBlockChars).sum
  | .toolResult m => (m.content.map blockChars).sum

/-- `estimate_tokens`. -/
def estimateTokens (m : AgentMessage) : Nat := (messageChars m + 3) / 4

/-- A completed response with a usage: what an estimate may be anchored on. -/
def AgentMessage.usageAnchor? : AgentMessage → Option Int
  | .assistant m =>
    if !m.stopReason.failed && 0 < m.usage.totalTokens then some m.usage.totalTokens else none
  | _ => none

/-- The scan of `estimate_context_tokens` from the last message back: `trailing` is the estimate
    of the messages already passed. -/
def estimateBack (usageAfterIndex : Option Int) : List AgentMessage → Int → Int
  | [], trailing => trailing
  | m :: earlier, trailing =>
    let index : Int := earlier.length
    match m.usageAnchor? with
    | some total =>
      if usageAfterIndex.all (· < index) then total + trailing
      else estimateBack usageAfterIndex earlier (trailing + estimateTokens m)
    | none => estimateBack usageAfterIndex earlier (trailing + estimateTokens m)

/-- `estimate_context_tokens`. -/
def estimateContextTokens (messages : List AgentMessage) (usageAfterIndex : Option Int) : Int :=
  estimateBack usageAfterIndex messages.reverse 0

/-! ### The anchor -/

/-- The index of the response at which the scan from the last message back ends. -/
def anchorBack (usageAfterIndex : Option Int) : List AgentMessage → Option Nat
  | [] => none
  | m :: earlier =>
    if m.usageAnchor?.isSome && usageAfterIndex.all (· < (earlier.length : Int)) then some earlier.length
    else anchorBack usageAfterIndex earlier

/-- The index of the response whose usage an estimate takes. -/
def contextAnchor (messages : List AgentMessage) (usageAfterIndex : Option Int) : Option Nat :=
  anchorBack usageAfterIndex messages.reverse

section Anchor

variable {usageAfterIndex : Option Int} {messages : List AgentMessage} {i : Nat}

theorem anchorBack_spec (h : anchorBack usageAfterIndex messages = some i) :
    i < messages.length ∧ usageAfterIndex.all (· < (i : Int)) = true
      ∧ ∃ m, messages.reverse[i]? = some m ∧ m.usageAnchor?.isSome = true := by
  induction messages with
  | nil => cases h
  | cons m earlier ih =>
    rw [anchorBack] at h
    split at h
    · obtain rfl := Option.some.inj h
      rename_i hanchor
      rw [Bool.and_eq_true] at hanchor
      refine ⟨by simp, hanchor.2, m, ?_, hanchor.1⟩
      simp
    · obtain ⟨hlt, hafter, found, hget, hfound⟩ := ih h
      refine ⟨by simp; omega, hafter, found, ?_, hfound⟩
      rw [List.reverse_cons, List.getElem?_append_left (by simpa using hlt)]
      exact hget

/-- The anchor is a completed response behind the boundary. -/
theorem contextAnchor_spec (h : contextAnchor messages usageAfterIndex = some i) :
    usageAfterIndex.all (· < (i : Int)) = true ∧ ∃ m, messages[i]? = some m ∧ m.usageAnchor?.isSome = true := by
  obtain ⟨-, hafter, hfound⟩ := anchorBack_spec h
  rw [List.reverse_reverse] at hfound
  exact ⟨hafter, hfound⟩

theorem estimateBack_eq (trailing : Int) :
    estimateBack usageAfterIndex messages trailing
      = (match anchorBack usageAfterIndex messages with
          | some i => ((messages.reverse[i]?.bind AgentMessage.usageAnchor?).getD 0)
              + (((messages.reverse.drop (i + 1)).map estimateTokens).sum : Nat)
          | none => ((messages.map estimateTokens).sum : Nat)) + trailing := by
  induction messages generalizing trailing with
  | nil => simp [estimateBack, anchorBack]
  | cons m earlier ih =>
    rw [estimateBack, anchorBack]
    have hrest : estimateBack usageAfterIndex earlier (trailing + estimateTokens m)
        = (match anchorBack usageAfterIndex earlier with
            | some i => (((m :: earlier).reverse[i]?.bind AgentMessage.usageAnchor?).getD 0)
                + ((((m :: earlier).reverse.drop (i + 1)).map estimateTokens).sum : Nat)
            | none => (((m :: earlier).map estimateTokens).sum : Nat)) + trailing := by
      rw [ih]
      cases hanchor : anchorBack usageAfterIndex earlier with
      | none =>
        simp only [List.map_cons, List.sum_cons]
        omega
      | some i =>
        have hlt : i < earlier.reverse.length := by simpa using (anchorBack_spec hanchor).1
        have hget : (m :: earlier).reverse[i]? = earlier.reverse[i]? := by
          rw [List.reverse_cons, List.getElem?_append_left hlt]
        have hdrop : (((m :: earlier).reverse.drop (i + 1)).map estimateTokens).sum
            = ((earlier.reverse.drop (i + 1)).map estimateTokens).sum + estimateTokens m := by
          rw [List.reverse_cons, List.drop_append_of_le_length (by omega)]
          simp
        dsimp only
        rw [hget, hdrop, Nat.cast_add]
        simp only [Int.add_assoc, Int.add_comm]
    cases husage : m.usageAnchor? with
    | none => simpa using hrest
    | some total =>
      by_cases hafter : usageAfterIndex.all (· < (earlier.length : Int)) = true
      · have hget : (m :: earlier).reverse[earlier.length]? = some m := by simp
        have hnone : (m :: earlier).reverse.drop (earlier.length + 1) = [] := List.drop_eq_nil_of_le (by simp)
        simp only [hafter, Option.isSome_some, Bool.and_self, if_true, hget, hnone, Option.bind_some, husage]
        simp
      · simpa [hafter] using hrest

/-- **Anchors.** An estimate is the usage of its anchor and the estimates behind it, or the estimates of all
    messages where there is no anchor. -/
theorem estimateContextTokens_eq (messages : List AgentMessage) (usageAfterIndex : Option Int) :
    estimateContextTokens messages usageAfterIndex
      = match contextAnchor messages usageAfterIndex with
        | some i => ((messages[i]?.bind AgentMessage.usageAnchor?).getD 0)
            + (((messages.drop (i + 1)).map estimateTokens).sum : Nat)
        | none => ((messages.map estimateTokens).sum : Nat) := by
  rw [estimateContextTokens, estimateBack_eq, Int.add_zero, contextAnchor, List.reverse_reverse, List.map_reverse,
    List.sum_reverse]

end Anchor

/-! ### Statistics -/

/-- `MESSAGE_TYPES`. -/
inductive MessageType where
  | system
  | user
  | assistant
  | toolResult
  deriving DecidableEq

/-- The order of `MESSAGE_TYPES`. -/
def MessageType.all : List MessageType := [.system, .user, .assistant, .toolResult]

/-- `message_type_for_statistics`. -/
def messageTypeForStatistics : AgentMessage → MessageType
  | .user _ => .user
  | .assistant _ => .assistant
  | .toolResult _ => .toolResult

/-- A `dict` with an integer for every message type. -/
abbrev Buckets := MessageType → Int

/-- `buckets[kind] += amount`. -/
def Buckets.add (b : Buckets) (kind : MessageType) (amount : Int) : Buckets :=
  fun other => if other = kind then b other + amount else b other

/-- `sum(buckets.values())`. -/
def Buckets.sum (b : Buckets) : Int := (MessageType.all.map b).sum

/-- `round(value * 100 / total, 2)`. -/
abbrev Rounding := Int → Int → Rat

/-- `_percent`. -/
def percent (round : Rounding) (value total : Int) : Rat :=
  if 0 < total then round value total else 0

/-- `_scale_tokens`: buckets of an exact total, by largest remainders. -/
def scaleTokens (values : Buckets) (total : Int) : Buckets :=
  let sourceTotal := values.sum
  if sourceTotal ≤ 0 ∨ total ≤ 0 then fun _ => 0
  else
    let quotient : Buckets := fun kind => (values kind * total).fdiv sourceTotal
    let remainder : Buckets := fun kind => (values kind * total).fmod sourceTotal
    let remaining := total - quotient.sum
    let order := MessageType.all.mergeSort fun a b => remainder b ≤ remainder a
    (order.take remaining.toNat).foldl (fun scaled kind => scaled.add kind 1) quotient

/-- `_percentage_distribution`. -/
def percentageDistribution (values : Buckets) (total : Int) : MessageType → Rat :=
  if total ≤ 0 then fun _ => 0
  else fun kind => (scaleTokens values 10000 kind : Rat) / 100

/-- What `context_statistics` returns of one message type. -/
structure TypeStatistics where
  messageCount : Int
  estimatedTokens : Int
  percentage : Rat

/-- What `context_statistics` returns. -/
structure ContextStatistics where
  usedTokens : Int
  windowTokens : Option Int
  remainingTokens : Option Int
  usagePercent : Option Rat
  messageTypes : MessageType → TypeStatistics

/-- The estimates with every used token attributed to a type. -/
def attributeTokens (usedTokens : Int) (estimates : Buckets) : Buckets :=
  let attributedTokens := estimates.sum
  if attributedTokens ≤ usedTokens then estimates.add .system (usedTokens - attributedTokens)
  else if attributedTokens ≠ 0 then scaleTokens estimates usedTokens
  else estimates

/-- `context_statistics_from_aggregates`. -/
def contextStatisticsFromAggregates (round : Rounding) (usedTokens : Int)
    (messageCounts estimatedTokens : Buckets) (contextWindow : Option Int) : ContextStatistics :=
  let windowTokens := contextWindow.map fun window => max 1 window
  let estimates := attributeTokens usedTokens estimatedTokens
  let percentages := percentageDistribution estimates usedTokens
  { usedTokens := usedTokens
    windowTokens := windowTokens
    remainingTokens := windowTokens.map fun window => max 0 (window - usedTokens)
    usagePercent := windowTokens.map fun window => percent round usedTokens window
    messageTypes := fun kind =>
      { messageCount := messageCounts kind
        estimatedTokens := estimates kind
        percentage := percentages kind } }

/-- The counts and the estimates of `context_statistics`, by type. -/
def aggregateMessages (messages : List AgentMessage) : Buckets × Buckets :=
  messages.foldl
    (fun aggregates m => (aggregates.1.add (messageTypeForStatistics m) 1,
      aggregates.2.add (messageTypeForStatistics m) (estimateTokens m)))
    (fun _ => 0, fun _ => 0)

/-- `context_statistics`. -/
def contextStatistics (round : Rounding) (messages : List AgentMessage) (contextWindow : Option Int)
    (usageAfterIndex : Option Int) : ContextStatistics :=
  contextStatisticsFromAggregates round (estimateContextTokens messages usageAfterIndex)
    (aggregateMessages messages).1 (aggregateMessages messages).2 contextWindow

end AeloonRuntime
