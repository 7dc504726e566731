import AeloonRuntime.Core.ProjectionLaws
import AeloonRuntime.Core.Runner

namespace AeloonRuntime

open Py

/-!
# Projected boundary — a compaction boundary under projection

`project_inference_messages` drops failed attempts and puts results in, and moves the boundary along.  The
origins of its messages do not ascend, but behind a user or assistant message they are never before its own.

* `turns_pairwise`, `turn_origin` — the origins behind a turn, and the message at a turn's origin;
* `projected_boundary_iff` — a turn is behind the projected boundary exactly if its origin is behind the
  boundary, and so is the anchor of an estimate.
-/

/-- Behind a message that is no tool result, no origin is before its own. -/
def NotBefore (first later : AgentMessage × Nat) : Prop :=
  first.1.isToolResult = false → first.2 ≤ later.2

section Origins

variable {now : Int} {pending : List (String × String × Nat)} {resolved : List String}
  {messages all : List AgentMessage} {k : Nat}

/-- What is put in are tool results. -/
theorem isToolResult_orphan {entry : AgentMessage × Nat} (h : entry ∈ orphans now pending resolved) :
    entry.1.isToolResult = true := by
  obtain ⟨call, -, -, rfl⟩ := mem_orphans h
  rfl

/-- Results that are put in stand before anything. -/
theorem pairwise_orphans_append {entries : List (AgentMessage × Nat)} (h : entries.Pairwise NotBefore) :
    (orphans now pending resolved ++ entries).Pairwise NotBefore := by
  have hvoid : ∀ entry ∈ orphans now pending resolved, ∀ later, NotBefore entry later := by
    intro entry hentry later hturn
    rw [isToolResult_orphan hentry] at hturn
    cases hturn
  rw [List.pairwise_append]
  refine ⟨?_, h, fun entry hentry later _ => hvoid entry hentry later⟩
  exact List.Pairwise.imp_of_mem (fun hentry _ _ => hvoid _ hentry _)
    (List.pairwise_of_forall (R := fun _ _ => True) fun _ _ => trivial)

/-- **Order.** The origins behind a turn. -/
theorem turns_pairwise : (entriesFrom now pending resolved messages k).Pairwise NotBefore := by
  induction messages generalizing pending resolved k with
  | nil =>
    rw [entriesFrom_nil, ← List.append_nil (orphans now pending resolved)]
    exact pairwise_orphans_append .nil
  | cons message messages ih =>
    cases message with
    | user m =>
      rw [entriesFrom_user]
      refine pairwise_orphans_append (List.pairwise_cons.mpr ⟨?_, ih⟩)
      intro later hlater _
      obtain ⟨call, hcall, -⟩ | hle := origin_entriesFrom hlater
      · cases hcall
      · show k ≤ later.2
        omega
    | assistant m =>
      by_cases hfailed : m.stopReason.failed = true
      · rw [entriesFrom_failed hfailed]
        exact pairwise_orphans_append ih
      · rw [entriesFrom_assistant (by simpa using hfailed)]
        refine pairwise_orphans_append (List.pairwise_cons.mpr ⟨?_, ih⟩)
        intro later hlater _
        show k ≤ later.2
        obtain ⟨call, hcall, horigin⟩ | hle := origin_entriesFrom hlater
        · rw [horigin, origin_pendingOf hcall]
        · omega
    | toolResult m =>
      rw [entriesFrom_toolResult]
      refine List.pairwise_cons.mpr ⟨?_, ih⟩
      intro later _ hturn
      cases hturn

/-- A turn of the projection is the message at its origin. -/
theorem turn_origin {entry : AgentMessage × Nat} (hall : all.drop k = messages)
    (h : entry ∈ entriesFrom now pending resolved messages k) (hturn : entry.1.isToolResult = false) :
    all[entry.2]? = some entry.1 := by
  have hno : ∀ {pending resolved}, entry ∉ orphans now pending resolved := by
    intro pending resolved hentry
    rw [isToolResult_orphan hentry] at hturn
    cases hturn
  induction messages generalizing pending resolved k with
  | nil => exact absurd (entriesFrom_nil ▸ h) hno
  | cons message messages ih =>
    have hat : all[k]? = some message := by rw [← List.head?_drop, hall, List.head?_cons]
    have hrest : all.drop (k + 1) = messages := by rw [← List.tail_drop, hall, List.tail_cons]
    cases message with
    | user m =>
      rw [entriesFrom_user, List.mem_append, List.mem_cons] at h
      obtain h | rfl | h := h
      · exact absurd h hno
      · exact hat
      · exact ih hrest h
    | assistant m =>
      by_cases hfailed : m.stopReason.failed = true
      · rw [entriesFrom_failed hfailed, List.mem_append] at h
        obtain h | h := h
        · exact absurd h hno
        · exact ih hrest h
      · rw [entriesFrom_assistant (by simpa using hfailed), List.mem_append, List.mem_cons] at h
        obtain h | rfl | h := h
        · exact absurd h hno
        · exact hat
        · exact ih hrest h
    | toolResult m =>
      rw [entriesFrom_toolResult, List.mem_cons] at h
      obtain rfl | h := h
      · exact hat
      · exact ih hrest h

end Origins

/-! ### The boundary -/

/-- Where no origin behind an index is before its own, the projected boundary is before the index exactly if the
    boundary is before its origin. -/
theorem projectedBoundary_lt_iff {origins : List Nat} {i j : Nat} (b : Int) (hj : origins[j]? = some i)
    (hlater : ∀ j' o : Nat, j < j' → origins[j']? = some o → i ≤ o) :
    projectedBoundary origins b < j ↔ b < i := by
  obtain ⟨hall, hfound⟩ := projectedBoundary_spec origins b
  constructor
  · intro hlt
    by_contra hle
    have := hall j i hj (by omega)
    omega
  · intro hlt
    obtain hnone | ⟨j', o, ho, hle, hboundary⟩ := hfound
    · omega
    · rw [hboundary]
      by_contra hnot
      obtain heq | hbehind : j = j' ∨ j < j' := by omega
      · subst heq
        obtain rfl := Option.some.inj (hj.symm.trans ho)
        omega
      · have := hlater j' o hbehind ho
        omega

/-- **Boundaries.** A user or assistant message of the projection is the message at its origin, and is behind the
    projected boundary if and only if that is behind the boundary; what an estimate of the context is anchored on
    is such a message. -/
theorem projected_boundary_iff (now : Int) (messages : List AgentMessage) (b : Int) :
    ∃ boundary, projectInferenceMessages now messages (some b)
        = ((projectionEntries now messages).map Prod.fst, some boundary)
      ∧ (∀ (j : Nat) m i, (projectionEntries now messages)[j]? = some (m, i) → m.isToolResult = false →
          messages[i]? = some m ∧ (boundary < (j : Int) ↔ b < (i : Int)))
      ∧ estimateInferenceContext messages (some b) now
          = estimateContextTokens ((projectionEntries now messages).map Prod.fst) (some boundary)
      ∧ ∀ j, contextAnchor ((projectionEntries now messages).map Prod.fst) (some boundary) = some j →
          ∃ m i, (projectionEntries now messages)[j]? = some (m, i) ∧ messages[i]? = some m ∧ b < (i : Int) := by
  have hturn : ∀ (j : Nat) m i, (projectionEntries now messages)[j]? = some (m, i) → m.isToolResult = false →
      messages[i]? = some m
        ∧ (projectedBoundary ((projectionEntries now messages).map Prod.snd) b < (j : Int) ↔ b < (i : Int)) := by
    intro j m i hj hm
    have hmem : (m, i) ∈ projectionEntries now messages := List.mem_of_getElem? hj
    have horigin : messages[i]? = some m :=
      turn_origin (List.drop_zero (l := messages)) hmem hm
    refine ⟨horigin, projectedBoundary_lt_iff b (by rw [List.getElem?_map, hj]; rfl) ?_⟩
    intro j' o hlt ho
    obtain ⟨later, hlater, rfl⟩ : ∃ later, (projectionEntries now messages)[j']? = some later ∧ later.2 = o := by
      simpa [List.getElem?_map] using ho
    obtain ⟨hj₁, hj₂⟩ := List.getElem?_eq_some_iff.mp hj
    obtain ⟨hj₃, hj₄⟩ := List.getElem?_eq_some_iff.mp hlater
    have hsorted : (projectionEntries now messages).Pairwise NotBefore := turns_pairwise
    have hpair := List.pairwise_iff_getElem.mp hsorted j j' hj₁ hj₃ hlt
    rw [hj₂, hj₄] at hpair
    exact hpair hm
  refine ⟨_, rfl, hturn, rfl, ?_⟩
  intro j hanchor
  obtain ⟨hafter, m, hget, hm⟩ := contextAnchor_spec hanchor
  rw [List.getElem?_map, Option.map_eq_some_iff] at hget
  obtain ⟨⟨found, i⟩, hentry, hfound⟩ := hget
  obtain rfl : found = m := hfound
  -- an anchor is an assistant message
  have hresult : found.isToolResult = false := by
    cases found with
    | toolResult m => cases hm
    | _ => rfl
  obtain ⟨hmessage, hiff⟩ := hturn j found i hentry hresult
  exact ⟨found, i, hentry, hmessage, hiff.mp (of_decide_eq_true hafter)⟩

end AeloonRuntime
