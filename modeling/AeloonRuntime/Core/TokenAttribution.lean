import AeloonRuntime.Core.ContextStats
import AeloonRuntime.Lib.Apportion

namespace AeloonRuntime

open Apportion

/-!
# Core — the attribution of the used tokens

What `context_statistics_from_aggregates` does to the estimates it is given: it shares the used tokens out,
and then the basis points of the percentages.

* `scaleTokens_spec` — `_scale_tokens` is the apportionment of its total by largest remainders;
* `attributeTokens_spec` — the estimates that are shown, beside those that are given;
* `token_attribution` — the two of them in a row.
-/

/-! ### Scaling -/

section Scale

variable {values : Buckets} {total : Int}

theorem messageTypes_nodup : MessageType.all.Nodup := by decide

theorem Buckets.sum_eq (b : Buckets) : b.sum = amount MessageType.all b := rfl

theorem Buckets.sum_nonneg {b : Buckets} (h : ∀ kind, 0 ≤ b kind) : 0 ≤ b.sum := by
  refine List.sum_nonneg fun n hn => ?_
  obtain ⟨kind, -, rfl⟩ := List.mem_map.mp hn
  exact h kind

theorem Buckets.sum_add (b : Buckets) (kind : MessageType) (n : Int) : (b.add kind n).sum = b.sum + n := by
  cases kind <;> simp [Buckets.sum, Buckets.add, MessageType.all] <;> ring

/-- Scaled buckets are shares rounded down, with one more for the first of the order. -/
theorem scaleTokens_eq (hvalues : 0 < values.sum) (htotal : 0 < total) :
    ∃ order : List MessageType, order.Perm MessageType.all
      ∧ scaleTokens values total
        = bump (quota MessageType.all values total)
          (order.take (spare MessageType.all values total).toNat) := by
  have hquota : (fun kind => (values kind * total).fdiv values.sum) = quota MessageType.all values total := by
    funext kind
    exact Int.fdiv_eq_ediv_of_nonneg _ hvalues.le
  have hguard : ¬(values.sum ≤ 0 ∨ total ≤ 0) := by omega
  have horder := List.mergeSort_perm MessageType.all fun a b =>
    decide ((values b * total).fmod values.sum ≤ (values a * total).fmod values.sum)
  refine ⟨_, horder, ?_⟩
  rw [scaleTokens, if_neg hguard]
  dsimp only
  rw [hquota]
  exact foldl_update _ ((horder.nodup_iff.mpr messageTypes_nodup).sublist (List.take_sublist _ _))

/-- **Scaling.** Scaled buckets have the total together, none is negative, and each is within one of its
    share. -/
theorem scaleTokens_spec (hvalues : ∀ kind, 0 ≤ values kind) (hsum : 0 < values.sum) (htotal : 0 ≤ total) :
    (∀ kind, 0 ≤ scaleTokens values total kind) ∧ (scaleTokens values total).sum = total
      ∧ ∀ kind, |(scaleTokens values total kind : ℚ) - values kind * total / values.sum| ≤ 1 := by
  rcases htotal.eq_or_lt with hzero | hpos
  · subst hzero
    have hnone : scaleTokens values 0 = fun _ => 0 := by
      rw [scaleTokens, if_pos (.inr le_rfl)]
    rw [hnone]
    refine ⟨fun _ => le_rfl, rfl, fun kind => ?_⟩
    simp
  · obtain ⟨order, horder, heq⟩ := scaleTokens_eq hsum hpos
    rw [heq]
    refine ⟨fun kind => ?_, ?_, fun kind => ?_⟩
    · refine bump_nonneg (fun k => ?_) kind
      exact Int.ediv_nonneg (mul_nonneg (hvalues k) htotal) hsum.le
    · exact amount_bump_take messageTypes_nodup horder hsum
    · exact abs_bump_sub_share_le hsum kind

end Scale

/-! ### Attribution -/

section Attribution

variable {used : Int} {estimated : Buckets}

/-- What the given estimates fall short of the used tokens goes to the system. -/
theorem attributeTokens_of_le (h : estimated.sum ≤ used) :
    attributeTokens used estimated = estimated.add .system (used - estimated.sum) := if_pos h

/-- Estimates that exceed the used tokens are scaled. -/
theorem attributeTokens_of_lt (hused : 0 ≤ used) (h : used < estimated.sum) :
    attributeTokens used estimated = scaleTokens estimated used := by
  have hne : estimated.sum ≠ 0 := by omega
  rw [attributeTokens]
  show (if estimated.sum ≤ used then _ else _) = _
  rw [if_neg (by omega), if_pos hne]

/-- **Attribution.** The shown estimates are the used tokens, none is negative, and they are the given ones
    but for the system, or else shares of the used tokens. -/
theorem attributeTokens_spec (hused : 0 ≤ used) (hestimated : ∀ kind, 0 ≤ estimated kind) :
    (∀ kind, 0 ≤ attributeTokens used estimated kind) ∧ (attributeTokens used estimated).sum = used
      ∧ (used < estimated.sum →
          ∀ kind, |(attributeTokens used estimated kind : ℚ) - estimated kind * used / estimated.sum| ≤ 1)
      ∧ (estimated.sum ≤ used →
          ∀ kind, kind ≠ .system → attributeTokens used estimated kind = estimated kind) := by
  by_cases hle : estimated.sum ≤ used
  · rw [attributeTokens_of_le hle]
    refine ⟨fun kind => ?_, ?_, fun hlt => absurd hle (by omega), fun _ kind hkind => if_neg hkind⟩
    · have hkind := hestimated kind
      rw [Buckets.add]
      split <;> omega
    · rw [Buckets.sum_add]
      omega
  · have hlt : used < estimated.sum := by omega
    rw [attributeTokens_of_lt hused hlt]
    obtain ⟨hnonneg, hsum, hshare⟩ := scaleTokens_spec hestimated (hused.trans_lt hlt) hused
    exact ⟨hnonneg, hsum, fun _ => hshare, fun h => absurd h hle⟩

/-- The basis points of the percentages are 10000 for buckets that have something. -/
theorem sum_percentageDistribution (hestimated : ∀ kind, 0 ≤ estimated kind) (hsum : estimated.sum = used)
    (hused : 0 < used) :
    (MessageType.all.map fun kind => percentageDistribution estimated used kind * 100).sum = 10000 := by
  obtain ⟨-, hbasis, -⟩ := scaleTokens_spec hestimated (hsum ▸ hused) (by omega : (0 : Int) ≤ 10000)
  have hpoints : (MessageType.all.map fun kind => percentageDistribution estimated used kind * 100)
      = (MessageType.all.map fun kind => ((scaleTokens estimated 10000 kind : Int) : ℚ)) := by
    refine List.map_congr_left fun kind _ => ?_
    rw [percentageDistribution, if_neg (by omega)]
    exact div_mul_cancel₀ _ (by norm_num)
  rw [hpoints]
  simp only [Buckets.sum, MessageType.all, List.map_cons, List.map_nil, List.sum_cons, List.sum_nil] at hbasis ⊢
  exact_mod_cast hbasis

/-- **Token attribution.** The estimates that are shown are not negative and sum up to the used tokens; if the
    given ones exceed them, each is within one of its proportional share, and otherwise only that of the system
    is another; and the percentages of a context that uses tokens are 10000 basis points. -/
theorem token_attribution (round : Rounding) (counts : Buckets) (contextWindow : Option Int)
    (hused : 0 ≤ used) (hestimated : ∀ kind, 0 ≤ estimated kind) :
    let shown := (contextStatisticsFromAggregates round used counts estimated contextWindow).messageTypes
    (∀ kind, 0 ≤ (shown kind).estimatedTokens)
      ∧ (Buckets.sum fun kind => (shown kind).estimatedTokens) = used
      ∧ (used < estimated.sum →
          ∀ kind, |((shown kind).estimatedTokens : ℚ) - estimated kind * used / estimated.sum| ≤ 1)
      ∧ (estimated.sum ≤ used → ∀ kind, kind ≠ .system → (shown kind).estimatedTokens = estimated kind)
      ∧ (0 < used → (MessageType.all.map fun kind => (shown kind).percentage * 100).sum = 10000) := by
  obtain ⟨hnonneg, hsum, hshare, hkept⟩ := attributeTokens_spec hused hestimated
  exact ⟨hnonneg, hsum, hshare, hkept, fun hpos => sum_percentageDistribution hnonneg hsum hpos⟩

/-- Seven estimated tokens for a context of five. -/
theorem token_attribution_scaled :
    let shown := (contextStatisticsFromAggregates (fun _ _ => 0) 5 (fun _ => 1)
      (fun kind => if kind = .user then 4 else 1) none).messageTypes
    (Buckets.sum fun kind => (shown kind).estimatedTokens) = 5
      ∧ (MessageType.all.map fun kind => (shown kind).percentage * 100).sum = 10000 := by
  have h := token_attribution (fun _ _ => 0) (fun _ => 1) none (by omega : (0 : Int) ≤ 5)
    (fun kind => (by split <;> omega : (0 : Int) ≤ if kind = MessageType.user then 4 else 1))
  exact ⟨h.2.1, h.2.2.2.2 (by omega)⟩

end Attribution

end AeloonRuntime
