import Mathlib.Algebra.BigOperators.Ring.List
import Mathlib.Algebra.Order.BigOperators.Group.List
import Mathlib.Algebra.Order.Field.Basic
import Mathlib.Algebra.Order.Field.Rat
import Mathlib.Data.List.Nodup
import Mathlib.Tactic.FieldSimp
import Mathlib.Tactic.Linarith
import Mathlib.Tactic.Ring

/-!
# Apportionment — largest remainders

A total is shared out over weighted keys: everyone gets its share rounded down, and the units that are left
go to as many keys, one each.

* `quota`, `rest` — a share rounded down, and what it leaves;
* `spare` — the units left over: not negative, and fewer than the keys;
* `bump` — one unit more for some keys;
* `sum_bump_take`, `abs_bump_sub_share_le` — the shares add up to the total, and each is within one of the
  exact share, whichever keys come first.
-/

namespace Apportion

variable {κ : Type} (keys : List κ) (weights : κ → Int) (total : Int)

/-- What the keys have together. -/
def amount (values : κ → Int) : Int := (keys.map values).sum

/-- The share of a key, rounded down. -/
def quota (k : κ) : Int := weights k * total / amount keys weights

/-- What the rounding leaves of the share of a key. -/
def rest (k : κ) : Int := weights k * total % amount keys weights

/-- The units that no key has got. -/
def spare : Int := total - amount keys (quota keys weights total)

/-- One unit more for the chosen keys. -/
def bump [DecidableEq κ] (values : κ → Int) (chosen : List κ) (k : κ) : Int :=
  values k + if k ∈ chosen then 1 else 0

variable {keys weights total}

theorem amount_mul (values : κ → Int) (n : Int) : amount keys (fun k => values k * n) = amount keys values * n :=
  List.sum_map_mul_right keys values n

theorem amount_add (values others : κ → Int) :
    amount keys (fun k => values k + others k) = amount keys values + amount keys others :=
  List.sum_map_add

/-! ### What is left over -/

section Spare

variable (hweight : 0 < amount keys weights)

/-- The rests are the units left over, each as often as the weights count. -/
theorem amount_rest : amount keys (rest keys weights total) = amount keys weights * spare keys weights total := by
  have hsplit : amount keys (fun k => weights k * total)
      = amount keys (rest keys weights total)
        + amount keys (quota keys weights total) * amount keys weights := by
    rw [← amount_mul, ← amount_add]
    refine congrArg (amount keys) (funext fun k => ?_)
    exact (Int.emod_add_ediv_mul (weights k * total) (amount keys weights)).symm
  rw [amount_mul] at hsplit
  rw [spare]
  linarith

include hweight

theorem rest_nonneg (k : κ) : 0 ≤ rest keys weights total k := Int.emod_nonneg _ hweight.ne'

theorem rest_lt (k : κ) : rest keys weights total k < amount keys weights := Int.emod_lt_of_pos _ hweight

theorem spare_nonneg (total : Int) : 0 ≤ spare keys weights total := by
  have hsum : 0 ≤ amount keys (rest keys weights total) := by
    refine List.sum_nonneg fun n hn => ?_
    obtain ⟨k, -, rfl⟩ := List.mem_map.mp hn
    exact rest_nonneg hweight k
  rw [amount_rest] at hsum
  exact nonneg_of_mul_nonneg_right hsum hweight

/-- Every key leaves less than one unit. -/
theorem spare_le (total : Int) : spare keys weights total ≤ keys.length := by
  have hsum : amount keys (rest keys weights total) ≤ amount keys weights * keys.length := by
    have hcount := List.sum_le_card_nsmul (keys.map (rest keys weights total)) (amount keys weights) (by
      intro n hn
      obtain ⟨k, -, rfl⟩ := List.mem_map.mp hn
      exact (rest_lt hweight k).le)
    rw [List.length_map, nsmul_eq_mul, mul_comm] at hcount
    exact hcount
  rw [amount_rest] at hsum
  exact le_of_mul_le_mul_left hsum hweight

end Spare

/-! ### Handing it out -/

section Bump

variable [DecidableEq κ] {chosen order : List κ}

/-- The chosen keys among keys that are all different are as many as are chosen. -/
theorem amount_mem (hkeys : keys.Nodup) (hchosen : chosen.Nodup) (hsub : chosen ⊆ keys) :
    amount keys (fun k => if k ∈ chosen then 1 else 0) = chosen.length := by
  have hcount : ∀ ks : List κ, amount ks (fun k => if k ∈ chosen then 1 else 0)
      = ((ks.filter (· ∈ chosen)).length : Int) := by
    intro ks
    induction ks with
    | nil => rfl
    | cons k ks ih =>
      rw [amount, List.map_cons, List.sum_cons, ← amount, ih]
      by_cases hk : k ∈ chosen
      · simp [hk, add_comm]
      · simp [hk]
  have hperm : (keys.filter (· ∈ chosen)).Perm chosen := by
    refine (List.perm_ext_iff_of_nodup (hkeys.filter _) hchosen).mpr fun k => ?_
    rw [List.mem_filter, decide_eq_true_eq]
    exact ⟨And.right, fun hk => ⟨hsub hk, hk⟩⟩
  rw [hcount, hperm.length_eq]

/-- **The sum.** Handing the units that are left to the first keys of any order gives the total. -/
theorem amount_bump_take (hkeys : keys.Nodup) (horder : order.Perm keys) (hweight : 0 < amount keys weights) :
    amount keys (bump (quota keys weights total) (order.take (spare keys weights total).toNat)) = total := by
  have hnodup : order.Nodup := horder.nodup_iff.mpr hkeys
  have hsub : order.take (spare keys weights total).toNat ⊆ keys := fun k hk =>
    horder.subset (List.mem_of_mem_take hk)
  have hlength : ((order.take (spare keys weights total).toNat).length : Int) = spare keys weights total := by
    have hnonneg := spare_nonneg hweight total
    have hle := spare_le hweight total
    rw [List.length_take, horder.length_eq]
    omega
  show amount keys (fun k => quota keys weights total k + _) = total
  rw [amount_add, amount_mem hkeys (hnodup.sublist (List.take_sublist _ _)) hsub, hlength, spare]
  ring

/-- **The bound.** A share rounded down, with or without one more unit, is within one of the exact share. -/
theorem abs_bump_sub_share_le (hweight : 0 < amount keys weights) (k : κ) :
    |(bump (quota keys weights total) chosen k : ℚ) - weights k * total / amount keys weights| ≤ 1 := by
  have hpos : (0 : ℚ) < amount keys weights := by exact_mod_cast hweight
  have hsplit : (weights k * total : ℚ)
      = amount keys weights * quota keys weights total k + rest keys weights total k := by
    exact_mod_cast (Int.mul_ediv_add_emod (weights k * total) (amount keys weights)).symm
  have hrest : (weights k * total : ℚ) / amount keys weights
      = quota keys weights total k + rest keys weights total k / amount keys weights := by
    rw [hsplit]
    field_simp
  have hlow : (0 : ℚ) ≤ rest keys weights total k / amount keys weights :=
    div_nonneg (by exact_mod_cast rest_nonneg hweight k) hpos.le
  have hhigh : (rest keys weights total k : ℚ) / amount keys weights ≤ 1 :=
    (div_le_one hpos).mpr (by exact_mod_cast (rest_lt hweight k).le)
  rw [hrest, bump, abs_le]
  by_cases hk : k ∈ chosen
  · rw [if_pos hk, Int.cast_add, Int.cast_one]
    constructor <;> linarith
  · rw [if_neg hk, Int.cast_add, Int.cast_zero]
    constructor <;> linarith

theorem bump_nonneg {values : κ → Int} (h : ∀ k, 0 ≤ values k) (k : κ) : 0 ≤ bump values chosen k := by
  have hk := h k
  rw [bump]
  split <;> omega

/-- Chosen keys that are all different, one after the other. -/
theorem foldl_update (values : κ → Int) (hchosen : chosen.Nodup) :
    chosen.foldl (fun values k other => if other = k then values other + 1 else values other) values
      = bump values chosen := by
  induction chosen generalizing values with
  | nil =>
    funext k
    simp [bump]
  | cons k chosen ih =>
    obtain ⟨hk, hchosen⟩ := List.nodup_cons.mp hchosen
    rw [List.foldl_cons, ih _ hchosen]
    funext other
    by_cases hother : other = k
    · subst hother
      simp [bump, hk]
    · simp [bump, hother]

end Bump

end Apportion
