import Mathlib.Data.List.Basic
import Mathlib.Data.List.Infix
import Mathlib.Tactic.Common

namespace Py

/-!
# `str.find` — where a text stands in another one

* `OccursAt` — a needle stands at a position of a text;
* `strFind` — its first position;
* `strFind_append_left`, `strFind_append_right` — what is found in a longer text;
* `matchStarts` — its positions as `re.finditer` finds them: a match begins behind the one before;
* `unique_match` — where there is one match, every other occurrence overlaps it.
-/

variable {α : Type} {needle : List α}

/-- `text.startswith(needle, i)`. -/
def OccursAt (needle text : List α) (i : Nat) : Prop := needle <+: text.drop i

instance [DecidableEq α] (needle text : List α) (i : Nat) : Decidable (OccursAt needle text i) :=
  inferInstanceAs (Decidable (needle <+: text.drop i))

/-- An occurrence is a split of the text. -/
theorem OccursAt.split {text : List α} {i : Nat} (h : OccursAt needle text i) :
    text = text.take i ++ (needle ++ text.drop (i + needle.length)) := by
  obtain ⟨rest, hrest⟩ := h
  have hdrop : text.drop (i + needle.length) = rest := by
    rw [← List.drop_drop, ← hrest, List.drop_left]
  rw [hdrop, hrest, List.take_append_drop]

theorem OccursAt.add_length_le (hne : needle ≠ []) {text : List α} {i : Nat} (h : OccursAt needle text i) :
    i + needle.length ≤ text.length := by
  have hlength : needle.length ≤ text.length - i := by
    have hle := List.IsPrefix.length_le h
    rwa [List.length_drop] at hle
  have hpos := List.length_pos_iff.mpr hne
  omega

/-- What stands in a text stands in a longer one. -/
theorem OccursAt.append_right (hne : needle ≠ []) {text : List α} {i : Nat} (h : OccursAt needle text i)
    (more : List α) : OccursAt needle (text ++ more) i := by
  have hle := h.add_length_le hne
  rw [OccursAt, List.drop_append_of_le_length (by omega)]
  exact List.IsPrefix.trans h (List.prefix_append _ _)

/-- What stands in a longer text and ends in front of what was added stands in the text. -/
theorem OccursAt.of_append {text more : List α} {i : Nat} (h : OccursAt needle (text ++ more) i)
    (hle : i + needle.length ≤ text.length) : OccursAt needle text i := by
  rw [OccursAt, List.drop_append_of_le_length (by omega)] at h
  exact List.prefix_of_prefix_length_le h (List.prefix_append _ _) (by rw [List.length_drop]; omega)

/-! ### The first position -/

variable [DecidableEq α]

/-- `text.find(needle)`, `none` for -1. -/
def strFind (needle : List α) : List α → Option Nat
  | [] => if needle = [] then some 0 else none
  | c :: text => if needle <+: c :: text then some 0 else (strFind needle text).map (· + 1)

theorem strFind_spec (hne : needle ≠ []) (text : List α) :
    match strFind needle text with
    | some i => OccursAt needle text i ∧ ∀ j < i, ¬OccursAt needle text j
    | none => ∀ j, ¬OccursAt needle text j := by
  induction text with
  | nil =>
    rw [strFind, if_neg hne]
    intro j h
    have hle := h.add_length_le hne
    have hpos := List.length_pos_iff.mpr hne
    rw [List.length_nil] at hle
    omega
  | cons c text ih =>
    rw [strFind]
    by_cases hfront : needle <+: c :: text
    · rw [if_pos hfront]
      exact ⟨hfront, fun j hj => absurd hj (by omega)⟩
    · rw [if_neg hfront]
      cases hrest : strFind needle text with
      | none =>
        rw [hrest] at ih
        intro j
        cases j with
        | zero => exact hfront
        | succ j => exact ih j
      | some i =>
        rw [hrest] at ih
        refine ⟨ih.1, fun j hj => ?_⟩
        cases j with
        | zero => exact hfront
        | succ j => exact ih.2 j (Nat.lt_of_succ_lt_succ hj)

theorem occursAt_of_strFind (hne : needle ≠ []) {text : List α} {i : Nat} (h : strFind needle text = some i) :
    OccursAt needle text i := by
  have hspec := strFind_spec hne text
  rw [h] at hspec
  exact hspec.1

theorem not_occursAt_of_strFind (hne : needle ≠ []) {text : List α} (h : strFind needle text = none) (j : Nat) :
    ¬OccursAt needle text j := by
  have hspec := strFind_spec hne text
  rw [h] at hspec
  exact hspec j

theorem strFind_eq_some (hne : needle ≠ []) {text : List α} {i : Nat} (h : OccursAt needle text i)
    (hfirst : ∀ j < i, ¬OccursAt needle text j) : strFind needle text = some i := by
  have hspec := strFind_spec hne text
  cases hfind : strFind needle text with
  | none =>
    rw [hfind] at hspec
    exact absurd h (hspec i)
  | some k =>
    rw [hfind] at hspec
    have hle : ¬k < i := fun hlt => hfirst k hlt hspec.1
    have hge : ¬i < k := fun hlt => hspec.2 i hlt h
    rw [show k = i by omega]

/-- What is found in a text is found in a longer one. -/
theorem strFind_append_left (hne : needle ≠ []) {text : List α} {i : Nat} (h : strFind needle text = some i)
    (more : List α) : strFind needle (text ++ more) = some i := by
  have hspec := strFind_spec hne text
  rw [h] at hspec
  refine strFind_eq_some hne (hspec.1.append_right hne more) fun j hj hoccurs => hspec.2 j hj ?_
  have hle := hspec.1.add_length_le hne
  exact hoccurs.of_append (by omega)

/-- Behind positions at which the needle does not stand, what is found is found in the rest. -/
theorem strFind_append_right {front text : List α}
    (h : ∀ j < front.length, ¬OccursAt needle (front ++ text) j) :
    strFind needle (front ++ text) = (strFind needle text).map (· + front.length) := by
  induction front with
  | nil => simp
  | cons c front ih =>
    have hfront : ¬needle <+: c :: (front ++ text) := h 0 (by simp)
    rw [List.cons_append, strFind, if_neg hfront, ih fun j hj => h (j + 1) (by simp; omega), Option.map_map]
    exact congrArg (fun f => Option.map f (strFind needle text)) (funext fun n => by
      show n + front.length + 1 = n + (c :: front).length
      rw [List.length_cons, Nat.add_assoc])

/-! ### Matches -/

/-- The matches in a text that begins at position `i`, of which the first `skip` characters belong to a match. -/
def matchesFrom (needle : List α) : Nat → Nat → List α → List Nat
  | _, _, [] => []
  | skip + 1, i, _ :: text => matchesFrom needle skip (i + 1) text
  | 0, i, c :: text =>
    if needle <+: c :: text then i :: matchesFrom needle (needle.length - 1) (i + 1) text
    else matchesFrom needle 0 (i + 1) text

/-- `[match.start() for match in re.finditer(re.escape(needle), text)]`. -/
def matchStarts (needle text : List α) : List Nat := matchesFrom needle 0 0 text

/-- A match is an occurrence. -/
theorem occursAt_of_mem_matchesFrom {text : List α} {skip i m : Nat} (h : m ∈ matchesFrom needle skip i text) :
    ∃ p, m = i + p ∧ OccursAt needle text p := by
  induction text generalizing skip i with
  | nil => cases h
  | cons c text ih =>
    have hlater : ∀ {skip}, m ∈ matchesFrom needle skip (i + 1) text →
        ∃ p, m = i + p ∧ OccursAt needle (c :: text) p := by
      intro skip h
      obtain ⟨p, rfl, hoccurs⟩ := ih h
      exact ⟨p + 1, by omega, hoccurs⟩
    cases skip with
    | succ skip => exact hlater h
    | zero =>
      rw [matchesFrom] at h
      split at h
      · rename_i hfront
        rcases List.mem_cons.mp h with rfl | h
        · exact ⟨0, rfl, hfront⟩
        · exact hlater h
      · exact hlater h

/-- An occurrence behind the skipped characters begins within a match. -/
theorem exists_match_of_occursAt (hne : needle ≠ []) {text : List α} {skip i p : Nat} (h : OccursAt needle text p)
    (hskip : skip ≤ p) : ∃ m ∈ matchesFrom needle skip i text, m ≤ i + p ∧ i + p < m + needle.length := by
  induction text generalizing skip i p with
  | nil =>
    have hle := h.add_length_le hne
    have hpos := List.length_pos_iff.mpr hne
    rw [List.length_nil] at hle
    omega
  | cons c text ih =>
    have hlater : ∀ {skip p}, OccursAt needle text p → skip ≤ p →
        ∃ m ∈ matchesFrom needle skip (i + 1) text, m ≤ i + (p + 1) ∧ i + (p + 1) < m + needle.length := by
      intro skip p h hskip
      obtain ⟨m, hm, hle, hlt⟩ := ih (i := i + 1) h hskip
      exact ⟨m, hm, by omega, by omega⟩
    cases skip with
    | succ skip =>
      obtain ⟨p, rfl⟩ : ∃ q, p = q + 1 := ⟨p - 1, by omega⟩
      exact hlater h (by omega)
    | zero =>
      rw [matchesFrom]
      have hpos := List.length_pos_iff.mpr hne
      split
      · by_cases hinside : p < needle.length
        · exact ⟨i, List.mem_cons_self, by omega, by omega⟩
        · obtain ⟨p, rfl⟩ : ∃ q, p = q + 1 := ⟨p - 1, by omega⟩
          have hskip : needle.length - 1 ≤ p := by omega
          obtain ⟨m, hm, hbounds⟩ := hlater h hskip
          exact ⟨m, List.mem_cons_of_mem _ hm, hbounds⟩
      · rename_i hfront
        cases p with
        | zero => exact absurd h hfront
        | succ p => exact hlater h (Nat.zero_le p)

/-- **One match.** Where there is one match, it is an occurrence, and every occurrence begins within it. -/
theorem unique_match (hne : needle ≠ []) {text : List α} {m : Nat} (h : matchStarts needle text = [m]) :
    OccursAt needle text m ∧ ∀ j, OccursAt needle text j → m ≤ j ∧ j < m + needle.length := by
  constructor
  · obtain ⟨p, hp, hoccurs⟩ := occursAt_of_mem_matchesFrom (h ▸ List.mem_singleton_self m)
    rw [Nat.zero_add] at hp
    exact hp ▸ hoccurs
  · intro j hj
    obtain ⟨k, hk, hle, hlt⟩ := exists_match_of_occursAt hne (i := 0) hj (Nat.zero_le j)
    have hkm : k ∈ matchStarts needle text := hk
    rw [h, List.mem_singleton] at hkm
    omega

end Py
