import Mathlib.Data.List.Forall2
import Mathlib.Tactic.Common

/-!
# Splicing — regions of a list that are replaced

* `Region` — where a region begins and ends, and what is put in its place;
* `replaceFrom`, `replaceRegions` — all regions replaced at once, seen from every position;
* `applyBack` — the regions replaced one after the other, the last one first;
* `applyBack_eq_replaceRegions` — the same, for regions in order that do not overlap;
* `replaceRegions_perm` — the order in which the regions are given does not count;
* `replaceFrom_eq_iff` — two lists of one length are the same behind the replacement exactly if they are the same
  at every position that no region covers.
-/

namespace Splice

variable {α β : Type}

/-- A region, and what stands there afterwards. -/
structure Region (α : Type) where
  start : Nat
  stop : Nat
  new : List α
  deriving DecidableEq

/-- A region that is not empty and ends within a length. -/
def Region.Within (r : Region α) (length : Nat) : Prop := r.start < r.stop ∧ r.stop ≤ length

/-- Two regions that have no position in common. -/
def Region.Disjoint (r s : Region α) : Prop := r.stop ≤ s.start ∨ s.stop ≤ r.start

theorem Region.Disjoint.symm {r s : Region α} (h : r.Disjoint s) : s.Disjoint r := Or.symm h

/-- A position lies in a region. -/
def covered (regions : List (Region α)) (i : Nat) : Bool := regions.any fun r => r.start ≤ i && i < r.stop

/-- What is put in front of a position. -/
def insertedAt (regions : List (Region α)) (i : Nat) : List α :=
  (regions.filter fun r => r.start = i).flatMap Region.new

/-- A text whose first position is `i`, with all regions replaced at once. -/
def replaceFrom (regions : List (Region α)) : Nat → List α → List α
  | _, [] => []
  | i, a :: text =>
    insertedAt regions i ++ ((if covered regions i then [] else [a]) ++ replaceFrom regions (i + 1) text)

/-- A text with all regions replaced at once. -/
def replaceRegions (regions : List (Region α)) (text : List α) : List α := replaceFrom regions 0 text

/-- A text with one region replaced. -/
def Region.apply (r : Region α) (text : List α) : List α := text.take r.start ++ r.new ++ text.drop r.stop

/-- A text with the regions replaced one after the other, the last one first. -/
def applyBack (ordered : List (Region α)) (text : List α) : List α := ordered.foldr Region.apply text

/-! ### Positions -/

section Positions

variable {r : Region α} {regions : List (Region α)} {i : Nat}

theorem covered_cons : covered (r :: regions) i = (decide (r.start ≤ i) && decide (i < r.stop) || covered regions i) :=
  rfl

theorem insertedAt_cons_of_ne (h : r.start ≠ i) : insertedAt (r :: regions) i = insertedAt regions i := by
  simp [insertedAt, h]

theorem insertedAt_cons_self : insertedAt (r :: regions) r.start = r.new ++ insertedAt regions r.start := by
  simp [insertedAt]

theorem insertedAt_eq_nil (h : ∀ s ∈ regions, s.start ≠ i) : insertedAt regions i = [] := by
  rw [insertedAt, List.filter_eq_nil_iff.mpr (by simpa using h)]
  rfl

theorem covered_eq_false (h : ∀ s ∈ regions, i < s.start ∨ s.stop ≤ i) : covered regions i = false := by
  rw [covered, List.any_eq_false]
  intro s hs
  have hout := h s hs
  simp only [Bool.and_eq_true, decide_eq_true_eq]
  omega

theorem replaceFrom_cons (a : α) (text : List α) : replaceFrom regions i (a :: text) =
    insertedAt regions i ++ ((if covered regions i then [] else [a]) ++ replaceFrom regions (i + 1) text) := rfl

/-- Positions that no region touches stay as they are. -/
theorem replaceFrom_untouched (front text : List α)
    (h : ∀ s ∈ regions, s.start < s.stop ∧ (s.stop ≤ i ∨ i + front.length ≤ s.start)) :
    replaceFrom regions i (front ++ text) = front ++ replaceFrom regions (i + front.length) text := by
  induction front generalizing i with
  | nil => rfl
  | cons a front ih =>
    have hnone : insertedAt regions i = [] := insertedAt_eq_nil fun s hs => by
      obtain ⟨hlt, hout⟩ := h s hs
      rw [List.length_cons] at hout
      omega
    have hout : covered regions i = false := covered_eq_false fun s hs => by
      obtain ⟨hlt, hout⟩ := h s hs
      rw [List.length_cons] at hout
      omega
    rw [List.cons_append, replaceFrom_cons, hnone, hout, ih fun s hs => ?_]
    · rw [List.length_cons, Nat.add_assoc, Nat.add_comm 1]
      rfl
    · obtain ⟨hlt, hout⟩ := h s hs
      rw [List.length_cons] at hout
      omega

/-- Behind a region, the others are left. -/
theorem replaceFrom_behind (hr : r.start < r.stop) (hi : r.stop ≤ i) (text : List α) :
    replaceFrom (r :: regions) i text = replaceFrom regions i text := by
  induction text generalizing i with
  | nil => rfl
  | cons a text ih =>
    have hcovered : covered (r :: regions) i = covered regions i := by
      rw [covered_cons, decide_eq_false (by omega : ¬i < r.stop), Bool.and_false, Bool.false_or]
    rw [replaceFrom_cons, replaceFrom_cons, insertedAt_cons_of_ne (by omega), hcovered, ih (by omega)]

/-- Within a region, nothing is left. -/
theorem replaceFrom_inside (old text : List α) (hstart : r.start < i) (hstop : i + old.length ≤ r.stop)
    (hrest : ∀ s ∈ regions, r.stop ≤ s.start) :
    replaceFrom (r :: regions) i (old ++ text) = replaceFrom (r :: regions) (i + old.length) text := by
  induction old generalizing i with
  | nil => rfl
  | cons a old ih =>
    rw [List.length_cons] at hstop
    have hnone : insertedAt (r :: regions) i = [] := by
      rw [insertedAt_cons_of_ne (by omega)]
      refine insertedAt_eq_nil fun s hs => ?_
      have hlater := hrest s hs
      omega
    have hin : covered (r :: regions) i = true := by
      rw [covered_cons, decide_eq_true (by omega : r.start ≤ i), decide_eq_true (by omega : i < r.stop)]
      rfl
    rw [List.cons_append, replaceFrom_cons, hnone, hin, ih (by omega) (by omega), List.length_cons, Nat.add_assoc,
      Nat.add_comm 1]
    rfl

/-- A region is replaced. -/
theorem replaceFrom_region (old text : List α) (hr : r.start < r.stop) (hold : r.start + old.length = r.stop)
    (hrest : ∀ s ∈ regions, r.stop ≤ s.start) :
    replaceFrom (r :: regions) r.start (old ++ text) = r.new ++ replaceFrom regions r.stop text := by
  cases old with
  | nil =>
    rw [List.length_nil] at hold
    omega
  | cons a old =>
    rw [List.length_cons] at hold
    have hnone : insertedAt regions r.start = [] := insertedAt_eq_nil fun s hs => by
      have hlater := hrest s hs
      omega
    have hin : covered (r :: regions) r.start = true := by
      rw [covered_cons, decide_eq_true (Nat.le_refl r.start), decide_eq_true hr]
      rfl
    rw [List.cons_append, replaceFrom_cons, insertedAt_cons_self, hnone, hin,
      replaceFrom_inside old text (by omega) (by omega) hrest,
      show r.start + 1 + old.length = r.stop by omega, replaceFrom_behind hr (Nat.le_refl _), List.append_nil]
    rfl

end Positions

/-! ### One after the other -/

section Back

variable {regions ordered : List (Region α)} {text : List α}

theorem replaceFrom_nil_regions (i : Nat) (text : List α) : replaceFrom [] i text = text := by
  induction text generalizing i with
  | nil => rfl
  | cons a text ih =>
    rw [replaceFrom_cons, ih]
    rfl

/-- **Back to front.** Regions in order that do not overlap may be replaced one after the other, the last one
    first. -/
theorem applyBack_eq_replaceRegions (hwithin : ∀ r ∈ ordered, r.Within text.length)
    (hordered : ordered.Pairwise fun r s => r.stop ≤ s.start) :
    applyBack ordered text = replaceRegions ordered text := by
  induction ordered with
  | nil => exact (replaceFrom_nil_regions 0 text).symm
  | cons r regions ih =>
    obtain ⟨hfirst, hordered⟩ := List.pairwise_cons.mp hordered
    obtain ⟨hr, hstop⟩ := hwithin r (by simp)
    have hwithin' : ∀ s ∈ regions, s.Within text.length := fun s hs => hwithin s (by simp [hs])
    have hfront : (text.take r.stop).length = r.stop := by
      rw [List.length_take]
      omega
    have hrest : replaceRegions regions text
        = text.take r.stop ++ replaceFrom regions r.stop (text.drop r.stop) := by
      have huntouched := replaceFrom_untouched (i := 0) (text.take r.stop) (text.drop r.stop) fun s hs =>
        ⟨(hwithin' s hs).1, .inr (by rw [hfront]; have hlater := hfirst s hs; omega)⟩
      rwa [List.take_append_drop, hfront, Nat.zero_add] at huntouched
    have happly : r.apply (replaceRegions regions text)
        = text.take r.start ++ (r.new ++ replaceFrom regions r.stop (text.drop r.stop)) := by
      rw [hrest, Region.apply, List.take_append_of_le_length (by omega), List.take_take, Nat.min_eq_left (Nat.le_of_lt hr),
        List.drop_append_of_le_length (by omega), List.drop_of_length_le (by omega), List.nil_append,
        List.append_assoc]
    have hsplit : text = text.take r.start ++ ((text.drop r.start).take (r.stop - r.start) ++ text.drop r.stop) := by
      have hdrop : text.drop r.stop = (text.drop r.start).drop (r.stop - r.start) := by
        rw [List.drop_drop, show r.start + (r.stop - r.start) = r.stop by omega]
      rw [hdrop, List.take_append_drop, List.take_append_drop]
    have hstart : (text.take r.start).length = r.start := by
      rw [List.length_take]
      omega
    have hold : r.start + ((text.drop r.start).take (r.stop - r.start)).length = r.stop := by
      rw [List.length_take, List.length_drop]
      omega
    have hall : replaceRegions (r :: regions) text
        = text.take r.start ++ (r.new ++ replaceFrom regions r.stop (text.drop r.stop)) := by
      rw [replaceRegions]
      conv_lhs => rw [hsplit]
      rw [replaceFrom_untouched, hstart, Nat.zero_add, replaceFrom_region _ _ hr hold hfirst]
      intro s hs
      rcases List.mem_cons.mp hs with rfl | hlater
      · exact ⟨hr, .inr (by omega)⟩
      · have hafter := hfirst s hlater
        exact ⟨(hwithin' s hlater).1, .inr (by omega)⟩
    rw [applyBack, List.foldr_cons, ← applyBack, ih hwithin' hordered, happly, hall]

end Back

/-! ### The order -/

section Order

variable {regions others : List (Region α)}

/-- Disjoint regions that are not empty begin at different positions. -/
theorem pairwise_start_ne (hne : ∀ r ∈ regions, r.start < r.stop) (h : regions.Pairwise Region.Disjoint) :
    regions.Pairwise fun r s => r.start ≠ s.start := by
  refine List.Pairwise.imp_of_mem ?_ h
  intro r s hr hs hdisjoint
  have hr := hne r hr
  have hs := hne s hs
  rcases hdisjoint with hfirst | hsecond <;> omega

theorem insertedAt_perm (hperm : regions.Perm others) (h : regions.Pairwise fun r s => r.start ≠ s.start) (i : Nat) :
    insertedAt regions i = insertedAt others i := by
  have hfilter := hperm.filter fun r => decide (r.start = i)
  have hpairwise := h.filter fun r => decide (r.start = i)
  have hstart : ∀ r ∈ regions.filter fun r => decide (r.start = i), r.start = i := fun r hr => by
    simpa using (List.mem_filter.mp hr).2
  rw [insertedAt, insertedAt]
  generalize (regions.filter fun r => decide (r.start = i)) = found at hfilter hpairwise hstart
  rcases found with _ | ⟨r, _ | ⟨s, found⟩⟩
  · rw [List.nil_perm.mp hfilter]
  · rw [List.singleton_perm.mp hfilter]
  · have hne := List.rel_of_pairwise_cons hpairwise List.mem_cons_self
    rw [hstart r (by simp), hstart s (by simp)] at hne
    exact absurd rfl hne

theorem covered_perm (hperm : regions.Perm others) (i : Nat) : covered regions i = covered others i := by
  rw [Bool.eq_iff_iff, covered, covered, List.any_eq_true, List.any_eq_true]
  exact ⟨fun ⟨r, hr, hin⟩ => ⟨r, hperm.mem_iff.mp hr, hin⟩, fun ⟨r, hr, hin⟩ => ⟨r, hperm.mem_iff.mpr hr, hin⟩⟩

/-- **Order.** Disjoint regions that are not empty may be given in any order. -/
theorem replaceRegions_perm (hperm : regions.Perm others) (hne : ∀ r ∈ regions, r.start < r.stop)
    (h : regions.Pairwise Region.Disjoint) (text : List α) :
    replaceRegions regions text = replaceRegions others text := by
  have hstart := pairwise_start_ne hne h
  suffices hall : ∀ i, replaceFrom regions i text = replaceFrom others i text from hall 0
  induction text with
  | nil => exact fun _ => rfl
  | cons a text ih =>
    intro i
    rw [replaceFrom_cons, replaceFrom_cons, insertedAt_perm hperm hstart, covered_perm hperm, ih]

end Order

/-! ### Two texts -/

section Two

variable {regions : List (Region α)}

/-- A region with what is put in its place mapped. -/
def Region.map (f : α → β) (r : Region α) : Region β := { start := r.start, stop := r.stop, new := r.new.map f }

theorem insertedAt_map (f : α → β) (regions : List (Region α)) (i : Nat) :
    insertedAt (regions.map (Region.map f)) i = (insertedAt regions i).map f := by
  induction regions with
  | nil => rfl
  | cons r regions ih =>
    by_cases h : r.start = i
    · subst h
      have hself : (r.map f).start = r.start := rfl
      rw [List.map_cons, ← hself, insertedAt_cons_self, hself, ih, insertedAt_cons_self, List.map_append]
      rfl
    · rw [List.map_cons, insertedAt_cons_of_ne (by exact h), insertedAt_cons_of_ne h, ih]

theorem covered_map (f : α → β) (regions : List (Region α)) (i : Nat) :
    covered (regions.map (Region.map f)) i = covered regions i := by
  rw [covered, covered, List.any_map]
  rfl

/-- Mapping goes through the replacement. -/
theorem replaceFrom_map (f : α → β) (regions : List (Region α)) (i : Nat) (text : List α) :
    replaceFrom (regions.map (Region.map f)) i (text.map f) = (replaceFrom regions i text).map f := by
  induction text generalizing i with
  | nil => rfl
  | cons a text ih =>
    rw [List.map_cons, replaceFrom_cons, replaceFrom_cons, insertedAt_map, covered_map, ih, List.map_append,
      List.map_append]
    split <;> rfl

/-- **Kept positions.** Two texts of one length are the same behind the replacement exactly if they are the same
    at every position that no region covers. -/
theorem replaceFrom_eq_iff {i : Nat} {text other : List α} (hlength : text.length = other.length) :
    replaceFrom regions i text = replaceFrom regions i other
      ↔ ∀ j a, text[j]? = some a → covered regions (i + j) = false → other[j]? = some a := by
  induction text generalizing i other with
  | nil =>
    obtain rfl := List.length_eq_zero_iff.mp hlength.symm
    simp
  | cons a text ih =>
    obtain ⟨b, other, rfl⟩ := List.exists_cons_of_length_pos (by rw [← hlength]; simp)
    have ih := ih (i := i + 1) (Nat.succ.inj hlength)
    rw [replaceFrom_cons, replaceFrom_cons, List.append_cancel_left_eq]
    constructor
    · intro heq j c hc hout
      by_cases hin : covered regions i = true
      · rw [if_pos hin, if_pos hin] at heq
        cases j with
        | zero =>
          rw [Nat.add_zero, hin] at hout
          cases hout
        | succ j => exact ih.mp heq j c hc (by rwa [Nat.add_right_comm i 1 j])
      · rw [if_neg hin, if_neg hin] at heq
        obtain ⟨hab, heq⟩ := List.cons_eq_cons.mp heq
        cases j with
        | zero =>
          rw [← hab]
          exact hc
        | succ j => exact ih.mp heq j c hc (by rwa [Nat.add_right_comm i 1 j])
    · intro hall
      have hrest : replaceFrom regions (i + 1) text = replaceFrom regions (i + 1) other :=
        ih.mpr fun j c hc hout => hall (j + 1) c hc (by rwa [Nat.add_right_comm i 1 j] at hout)
      by_cases hin : covered regions i = true
      · rw [if_pos hin, if_pos hin, hrest]
      · have hfirst := hall 0 a rfl (by simpa using hin)
        rw [if_neg hin, if_neg hin, hrest, Option.some.inj hfirst]

/-- A relation between two texts, position by position, goes through the replacement. -/
theorem forall₂_replaceFrom {R : α → α → Prop} (hrefl : ∀ a, R a a) {i : Nat} {text other : List α}
    (h : List.Forall₂ R text other) : List.Forall₂ R (replaceFrom regions i text) (replaceFrom regions i other) := by
  induction h generalizing i with
  | nil => exact .nil
  | cons hab hrest ih =>
    rw [replaceFrom_cons, replaceFrom_cons]
    refine List.rel_append (List.forall₂_same.mpr fun a _ => hrefl a) (List.rel_append ?_ ih)
    split
    · exact .nil
    · exact .cons hab .nil

/-- Pieces of which none is longer than its counterpart, and that are the same when put together, are the
    same. -/
theorem eq_of_flatten_eq {pieces others : List (List α)}
    (h : List.Forall₂ (fun piece other => piece.length ≤ other.length) pieces others)
    (heq : pieces.flatten = others.flatten) : pieces = others := by
  have hle : ∀ {pieces others : List (List α)},
      List.Forall₂ (fun piece other => piece.length ≤ other.length) pieces others →
      pieces.flatten.length ≤ others.flatten.length := by
    intro pieces others h
    induction h with
    | nil => exact Nat.le_refl _
    | cons hab _ ih =>
      rw [List.flatten_cons, List.flatten_cons, List.length_append, List.length_append]
      omega
  induction h with
  | nil => rfl
  | cons hab hrest ih =>
    rw [List.flatten_cons, List.flatten_cons] at heq
    have hlength := congrArg List.length heq
    have hlater := hle hrest
    rw [List.length_append, List.length_append] at hlength
    obtain ⟨hfirst, hflatten⟩ := List.append_inj heq (by omega)
    rw [hfirst, ih hflatten]

end Two

end Splice
