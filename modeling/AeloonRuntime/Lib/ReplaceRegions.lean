import AeloonRuntime.Lib.Find
import AeloonRuntime.Lib.Replace
import AeloonRuntime.Lib.Splice
import Mathlib.Data.List.Pairwise

/-!
# Replacing behind other replacements

A text in which some regions have been replaced is searched once more.  What was put in has no character of the text
that is searched for, so its occurrences are those of the original text that touch no region.

* `Laid` — regions within a text that do not overlap;
* `replaceFrom_at`, `replaceFrom_free` — the replaced text at a region and beside all of them;
* `Found` — the occurrences that are taken from the left;
* `exists_found` — replacing them is replacing some more regions of the original text.
-/

namespace Splice

open Py

variable {α β : Type}

/-- Regions within a text that do not overlap. -/
structure Laid (regions : List (Region α)) (length : Nat) : Prop where
  within : ∀ r ∈ regions, r.Within length
  apart : regions.Pairwise Region.Disjoint

/-- No region begins in front of the position and ends behind it. -/
def Border (regions : List (Region α)) (i : Nat) : Prop := ∀ r ∈ regions, r.stop ≤ i ∨ i ≤ r.start

section Regions

variable {regions others : List (Region α)} {r : Region α} {i length : Nat}

theorem covered_eq_true_iff : covered regions i = true ↔ ∃ r ∈ regions, r.start ≤ i ∧ i < r.stop := by
  simp [covered]

theorem covered_eq_false_iff : covered regions i = false ↔ ∀ r ∈ regions, i < r.start ∨ r.stop ≤ i := by
  rw [← Bool.not_eq_true, covered_eq_true_iff]
  push Not
  exact forall₂_congr fun r _ => by omega

/-- The regions in front of a text do not count. -/
theorem replaceFrom_congr
    (h : ∀ j, i ≤ j → insertedAt regions j = insertedAt others j ∧ covered regions j = covered others j) (text : List α) : replaceFrom regions i text = replaceFrom others i text := by
  induction text generalizing i with
  | nil => rfl
  | cons a text ih =>
    obtain ⟨hinserted, hcovered⟩ := h i (Nat.le_refl i)
    rw [replaceFrom_cons, replaceFrom_cons, hinserted, hcovered, ih fun j hj => h j (by omega)]

theorem Laid.insertedAt_eq (h : Laid regions length) (hr : r ∈ regions) : insertedAt regions r.start = r.new := by
  obtain ⟨front, back, rfl⟩ := List.append_of_mem hr
  have hstart := pairwise_start_ne (fun s hs => (h.within s hs).1) h.apart
  have hne := List.pairwise_cons.mp (List.perm_middle.pairwise_iff (fun hne => Ne.symm hne) |>.mp hstart)
  rw [insertedAt_perm List.perm_middle hstart, insertedAt_cons_self,
    insertedAt_eq_nil fun s hs => (hne.1 s hs).symm, List.append_nil]

theorem Laid.disjoint (h : Laid regions length) (hr : r ∈ regions) {s : Region α} (hs : s ∈ regions)
    (hne : r ≠ s) : r.Disjoint s :=
  have : Std.Symm (fun r s : Region α => r.Disjoint s) := ⟨fun _ _ => Region.Disjoint.symm⟩
  h.apart.forall hr hs hne

/-- Within a region nothing is left. -/
theorem Laid.replaceFrom_hidden (h : Laid regions length) (hr : r ∈ regions) (n : Nat) (hi : r.start < i)
    (hn : i + n ≤ r.stop) (text : List α) :
    replaceFrom regions i text = replaceFrom regions (i + n) (text.drop n) := by
  induction n generalizing i text with
  | zero => rfl
  | succ n ih =>
    cases text with
    | nil => rfl
    | cons a text =>
      have hcovered : covered regions i = true := covered_eq_true_iff.mpr ⟨r, hr, by omega, by omega⟩
      have hinserted : insertedAt regions i = [] := insertedAt_eq_nil fun s hs heq => by
        have hdisjoint := h.disjoint hr hs (by rintro rfl; omega)
        have hs := (h.within s hs).1
        rcases hdisjoint with hle | hle <;> omega
      rw [replaceFrom_cons, hcovered, hinserted, ih (by omega) (by omega), List.drop_succ_cons, Nat.add_assoc,
        Nat.add_comm 1]
      rfl

/-- At its start a region is replaced. -/
theorem Laid.replaceFrom_at (h : Laid regions length) (hr : r ∈ regions) {text : List α}
    (htext : r.stop - r.start ≤ text.length) :
    replaceFrom regions r.start text = r.new ++ replaceFrom regions r.stop (text.drop (r.stop - r.start)) := by
  have hwithin := (h.within r hr).1
  cases text with
  | nil =>
    rw [List.length_nil] at htext
    omega
  | cons a text =>
    have hcovered : covered regions r.start = true := covered_eq_true_iff.mpr ⟨r, hr, Nat.le_refl _, hwithin⟩
    obtain ⟨n, hn⟩ : ∃ n, r.stop = r.start + 1 + n := Nat.exists_eq_add_of_le hwithin
    have hsucc : r.stop - r.start = n + 1 := by
      omega
    rw [replaceFrom_cons, h.insertedAt_eq hr, hcovered, h.replaceFrom_hidden hr n (by omega) (by omega), hsucc,
      List.drop_succ_cons, ← hn]
    rfl

/-- Beside all regions a character stays. -/
theorem replaceFrom_free (hlt : ∀ r ∈ regions, r.start < r.stop) (hfree : covered regions i = false) (a : α)
    (text : List α) : replaceFrom regions i (a :: text) = a :: replaceFrom regions (i + 1) text := by
  have hinserted : insertedAt regions i = [] := insertedAt_eq_nil fun s hs heq => by
    have hs' := hlt s hs
    have hout := covered_eq_false_iff.mp hfree s hs
    omega
  rw [replaceFrom_cons, hinserted, hfree]
  rfl

end Regions

/-! ### Occurrences -/

section Occurrences

variable {key : α → β} {old : List β} {new : List α} {regions : List (Region α)}

/-- What stands in the replaced text stands in the original one, beside all regions. -/
theorem prefix_of_replaceFrom {i : Nat} {text : List α} (hlt : ∀ r ∈ regions, r.start < r.stop)
    (hnew : ∀ r ∈ regions, r.new ≠ [] ∧ ∀ a ∈ r.new, key a ∉ old) (hborder : Border regions i)
    (h : old <+: (replaceFrom regions i text).map key) :
    old <+: text.map key ∧ ∀ r ∈ regions, r.stop ≤ i ∨ i + old.length ≤ r.start := by
  induction old generalizing i text with
  | nil => exact ⟨List.nil_prefix, hborder⟩
  | cons b old ih =>
    cases text with
    | nil => exact absurd (List.prefix_nil.mp h) (List.cons_ne_nil b old)
    | cons a text =>
      have hstart (r : Region α) (hr : r ∈ regions) : r.start ≠ i := by
        intro heq
        obtain ⟨hne, hkeys⟩ := hnew r hr
        obtain ⟨x, more, hx⟩ : ∃ x more, insertedAt regions i = x :: more :=
          List.exists_cons_of_ne_nil fun hnil =>
            hne (List.flatMap_eq_nil_iff.mp hnil r (List.mem_filter.mpr ⟨hr, decide_eq_true heq⟩))
        have hmem : x ∈ insertedAt regions i := hx ▸ List.mem_cons_self
        obtain ⟨s, hs, hxs⟩ := List.mem_flatMap.mp hmem
        rw [replaceFrom_cons, hx, List.cons_append, List.map_cons] at h
        have hkey := (List.cons_prefix_cons.mp h).1
        exact (hnew s (List.mem_filter.mp hs).1).2 x hxs (hkey ▸ List.mem_cons_self)
      have hfree : covered regions i = false := covered_eq_false_iff.mpr fun r hr => by
        have hne := hstart r hr
        rcases hborder r hr with hle | hle <;> omega
      rw [replaceFrom_free hlt hfree, List.map_cons] at h
      obtain ⟨hb, hrest⟩ := List.cons_prefix_cons.mp h
      have hborder' : Border regions (i + 1) := fun r hr => by
        have hne := hstart r hr
        rcases hborder r hr with hle | hle <;> omega
      obtain ⟨hold, hout⟩ := ih (fun r hr => ⟨(hnew r hr).1, fun x hx hmem =>
        (hnew r hr).2 x hx (List.mem_cons_of_mem b hmem)⟩) hborder' hrest
      refine ⟨List.cons_prefix_cons.mpr ⟨hb, hold⟩, fun r hr => ?_⟩
      have hne := hstart r hr
      have hlt := hlt r hr
      rw [List.length_cons]
      rcases hborder r hr with hle | hle <;> rcases hout r hr with hle' | hle' <;> omega

/-- An occurrence that is replaced. -/
def span (old : List β) (new : List α) (i : Nat) : Region α := ⟨i, i + old.length, new⟩

@[simp] theorem span_start (i : Nat) : (span old new i).start = i := rfl
@[simp] theorem span_stop (i : Nat) : (span old new i).stop = i + old.length := rfl
@[simp] theorem span_new (i : Nat) : (span old new i).new = new := rfl

variable (old regions) in
/-- The occurrences behind a position that are taken from the left, beside some regions. -/
structure Found (text : List β) (i : Nat) (starts : List Nat) : Prop where
  stands : ∀ j ∈ starts, i ≤ j ∧ OccursAt old text j
  free : ∀ j ∈ starts, ∀ r ∈ regions, r.stop ≤ j ∨ j + old.length ≤ r.start
  apart : starts.Pairwise fun j k => j + old.length ≤ k
  first : ∀ j, i ≤ j → OccursAt old text j →
    j ∈ starts ∨ (∃ r ∈ regions, r.start < j + old.length ∧ j < r.stop) ∨ ∃ k ∈ starts, k < j ∧ j < k + old.length

variable (new) in
/-- The regions with the occurrences. -/
theorem Found.laid {text : List β} {i : Nat} {starts : List Nat} (h : Found old regions text i starts)
    (hne : old ≠ []) (hlaid : Laid regions text.length) : Laid (regions ++ starts.map (span old new)) text.length := by
  have hpos := List.length_pos_iff.mpr hne
  constructor
  · intro r hr
    rcases List.mem_append.mp hr with hr | hr
    · exact hlaid.within r hr
    · obtain ⟨j, hj, rfl⟩ := List.mem_map.mp hr
      exact ⟨Nat.lt_add_of_pos_right hpos, (h.stands j hj).2.add_length_le hne⟩
  · refine List.pairwise_append.mpr ⟨hlaid.apart, ?_, ?_⟩
    · exact List.pairwise_map.mpr (h.apart.imp fun hle => .inl hle)
    · rintro r hr s hs
      obtain ⟨j, hj, rfl⟩ := List.mem_map.mp hs
      exact h.free j hj r hr

/-- An occurrence that is taken, and those behind it. -/
theorem Found.hit {text : List β} {i : Nat} {starts : List Nat} (h : Found old regions text (i + old.length) starts)
    (hstands : OccursAt old text i) (hout : ∀ r ∈ regions, r.stop ≤ i ∨ i + old.length ≤ r.start) :
    Found old regions text i (i :: starts) := by
  refine ⟨fun j hj => ?_, fun j hj => ?_, List.pairwise_cons.mpr ⟨fun k hk => (h.stands k hk).1, h.apart⟩,
    fun j hj hoccurs => ?_⟩
  · rcases List.mem_cons.mp hj with rfl | hj
    · exact ⟨Nat.le_refl _, hstands⟩
    · obtain ⟨hle, hoccurs⟩ := h.stands j hj
      exact ⟨by omega, hoccurs⟩
  · rcases List.mem_cons.mp hj with rfl | hj
    · exact hout
    · exact h.free j hj
  · rcases Nat.lt_or_ge j (i + old.length) with hlt | hge
    · rcases Nat.eq_or_lt_of_le hj with rfl | hlt'
      · exact .inl List.mem_cons_self
      · exact .inr (.inr ⟨i, List.mem_cons_self, hlt', hlt⟩)
    · rcases h.first j hge hoccurs with hmem | hover | ⟨k, hk, hbounds⟩
      · exact .inl (List.mem_cons_of_mem i hmem)
      · exact .inr (.inl hover)
      · exact .inr (.inr ⟨k, List.mem_cons_of_mem i hk, hbounds⟩)

/-- Positions at which every occurrence touches a region are passed over. -/
theorem Found.pass {text : List β} {i i' : Nat} {starts : List Nat} (h : Found old regions text i' starts)
    (hle : i ≤ i') (hnone : ∀ j, i ≤ j → j < i' → OccursAt old text j → ∃ r ∈ regions, r.start < j + old.length ∧ j < r.stop) :
    Found old regions text i starts := by
  refine ⟨fun j hj => ?_, h.free, h.apart, fun j hj hoccurs => ?_⟩
  · obtain ⟨hle', hoccurs⟩ := h.stands j hj
    exact ⟨by omega, hoccurs⟩
  · rcases Nat.lt_or_ge j i' with hlt | hge
    · exact .inr (.inl (hnone j hj hlt hoccurs))
    · exact h.first j hge hoccurs

/-- An occurrence that has been replaced does not count behind it. -/
theorem replaceFrom_behind_span (hne : old ≠ []) {starts : List Nat} {i : Nat} (text : List α) :
    replaceFrom (regions ++ (i :: starts).map (span old new)) (i + old.length) text
      = replaceFrom (regions ++ starts.map (span old new)) (i + old.length) text := by
  have hpos := List.length_pos_iff.mpr hne
  refine replaceFrom_congr (fun j hj => ?_) text
  have hstop : (span old new i).stop ≤ j := hj
  have hstart : (span old new i).start ≠ j := by
    show i ≠ j
    omega
  constructor
  · rw [insertedAt, insertedAt, List.map_cons, List.filter_append, List.filter_append,
      List.filter_cons_of_neg (by rwa [decide_eq_true_eq])]
  · rw [covered, covered, List.map_cons, List.any_append, List.any_append, List.any_cons,
      decide_eq_false (by omega : ¬j < (span old new i).stop), Bool.and_false, Bool.false_or]

/-- An occurrence that touches no region stays as it is. -/
theorem replaceFrom_occurrence (hlt : ∀ r ∈ regions, r.start < r.stop) {i : Nat} {text : List α}
    (hstands : old <+: text.map key) (hout : ∀ r ∈ regions, r.stop ≤ i ∨ i + old.length ≤ r.start) :
    (text.take old.length).map key = old ∧ replaceFrom regions i text
      = text.take old.length ++ replaceFrom regions (i + old.length) (text.drop old.length) := by
  have hlength : (text.take old.length).length = old.length := by
    have hle := hstands.length_le
    rw [List.length_map] at hle
    rw [List.length_take, Nat.min_eq_left hle]
  refine ⟨by rw [List.map_take, ← List.prefix_iff_eq_take.mp hstands], ?_⟩
  have huntouched := replaceFrom_untouched (i := i) (text.take old.length) (text.drop old.length) fun r hr =>
    ⟨hlt r hr, hlength.symm ▸ hout r hr⟩
  rwa [List.take_append_drop, hlength] at huntouched

variable [DecidableEq β]

/-- What has none of its characters is left. -/
theorem replaceBy_notMem (hne : old ≠ []) {front : List α} (h : ∀ a ∈ front, key a ∉ old) (rest : List α) :
    replaceBy key old new 0 (front ++ rest) = front ++ replaceBy key old new 0 rest := by
  induction front with
  | nil => rfl
  | cons a front ih =>
    obtain ⟨ha, hfront⟩ := List.forall_mem_cons.mp h
    have hmiss : ¬old <+: (a :: (front ++ rest)).map key := by
      intro hstarts
      cases old with
      | nil => exact hne rfl
      | cons b tail => exact ha ((List.cons_prefix_cons.mp hstarts).1 ▸ List.mem_cons_self)
    rw [List.cons_append, replaceBy_miss hmiss, ih hfront, List.cons_append]

/-- From a border on, replacing the occurrences is replacing some more regions. -/
theorem exists_found_from (hne : old ≠ []) {text : List α} (hlaid : Laid regions text.length)
    (hnew : ∀ r ∈ regions, r.new ≠ [] ∧ ∀ a ∈ r.new, key a ∉ old) (i : Nat) (hborder : Border regions i) :
    ∃ starts, Found old regions (text.map key) i starts ∧
      replaceBy key old new 0 (replaceFrom regions i (text.drop i))
        = replaceFrom (regions ++ starts.map (span old new)) i (text.drop i) := by
  have hpos := List.length_pos_iff.mpr hne
  have hlt (r : Region α) (hr : r ∈ regions) : r.start < r.stop := (hlaid.within r hr).1
  induction hn : text.length - i using Nat.strong_induction_on generalizing i with
  | _ n ih =>
    subst hn
    by_cases hend : text.length ≤ i
    · refine ⟨[], ⟨by simp, by simp, List.Pairwise.nil, fun j hj hoccurs => ?_⟩, ?_⟩
      · have hle := hoccurs.add_length_le hne
        rw [List.length_map] at hle
        omega
      · rw [List.drop_of_length_le hend]
        rfl
    have hlaid' {starts : List Nat} {j : Nat} (h : Found old regions (text.map key) j starts) :
        Laid (regions ++ starts.map (span old new)) text.length := by
      have hall := h.laid new hne (by rwa [List.length_map])
      rwa [List.length_map] at hall
    cases hcovered : covered regions i with
    | true =>
      -- A region begins here: it has no character of the text, and the search goes on behind it.
      obtain ⟨r, hr, hstart, hstop⟩ := covered_eq_true_iff.mp hcovered
      have hi : i = r.start := by
        rcases hborder r hr with hle | hle <;> omega
      subst hi
      obtain ⟨hrlt, hrle⟩ := hlaid.within r hr
      have hlength : r.stop - r.start ≤ (text.drop r.start).length := by
        rw [List.length_drop]
        omega
      have hdrop : (text.drop r.start).drop (r.stop - r.start) = text.drop r.stop := by
        rw [List.drop_drop, show r.start + (r.stop - r.start) = r.stop by omega]
      have hbehind : Border regions r.stop := fun s hs => by
        by_cases heq : r = s
        · exact .inl (heq ▸ Nat.le_refl _)
        · rcases hlaid.disjoint hr hs heq with hle | hle <;> omega
      obtain ⟨starts, hfound, hreplaced⟩ := ih (text.length - r.stop) (by omega) r.stop hbehind rfl
      refine ⟨starts, hfound.pass (Nat.le_of_lt hrlt) fun j hj hj' _ => ⟨r, hr, by omega, hj'⟩, ?_⟩
      rw [hlaid.replaceFrom_at hr hlength, hdrop, replaceBy_notMem hne (hnew r hr).2, hreplaced,
        (hlaid' hfound).replaceFrom_at (List.mem_append_left _ hr) hlength, hdrop]
    | false =>
      by_cases hmatch : old <+: (replaceFrom regions i (text.drop i)).map key
      · -- An occurrence begins here; it touches no region, and the search goes on behind it.
        obtain ⟨hstands, hout⟩ := prefix_of_replaceFrom hlt hnew hborder hmatch
        obtain ⟨hfront, hkept⟩ := replaceFrom_occurrence hlt hstands hout
        have hdrop : (text.drop i).drop old.length = text.drop (i + old.length) := List.drop_drop
        have hlength : (span old new i).stop - (span old new i).start ≤ (text.drop i).length := by
          have hle := hstands.length_le
          rwa [span_stop, span_start, Nat.add_sub_cancel_left, ← List.length_map (f := key)]
        have hborder' : Border regions (i + old.length) := fun r hr => by
          rcases hout r hr with hle | hle <;> omega
        obtain ⟨starts, hfound, hreplaced⟩ :=
          ih (text.length - (i + old.length)) (by omega) (i + old.length) hborder' rfl
        have hhit := hfound.hit (by rwa [OccursAt, ← List.map_drop]) hout
        have hspan := (hlaid' hhit).replaceFrom_at
          (List.mem_append_right _ (List.mem_map_of_mem List.mem_cons_self)) hlength
        rw [span_stop, span_start, span_new, Nat.add_sub_cancel_left, hdrop, replaceFrom_behind_span hne] at hspan
        refine ⟨i :: starts, hhit, ?_⟩
        rw [hkept, replaceBy_hit hne hfront, hdrop, hreplaced, hspan]
      · -- The character is left; an occurrence that begins here touches a region.
        obtain ⟨a, rest, hrest⟩ : ∃ a rest, text.drop i = a :: rest :=
          List.exists_cons_of_ne_nil fun hnil => hend (List.drop_eq_nil_iff.mp hnil)
        have hbehind : rest = text.drop (i + 1) := by
          rw [← List.drop_drop, hrest, List.drop_one, List.tail_cons]
        have hborder' : Border regions (i + 1) := fun r hr => by
          have hout := covered_eq_false_iff.mp hcovered r hr
          rcases hborder r hr with hle | hle <;> omega
        obtain ⟨starts, hfound, hreplaced⟩ := ih (text.length - (i + 1)) (by omega) (i + 1) hborder' rfl
        have hmiss := hfound.pass (Nat.le_succ i) fun j hj hj' hoccurs => by
          obtain rfl : i = j := by omega
          by_contra hnone
          push Not at hnone
          rw [OccursAt, ← List.map_drop] at hoccurs
          obtain ⟨hfront, hkept⟩ := replaceFrom_occurrence hlt hoccurs fun r hr => by
            rcases Nat.lt_or_ge r.start (i + old.length) with hbefore | hbehind
            · exact .inl (hnone r hr hbefore)
            · exact .inr hbehind
          rw [hkept, List.map_append, hfront] at hmatch
          exact hmatch (List.prefix_append _ _)
        refine ⟨starts, hmiss, ?_⟩
        have hfree : covered (regions ++ starts.map (span old new)) i = false := covered_eq_false_iff.mpr fun r hr => by
          rcases List.mem_append.mp hr with hr | hr
          · exact covered_eq_false_iff.mp hcovered r hr
          · obtain ⟨j, hj, rfl⟩ := List.mem_map.mp hr
            exact .inl (hfound.stands j hj).1
        rw [hrest, replaceFrom_free hlt hcovered] at hmatch ⊢
        rw [replaceFrom_free (fun r hr => ((hlaid' hmiss).within r hr).1) hfree, replaceBy_miss hmatch, hbehind,
          hreplaced]

variable (new) in
/-- **Replacing once more.** -/
theorem exists_found (hne : old ≠ []) {text : List α} (hlaid : Laid regions text.length)
    (hnew : ∀ r ∈ regions, r.new ≠ [] ∧ ∀ a ∈ r.new, key a ∉ old) :
    ∃ starts, Found old regions (text.map key) 0 starts ∧
      replaceBy key old new 0 (replaceRegions regions text)
        = replaceRegions (regions ++ starts.map (span old new)) text :=
  exists_found_from hne hlaid hnew 0 fun _ _ => .inr (Nat.zero_le _)

end Occurrences

end Splice
