import Mathlib.Data.List.Basic
import Mathlib.Tactic.Common

/-!
# Sorted rows — a table that is read in an order

A table holds its rows in no particular order, a query sorts them.  What an update of the rows does to the
sorted list is said here once, for any comparison that tells any two of the rows apart.

* `Comparison` — a transitive and total comparison;
* `Distinct` — the rows that it tells apart;
* `Comparison.sort_eq` — a list in order that has the rows is the sorted list;
* `Comparison.sort_filter`, `sort_map`, `sort_cons` — rows that are selected, rewritten, or added in front.
-/

namespace SortedRows

variable {α : Type} {le : α → α → Bool} {rows listed : List α}

/-- A comparison to sort with. -/
structure Comparison (le : α → α → Bool) : Prop where
  trans : ∀ a b c, le a b → le b c → le a c
  total : ∀ a b, le a b || le b a

/-- No two rows are level. -/
def Distinct (le : α → α → Bool) (rows : List α) : Prop := ∀ a ∈ rows, ∀ b ∈ rows, le a b → le b a → a = b

theorem Distinct.filter (h : Distinct le rows) (p : α → Bool) : Distinct le (rows.filter p) := by
  intro a ha b hb hab hba
  exact h a (List.mem_of_mem_filter ha) b (List.mem_of_mem_filter hb) hab hba

namespace Comparison

variable (h : Comparison le)
include h

theorem pairwise_sort (rows : List α) : (rows.mergeSort le).Pairwise fun a b => le a b :=
  List.pairwise_mergeSort h.trans h.total rows

/-- **Sorting.** A list in order with the same rows is the sorted list. -/
theorem sort_eq (hrows : Distinct le rows) (hperm : listed.Perm rows) (hsorted : listed.Pairwise fun a b => le a b) :
    rows.mergeSort le = listed := by
  refine List.Perm.eq_of_pairwise ?_ (h.pairwise_sort rows) hsorted ((List.mergeSort_perm rows le).trans hperm.symm)
  intro a b ha hb hab hba
  exact hrows a (List.mem_mergeSort.mp ha) b (hperm.mem_iff.mp hb) hab hba

/-- Rows that are selected. -/
theorem sort_filter (hrows : Distinct le rows) (p : α → Bool) :
    (rows.filter p).mergeSort le = (rows.mergeSort le).filter p :=
  h.sort_eq (hrows.filter p) ((List.mergeSort_perm rows le).filter p)
    ((h.pairwise_sort rows).sublist List.filter_sublist)

/-- Rows that are rewritten in a way that keeps their order. -/
theorem sort_map {f : α → α} (hrows : Distinct le (rows.map f))
    (hf : ∀ a ∈ rows, ∀ b ∈ rows, le a b → le (f a) (f b)) :
    (rows.map f).mergeSort le = (rows.mergeSort le).map f := by
  refine h.sort_eq hrows ((List.mergeSort_perm rows le).map f) (List.pairwise_map.mpr ?_)
  refine (h.pairwise_sort rows).imp_of_mem ?_
  intro a b ha hb hab
  exact hf a (List.mem_mergeSort.mp ha) b (List.mem_mergeSort.mp hb) hab

/-- A row that is added in front of the others. -/
theorem sort_cons {row : α} (hrows : Distinct le (rows ++ [row])) (hfirst : ∀ a ∈ rows, le row a) :
    (rows ++ [row]).mergeSort le = row :: rows.mergeSort le := by
  refine h.sort_eq hrows ?_ (List.pairwise_cons.mpr ⟨?_, h.pairwise_sort rows⟩)
  · exact ((List.mergeSort_perm rows le).cons row).trans (List.perm_append_singleton row rows).symm
  · intro a ha
    exact hfirst a (List.mem_mergeSort.mp ha)

end Comparison

end SortedRows
