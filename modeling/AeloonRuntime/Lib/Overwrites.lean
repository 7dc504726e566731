import Mathlib.Data.List.Basic
import Mathlib.Tactic.Common

/-!
# Overwrites — the last value that is written for a key

A `dict` is filled by a list of writes; a write takes the place of an earlier one with its key.

* `assign` — one write; `lookup_foldl_assign` — a key has the last value that is written for it;
* `exists_last` — the last item of a list with a property;
* `lastValue_extra_iff` — when further writes between the writes of a list change nothing in the end.
-/

namespace Overwrites

variable {α κ ν : Type} [DecidableEq κ]

/-- `items[key] = value`. -/
def assign (key : κ) (value : ν) : List (κ × ν) → List (κ × ν)
  | [] => [(key, value)]
  | item :: items => if item.1 = key then (key, value) :: items else item :: assign key value items

/-- The last value that is written for a key. -/
def lastValue (writes : List (κ × ν)) (key : κ) : Option ν :=
  (writes.reverse.find? fun write => write.1 = key).map Prod.snd

/-! ### Writes -/

theorem lastValue_append (writes more : List (κ × ν)) (key : κ) :
    lastValue (writes ++ more) key = (lastValue more key).or (lastValue writes key) := by
  rw [lastValue, List.reverse_append, List.find?_append, Option.map_or, ← lastValue, ← lastValue]

theorem lastValue_singleton (write : κ × ν) (key : κ) :
    lastValue [write] key = if write.1 = key then some write.2 else none := by
  by_cases h : write.1 = key
  · simp [lastValue, h]
  · simp [lastValue, h]

theorem lastValue_eq_none_iff {writes : List (κ × ν)} {key : κ} :
    lastValue writes key = none ↔ ∀ write ∈ writes, write.1 ≠ key := by
  simp [lastValue]

section Lookup

variable [BEq κ] [LawfulBEq κ]

theorem lookup_cons_eq (item : κ × ν) (items : List (κ × ν)) (other : κ) :
    (item :: items).lookup other = if item.1 = other then some item.2 else items.lookup other := by
  rw [List.lookup_cons]
  by_cases h : item.1 = other
  · rw [if_pos h, beq_iff_eq.mpr h.symm]
  · rw [if_neg h, beq_eq_false_iff_ne.mpr (Ne.symm h)]

theorem lookup_assign (items : List (κ × ν)) (key : κ) (value : ν) (other : κ) :
    (assign key value items).lookup other = if key = other then some value else items.lookup other := by
  induction items with
  | nil => exact lookup_cons_eq (key, value) [] other
  | cons item items ih =>
    rw [assign, lookup_cons_eq item]
    by_cases hitem : item.1 = key
    · rw [if_pos hitem, lookup_cons_eq, hitem]
      by_cases h : key = other
      · rw [if_pos h, if_pos h]
      · rw [if_neg h, if_neg h, if_neg h]
    · rw [if_neg hitem, lookup_cons_eq, ih]
      by_cases h : key = other
      · subst h
        rw [if_pos rfl, if_pos rfl, if_neg hitem]
      · rw [if_neg h, if_neg h]

/-- A key has the last value that is written for it. -/
theorem lookup_foldl_assign (writes items : List (κ × ν)) (key : κ) :
    (writes.foldl (fun items write => assign write.1 write.2 items) items).lookup key
      = (lastValue writes key).or (items.lookup key) := by
  induction writes generalizing items with
  | nil => rfl
  | cons write writes ih =>
    rw [List.foldl_cons, ih, lookup_assign, ← List.singleton_append, lastValue_append, lastValue_singleton]
    by_cases h : write.1 = key
    · simp [h]
    · simp [h]

end Lookup

/-! ### Further writes -/

/-- The last item with a property. -/
theorem exists_last (q : α → Prop) (items : List α) :
    (∀ a ∈ items, ¬ q a) ∨ ∃ front a back, items = front ++ a :: back ∧ q a ∧ ∀ b ∈ back, ¬ q b := by
  induction items with
  | nil => exact .inl fun a ha => absurd ha List.not_mem_nil
  | cons a items ih =>
    rcases ih with hnone | ⟨front, b, back, rfl, hb, hback⟩
    · by_cases ha : q a
      · exact .inr ⟨[], a, items, rfl, ha, hnone⟩
      · exact .inl (List.forall_mem_cons.mpr ⟨ha, hnone⟩)
    · exact .inr ⟨a :: front, b, back, rfl, hb, hback⟩

section Extra

variable (own : α → κ × ν) (extra : α → Option (κ × ν))

/-- The writes of the items, each with its further one. -/
def allWrites (items : List α) : List (κ × ν) := items.flatMap fun a => own a :: (extra a).toList

/-- The item writes the key. -/
def Writes (key : κ) (a : α) : Prop := (own a).1 = key ∨ ∃ write, extra a = some write ∧ write.1 = key

variable {own extra}

omit [DecidableEq κ] in
theorem allWrites_append (front back : List α) :
    allWrites own extra (front ++ back) = allWrites own extra front ++ allWrites own extra back :=
  List.flatMap_append

omit [DecidableEq κ] in
theorem allWrites_cons (a : α) (items : List α) :
    allWrites own extra (a :: items) = own a :: (extra a).toList ++ allWrites own extra items :=
  List.flatMap_cons

/-- Where the key is not written it has no value. -/
theorem lastValue_of_not_writes {items : List α} {key : κ} (h : ∀ a ∈ items, ¬ Writes own extra key a) :
    lastValue (allWrites own extra items) key = none ∧ lastValue (items.map own) key = none := by
  constructor
  · rw [lastValue_eq_none_iff]
    intro write hwrite heq
    obtain ⟨a, ha, hmem⟩ := List.mem_flatMap.mp hwrite
    rcases List.mem_cons.mp hmem with rfl | hmem
    · exact h a ha (.inl heq)
    · exact h a ha (.inr ⟨write, Option.mem_toList.mp hmem, heq⟩)
  · rw [lastValue_eq_none_iff, List.forall_mem_map]
    exact fun a ha heq => h a ha (.inl heq)

/-- Further writes for other keys do not count. -/
theorem lastValue_of_no_extra {items : List α} {key : κ}
    (h : ∀ a ∈ items, ¬ ∃ write, extra a = some write ∧ write.1 = key) :
    lastValue (allWrites own extra items) key = lastValue (items.map own) key := by
  induction items with
  | nil => rfl
  | cons a items ih =>
    obtain ⟨ha, hitems⟩ := List.forall_mem_cons.mp h
    have hextra : lastValue (extra a).toList key = none := by
      rw [lastValue_eq_none_iff]
      exact fun write hwrite heq => ha ⟨write, Option.mem_toList.mp hwrite, heq⟩
    have hhere : allWrites own extra (a :: items) = [own a] ++ (extra a).toList ++ allWrites own extra items :=
      allWrites_cons a items
    have hown : (a :: items).map own = [own a] ++ items.map own := rfl
    rw [hhere, hown, lastValue_append, lastValue_append, lastValue_append, hextra, Option.none_or, ih hitems]

/-- **Further writes.** They change nothing in the end exactly when each one for whose key nothing is written behind
it repeats the value that the key has already. -/
theorem lastValue_extra_iff (items : List α) :
    (∀ key, lastValue (allWrites own extra items) key = lastValue (items.map own) key)
      ↔ ∀ front a back, items = front ++ a :: back → ∀ write, extra a = some write →
        (∃ b ∈ back, Writes own extra write.1 b)
          ∨ lastValue ((front ++ [a]).map own) write.1 = some write.2 := by
  constructor
  · rintro h front a back rfl write hwrite
    by_cases hback : ∃ b ∈ back, Writes own extra write.1 b
    · exact .inl hback
    refine .inr ?_
    have hnone := lastValue_of_not_writes fun b hb hwrites => hback ⟨b, hb, hwrites⟩
    have hlast := h write.1
    have hhere : allWrites own extra [a] = [own a] ++ [write] := by
      simp [allWrites, hwrite]
    rw [← List.singleton_append, ← List.append_assoc, allWrites_append, List.map_append, lastValue_append,
      lastValue_append, hnone.1, hnone.2, Option.none_or, Option.none_or, allWrites_append, hhere,
      ← List.append_assoc, lastValue_append, lastValue_singleton, if_pos rfl, Option.some_or] at hlast
    exact hlast.symm
  · intro h key
    rcases exists_last (fun a => ∃ write, extra a = some write ∧ write.1 = key) items with
      hnone | ⟨front, a, back, rfl, ⟨write, hwrite, rfl⟩, hback⟩
    · exact lastValue_of_no_extra hnone
    · have hhere : allWrites own extra [a] = [own a] ++ [write] := by
        simp [allWrites, hwrite]
      have hlast : lastValue (allWrites own extra (front ++ [a])) write.1 = some write.2 := by
        rw [allWrites_append, hhere, ← List.append_assoc, lastValue_append, lastValue_singleton, if_pos rfl,
          Option.some_or]
      rw [← List.singleton_append, ← List.append_assoc, allWrites_append, List.map_append, lastValue_append,
        lastValue_append, lastValue_of_no_extra hback, hlast]
      cases hrest : lastValue (back.map own) write.1 with
      | some value => rw [Option.some_or, Option.some_or]
      | none =>
        have hown := lastValue_eq_none_iff.mp hrest
        rcases h front a back rfl write hwrite with ⟨b, hb, hkey | hextra⟩ | hvalue
        · exact absurd hkey (hown _ (List.mem_map_of_mem hb))
        · exact absurd hextra (hback b hb)
        · rw [Option.none_or, Option.none_or, hvalue]

end Extra

end Overwrites
