import Mathlib.Data.List.Nodup
import Mathlib.Tactic.Common

/-!
# Keyed — values that grow under their keys

A `dict` as the list of its items, filled by deltas that each name the key they belong to.

* `at?`, `set` — `d.get(key)` and `d[key] = value`;
* `grow` — the value of a key behind a delta, computed from the one before it;
* `at?_foldl_grow` — the value of a key is made of the deltas of that key, in their order, and of no others;
* `sorted_eq_map` — in the order of their keys, the items are the values of the keys.
-/

namespace Keyed

variable {κ α β : Type} [DecidableEq κ]

/-- `d.get(key)`. -/
def at? (items : List (κ × α)) (key : κ) : Option α := (items.find? fun item => item.1 = key).map Prod.snd

/-- `d[key] = value`. -/
def set (items : List (κ × α)) (key : κ) (value : α) : List (κ × α) :=
  if items.any (·.1 = key) then items.map fun item => if item.1 = key then (key, value) else item
  else items ++ [(key, value)]

/-- The items behind a delta. -/
def grow (f : Option α → β → α) (items : List (κ × α)) (delta : κ × β) : List (κ × α) :=
  set items delta.1 (f (at? items delta.1) delta.2)

section Lookup

variable {items : List (κ × α)}

@[simp] theorem at?_nil (key : κ) : at? ([] : List (κ × α)) key = none := rfl

theorem at?_cons (item : κ × α) (items : List (κ × α)) (key : κ) :
    at? (item :: items) key = if item.1 = key then some item.2 else at? items key := by
  rw [at?, List.find?_cons]
  by_cases h : item.1 = key
  · rw [decide_eq_true h, if_pos h]
    rfl
  · rw [decide_eq_false h, if_neg h]
    rfl

theorem at?_eq_none_iff {key : κ} : at? items key = none ↔ key ∉ items.map Prod.fst := by
  induction items with
  | nil => simp
  | cons item items ih =>
    rw [at?_cons, List.map_cons, List.mem_cons]
    split
    · rename_i h
      simp [h]
    · rename_i h
      rw [ih]
      simp [Ne.symm h]

/-- Where a key is in the items once, an item is what is under its key. -/
theorem mem_iff_at? (h : (items.map Prod.fst).Nodup) {item : κ × α} :
    item ∈ items ↔ at? items item.1 = some item.2 := by
  induction items with
  | nil => simp
  | cons other items ih =>
    obtain ⟨hfirst, hrest⟩ := List.nodup_cons.mp h
    rw [at?_cons, List.mem_cons]
    split
    · rename_i hkey
      have hout : item ∉ items := fun hmem => hfirst (hkey ▸ List.mem_map_of_mem hmem)
      rw [or_iff_left hout, Option.some.injEq]
      constructor
      · rintro rfl
        rfl
      · exact fun hvalue => Prod.ext hkey.symm hvalue.symm
    · rename_i hkey
      rw [← ih hrest]
      refine or_iff_right ?_
      rintro rfl
      exact hkey rfl

end Lookup

section Set

variable {items : List (κ × α)} {key : κ}

theorem any_key_iff : items.any (·.1 = key) = true ↔ key ∈ items.map Prod.fst := by
  simp [List.mem_map]

theorem at?_set (items : List (κ × α)) (key other : κ) (value : α) :
    at? (set items key value) other = if other = key then some value else at? items other := by
  rw [set]
  split
  · rename_i hin
    replace hin := any_key_iff.mp hin
    induction items with
    | nil => cases hin
    | cons item items ih =>
      rw [List.map_cons, at?_cons, at?_cons]
      by_cases hitem : item.1 = key
      · rw [if_pos hitem]
        by_cases hother : other = key
        · simp [hother]
        · -- behind the item, the map changes what is under `key` only
          have hsame : ∀ rest : List (κ × α),
              at? (rest.map fun item => if item.1 = key then (key, value) else item) other = at? rest other := by
            intro rest
            induction rest with
            | nil => rfl
            | cons next rest ihrest =>
              rw [List.map_cons, at?_cons, at?_cons, ihrest]
              by_cases hnext : next.1 = key
              · simp [hnext, Ne.symm hother]
              · simp [hnext]
          simp [hitem, Ne.symm hother, hother, hsame]
      · have htail : key ∈ items.map Prod.fst := by
          rcases List.mem_cons.mp hin with h | h
          · exact absurd h.symm hitem
          · exact h
        rw [if_neg hitem, ih htail]
        by_cases hother : item.1 = other
        · have hne : other ≠ key := fun h => hitem (hother.trans h)
          simp [hother, hne]
        · simp [hother]
  · rename_i hout
    replace hout : key ∉ items.map Prod.fst := fun h => hout (any_key_iff.mpr h)
    induction items with
    | nil =>
      rw [List.nil_append, at?_cons]
      exact if_congr eq_comm rfl rfl
    | cons item items ih =>
      obtain ⟨hitem, hrest⟩ := not_or.mp (mt List.mem_cons.mpr hout)
      rw [List.cons_append, at?_cons, at?_cons, ih hrest]
      by_cases hother : item.1 = other
      · have hne : other ≠ key := fun h => hitem (h.symm.trans hother.symm)
        simp [hother, hne]
      · simp [hother]

/-- A new key comes last. -/
theorem keys_set (items : List (κ × α)) (key : κ) (value : α) :
    (set items key value).map Prod.fst
      = if key ∈ items.map Prod.fst then items.map Prod.fst else items.map Prod.fst ++ [key] := by
  rw [set]
  by_cases h : key ∈ items.map Prod.fst
  · rw [if_pos (any_key_iff.mpr h), if_pos h, List.map_map]
    refine List.map_congr_left fun item _ => ?_
    by_cases hitem : item.1 = key
    · simp [hitem]
    · simp [hitem]
  · rw [if_neg (mt any_key_iff.mp h), if_neg h, List.map_append]
    rfl

theorem nodup_set (h : (items.map Prod.fst).Nodup) (value : α) : ((set items key value).map Prod.fst).Nodup := by
  rw [keys_set]
  split
  · exact h
  · rename_i hout
    rw [List.nodup_append]
    refine ⟨h, by simp, ?_⟩
    rintro a ha b hb rfl
    exact hout (List.mem_singleton.mp hb ▸ ha)

end Set

/-! ### Deltas -/

section Grow

variable {f : Option α → β → α}

/-- The deltas of a key. -/
def deltasAt (deltas : List (κ × β)) (key : κ) : List β :=
  deltas.filterMap fun delta => if delta.1 = key then some delta.2 else none

theorem deltasAt_eq_nil_iff {deltas : List (κ × β)} {key : κ} :
    deltasAt deltas key = [] ↔ key ∉ deltas.map Prod.fst := by
  rw [deltasAt, List.filterMap_eq_nil_iff, List.mem_map, not_exists]
  refine forall_congr' fun delta => ?_
  by_cases h : delta.1 = key <;> simp [h]

/-- **One key.** What is under a key behind all deltas is made of its own. -/
theorem at?_foldl_grow (items : List (κ × α)) (deltas : List (κ × β)) (key : κ) :
    at? (deltas.foldl (grow f) items) key
      = (deltasAt deltas key).foldl (fun value delta => some (f value delta)) (at? items key) := by
  induction deltas generalizing items with
  | nil => rfl
  | cons delta deltas ih =>
    rw [List.foldl_cons, ih, grow, at?_set]
    by_cases h : delta.1 = key
    · simp [deltasAt, h]
    · simp [deltasAt, h, Ne.symm h]

theorem nodup_foldl_grow {items : List (κ × α)} (h : (items.map Prod.fst).Nodup) (deltas : List (κ × β)) :
    ((deltas.foldl (grow f) items).map Prod.fst).Nodup := by
  induction deltas generalizing items with
  | nil => exact h
  | cons delta deltas ih => exact ih (nodup_set h _)

end Grow

/-! ### The order of the keys -/

section Sorted

variable {le : κ → κ → Bool} {items : List (κ × α)} {keys : List κ}

/-- What is under the keys, item by item. -/
theorem at?_map_keys (keys : List κ) (value : κ → α) (key : κ) :
    at? (keys.map fun key => (key, value key)) key = if key ∈ keys then some (value key) else none := by
  induction keys with
  | nil => rfl
  | cons first keys ih =>
    rw [List.map_cons, at?_cons, ih]
    by_cases h : first = key
    · simp [h]
    · simp [h, Ne.symm h]

/-- **Sorted items.** Where each key is in the items once, the sorted items are the values of the sorted keys. -/
theorem sorted_eq_map (htrans : ∀ a b c, le a b → le b c → le a c) (htotal : ∀ a b, le a b || le b a)
    (hanti : ∀ a b, le a b → le b a → a = b) (hitems : (items.map Prod.fst).Nodup) (hkeys : keys.Nodup)
    (hsorted : keys.Pairwise fun a b => le a b) (value : κ → α)
    (h : ∀ key, at? items key = if key ∈ keys then some (value key) else none) :
    (items.mergeSort fun a b => le a.1 b.1) = keys.map fun key => (key, value key) := by
  have hmap : ((keys.map fun key => (key, value key)).map Prod.fst).Nodup := by
    rw [List.map_map]
    exact (List.map_id keys).symm ▸ hkeys
  have hperm : items.Perm (keys.map fun key => (key, value key)) :=
    (List.perm_ext_iff_of_nodup (.of_map Prod.fst hitems) (.of_map Prod.fst hmap)).mpr fun item => by
      rw [mem_iff_at? hitems, mem_iff_at? hmap, h, at?_map_keys]
  refine List.Perm.eq_of_pairwise ?_
    (List.pairwise_mergeSort (fun a b c => htrans a.1 b.1 c.1) (fun a b => htotal a.1 b.1) items)
    (List.pairwise_map.mpr hsorted) ((List.mergeSort_perm items _).trans hperm)
  intro a b ha hb hab hba
  -- one key has one item
  have hkey : a.1 = b.1 := hanti a.1 b.1 hab hba
  have hfound := (mem_iff_at? hmap).mp (hperm.mem_iff.mp ((List.mergeSort_perm items _).mem_iff.mp ha))
  have hother := (mem_iff_at? hmap).mp hb
  rw [hkey] at hfound
  exact Prod.ext hkey (Option.some.inj (hfound.symm.trans hother))

end Sorted

end Keyed
