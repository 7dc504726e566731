import AeloonRuntime.Lib.Json
import Mathlib.Algebra.Ring.Nat
import Mathlib.Data.List.Basic
import Mathlib.Data.List.Nodup

namespace Py

/-!
# JSON trees — leaves, and values with renamed keys

* `Json.built` — the value that the items of its `dict`s make when they are put in one after the other;
* `Json.leaves` — what stands at the ends of the paths: scalars and empty containers;
* `Json.objects` — the `dict`s inside a value;
* `Json.mapKeys` — a value with every key renamed, and `Json.rekeyed`, what a comprehension makes of it;
* `leaves_rekeyed_iff` — every leaf is kept exactly when no `dict` has two keys with one new name;
* `rekeyed_rekeyed_iff` — where they are kept, renaming again changes nothing exactly when no new name has
  another new name;
* `Alike` — values of one shape that differ in hidden members only.
-/

/-! ### Putting items in -/

namespace Dict

variable {d e : Dict} {k : String} {v : Json}

/-- The keys, in order. -/
def keys (d : Dict) : List String := d.map Prod.fst

@[simp] theorem keys_nil : keys [] = [] := rfl
@[simp] theorem keys_cons (item : String × Json) (d : Dict) : keys (item :: d) = item.1 :: keys d := rfl
@[simp] theorem keys_append (d e : Dict) : keys (d ++ e) = keys d ++ keys e := List.map_append

theorem contains_iff_mem_keys : d.contains k = true ↔ k ∈ keys d := by
  induction d with
  | nil => simp [contains]
  | cons item d ih =>
    obtain ⟨k', v'⟩ := item
    rw [contains] at ih
    rw [contains, get_cons, keys_cons, List.mem_cons, Option.isSome_or, Bool.or_eq_true, ih]
    by_cases hk : k' = k
    · simp [hk]
    · simp [hk, Ne.symm hk]

theorem setItem_of_notMem (h : k ∉ keys d) (v : Json) : d.setItem k v = d ++ [(k, v)] := by
  rw [setItem, if_neg fun hc => h (contains_iff_mem_keys.mp hc)]

theorem keys_setItem_of_mem (h : k ∈ keys d) (v : Json) : keys (d.setItem k v) = keys d := by
  rw [setItem, if_pos (contains_iff_mem_keys.mpr h), keys, keys, List.map_map]
  refine List.map_congr_left fun item _ => ?_
  by_cases hk : item.1 = k
  · simp [hk]
  · simp [hk]

/-- A `dict` keeps its keys apart. -/
theorem nodup_keys_setItem (h : (keys d).Nodup) (k : String) (v : Json) : (keys (d.setItem k v)).Nodup := by
  by_cases hk : k ∈ keys d
  · rwa [keys_setItem_of_mem hk]
  · rw [setItem_of_notMem hk, keys_append]
    exact h.append (List.nodup_singleton k) (by simpa using hk)

/-- Items with new keys are put behind the others. -/
theorem merge_of_nodup (h : (keys d ++ keys e).Nodup) : d.merge e = d ++ e := by
  induction e generalizing d with
  | nil => exact (List.append_nil d).symm
  | cons item e ih =>
    obtain ⟨k, v⟩ := item
    have hk : k ∉ keys d := fun hmem =>
      (List.disjoint_of_nodup_append h) hmem (List.mem_cons_self)
    have hrest : (keys (d ++ [(k, v)]) ++ keys e).Nodup := by simpa using h
    show (d.setItem k v).merge e = _
    rw [setItem_of_notMem hk, ih hrest, List.append_assoc, List.singleton_append]

/-! ### Weights -/

section Weight

variable {w : Json → Nat}

/-- What the values of a `dict` weigh together. -/
def weight (w : Json → Nat) (d : Dict) : Nat := (d.map fun item => w item.2).sum

@[simp] theorem weight_nil : weight w [] = 0 := rfl
@[simp] theorem weight_cons (item : String × Json) (d : Dict) : weight w (item :: d) = w item.2 + weight w d := rfl
@[simp] theorem weight_append (d e : Dict) : weight w (d ++ e) = weight w d + weight w e := by
  simp [weight]

/-- A value in the place of another one is no addition. -/
theorem weight_replace_lt (hw : ∀ v, 0 < w v) (hd : (keys d).Nodup) (hk : k ∈ keys d) (v : Json) :
    weight w (d.map fun item => if item.1 = k then (k, v) else item) < weight w d + w v := by
  induction d with
  | nil => cases hk
  | cons item d ih =>
    obtain ⟨hnot, hrest⟩ := List.nodup_cons.mp hd
    rw [List.map_cons, weight_cons, weight_cons]
    by_cases hkey : item.1 = k
    · have hsame : (d.map fun item => if item.1 = k then (k, v) else item) = d := by
        refine (List.map_congr_left fun item' hmem => if_neg ?_).trans (List.map_id d)
        rintro heq
        exact hnot (hkey ▸ heq ▸ List.mem_map_of_mem hmem)
      have hpos := hw item.2
      rw [if_pos hkey, hsame]
      show w v + weight w d < _
      omega
    · have hlt := ih hrest ((List.mem_cons.mp hk).resolve_left (Ne.symm hkey))
      rw [if_neg hkey]
      omega

/-- What one item adds. -/
theorem weight_setItem_le (hw : ∀ v, 0 < w v) (hd : (keys d).Nodup) (k : String) (v : Json) :
    weight w (d.setItem k v) ≤ weight w d + w v ∧ (weight w (d.setItem k v) = weight w d + w v → k ∉ keys d) := by
  by_cases hk : k ∈ keys d
  · have hlt := weight_replace_lt hw hd hk v
    rw [setItem, if_pos (contains_iff_mem_keys.mpr hk)]
    exact ⟨by omega, fun h => absurd h (by omega)⟩
  · rw [setItem_of_notMem hk, weight_append]
    exact ⟨Nat.le_refl _, fun _ => hk⟩

/-- What many items add: everything only if all their keys are new. -/
theorem weight_merge_le (hw : ∀ v, 0 < w v) (hd : (keys d).Nodup) :
    weight w (d.merge e) ≤ weight w d + weight w e
      ∧ (weight w (d.merge e) = weight w d + weight w e → (keys d ++ keys e).Nodup) := by
  induction e generalizing d with
  | nil => exact ⟨Nat.le_refl _, fun _ => by simpa using hd⟩
  | cons item e ih =>
    obtain ⟨k, v⟩ := item
    obtain ⟨hstep, hnew⟩ := weight_setItem_le hw hd k v
    obtain ⟨hrest, hnodup⟩ := ih (nodup_keys_setItem hd k v)
    show weight w ((d.setItem k v).merge e) ≤ weight w d + (w v + weight w e)
      ∧ (weight w ((d.setItem k v).merge e) = weight w d + (w v + weight w e) → _)
    refine ⟨by omega, fun heq => ?_⟩
    have hk := hnew (by omega)
    have hkeys := hnodup (by omega)
    rw [setItem_of_notMem hk] at hkeys
    simpa using hkeys

end Weight

/-- Items of which none is lost stay as they are. -/
theorem merge_nil_of_length (h : (merge [] d).length = d.length) : merge [] d = d := by
  have hlength (e : Dict) : weight (fun _ => 1) e = e.length := by
    induction e with
    | nil => rfl
    | cons item e ih => rw [weight_cons, ih, List.length_cons, Nat.add_comm]
  have hnodup := (weight_merge_le (d := []) (e := d) (w := fun _ => 1) (fun _ => Nat.one_pos) .nil).2
  rw [hlength, hlength, hlength, h] at hnodup
  exact merge_of_nodup (hnodup (Nat.zero_add _).symm)

end Dict

/-! ### Values -/

/-- A step into a value. -/
inductive Step where
  | key (key : String)
  | item (index : Nat)
  deriving DecidableEq

namespace Json

mutual

/-- The value that the items make: in a `dict`, the last item of a key stands in the place of the first. -/
def built : Json → Json
  | .arr items => .arr (builtItems items)
  | .obj items => .obj (Dict.merge [] (builtDict items))
  | value => value

/-- The items of a list. -/
def builtItems : List Json → List Json
  | [] => []
  | item :: items => item.built :: builtItems items

/-- The items of a `dict`. -/
def builtDict : List (String × Json) → List (String × Json)
  | [] => []
  | (key, item) :: items => (key, item.built) :: builtDict items

end

mutual

/-- What stands at the ends of the paths into a value: scalars and empty containers. -/
def leaves : Json → List (List Step × Json)
  | .arr items => if items = [] then [([], .arr [])] else leavesItems 0 items
  | .obj items => if items = [] then [([], .obj [])] else leavesDict items
  | value => [([], value)]

/-- The leaves of the items of a list, the first of which stands at `index`. -/
def leavesItems (index : Nat) : List Json → List (List Step × Json)
  | [] => []
  | item :: items => (item.leaves.map fun l => (.item index :: l.1, l.2)) ++ leavesItems (index + 1) items

/-- The leaves of the items of a `dict`. -/
def leavesDict : List (String × Json) → List (List Step × Json)
  | [] => []
  | (key, item) :: items => (item.leaves.map fun l => (.key key :: l.1, l.2)) ++ leavesDict items

end

mutual

/-- The `dict`s inside a value. -/
def objects : Json → List Dict
  | .arr items => objectsItems items
  | .obj items => items :: objectsDict items
  | _ => []

/-- The `dict`s inside the items of a list. -/
def objectsItems : List Json → List Dict
  | [] => []
  | item :: items => item.objects ++ objectsItems items

/-- The `dict`s inside the items of a `dict`. -/
def objectsDict : List (String × Json) → List Dict
  | [] => []
  | (_, item) :: items => item.objects ++ objectsDict items

end

mutual

/-- A value with every key renamed. -/
def mapKeys (f : String → String) : Json → Json
  | .arr items => .arr (mapKeysItems f items)
  | .obj items => .obj (mapKeysDict f items)
  | value => value

/-- The items of a list. -/
def mapKeysItems (f : String → String) : List Json → List Json
  | [] => []
  | item :: items => item.mapKeys f :: mapKeysItems f items

/-- The items of a `dict`. -/
def mapKeysDict (f : String → String) : List (String × Json) → List (String × Json)
  | [] => []
  | (key, item) :: items => (f key, item.mapKeys f) :: mapKeysDict f items

end

/-- What `{f(key): … for key, item in value.items()}` makes of a value, at every depth. -/
def rekeyed (f : String → String) (v : Json) : Json := (v.mapKeys f).built

end Json

/-- A step with its key renamed. -/
def Step.rename (f : String → String) : Step → Step
  | .key name => .key (f name)
  | .item i => .item i

/-! ### Kept leaves -/

namespace Json

variable {f : String → String}

/-- How many leaves a value has. -/
def leafCount (v : Json) : Nat := v.leaves.length

theorem length_leavesItems (index : Nat) (items : List Json) :
    (leavesItems index items).length = (items.map leafCount).sum := by
  induction items generalizing index with
  | nil => rfl
  | cons item items ih =>
    rw [leavesItems, List.length_append, List.length_map, ih, List.map_cons, List.sum_cons, leafCount]

theorem length_leavesDict (items : Dict) : (leavesDict items).length = Dict.weight leafCount items := by
  induction items with
  | nil => rfl
  | cons item items ih =>
    rw [leavesDict, List.length_append, List.length_map, ih, Dict.weight_cons, leafCount]

theorem leafCount_arr (items : List Json) :
    leafCount (.arr items) = if items = [] then 1 else (items.map leafCount).sum := by
  rw [leafCount, leaves]
  split
  · rfl
  · exact length_leavesItems 0 items

theorem leafCount_obj (items : Dict) :
    leafCount (.obj items) = if items = [] then 1 else Dict.weight leafCount items := by
  rw [leafCount, leaves]
  split
  · rfl
  · exact length_leavesDict items

/-- No value is without a leaf. -/
theorem leafCount_pos (v : Json) : 0 < leafCount v := by
  cases v with
  | arr items =>
    cases items with
    | nil => exact Nat.one_pos
    | cons item items =>
      have hitem := leafCount_pos item
      rw [leafCount_arr, if_neg (List.cons_ne_nil item items), List.map_cons, List.sum_cons]
      omega
  | obj items =>
    match items with
    | [] => exact Nat.one_pos
    | (name, item) :: items =>
      have hitem := leafCount_pos item
      rw [leafCount_obj, if_neg (List.cons_ne_nil _ items), Dict.weight_cons]
      exact Nat.add_pos_left hitem _
  | _ => exact Nat.one_pos

@[simp] theorem keys_mapKeysDict (items : Dict) : Dict.keys (mapKeysDict f items) = items.keys.map f := by
  induction items with
  | nil => rfl
  | cons item items ih => simp [mapKeysDict, ih]

@[simp] theorem keys_builtDict (items : Dict) : Dict.keys (builtDict items) = items.keys := by
  induction items with
  | nil => rfl
  | cons item items ih => simp [builtDict, ih]

/-- A `dict` that is not empty stays so. -/
theorem merge_nil_eq_nil_iff {items : Dict} : Dict.merge [] items = [] ↔ items = [] := by
  constructor
  · intro h
    cases items with
    | nil => rfl
    | cons item items =>
      have hkey : item.1 ∈ (Dict.merge [] (item :: items)).keys := by
        refine Dict.contains_iff_mem_keys.mp ?_
        rw [Dict.contains, Dict.get_merge, Dict.get_cons]
        simp
      rw [h] at hkey
      cases hkey
  · rintro rfl
    rfl

mutual

/-- **Counting leaves.** Renaming adds no leaf, and keeps their number only if no `dict` has two keys with
    one new name. -/
theorem leafCount_rekeyed_le (f : String → String) (v : Json) :
    leafCount (v.rekeyed f) ≤ leafCount v
      ∧ (leafCount (v.rekeyed f) = leafCount v → ∀ d ∈ v.objects, (d.keys.map f).Nodup) := by
  cases v with
  | arr items =>
    obtain ⟨hle, hnodup⟩ := leafCount_rekeyedItems_le f items
    cases items with
    | nil => exact ⟨Nat.le_refl _, fun _ d hd => by cases hd⟩
    | cons item items =>
      rw [rekeyed, mapKeys, built, leafCount_arr, leafCount_arr, if_neg (by simp [mapKeysItems, builtItems]),
        if_neg (List.cons_ne_nil item items)]
      exact ⟨hle, hnodup⟩
  | obj items =>
    obtain ⟨hle, hnodup⟩ := leafCount_rekeyedDict_le f items
    obtain ⟨hmerge, hkeys⟩ := Dict.weight_merge_le (w := leafCount) leafCount_pos (d := [])
      (e := builtDict (mapKeysDict f items)) .nil
    rw [Dict.weight_nil, Nat.zero_add, Dict.keys_nil, List.nil_append, keys_builtDict, keys_mapKeysDict] at hkeys
    rw [Dict.weight_nil, Nat.zero_add] at hmerge
    match items with
    | [] => exact ⟨Nat.le_refl _, fun _ d hd => by simp_all [objects, objectsDict]⟩
    | item :: items =>
      have hne : Dict.merge [] (builtDict (mapKeysDict f (item :: items))) ≠ [] := by
        rw [Ne, merge_nil_eq_nil_iff]
        simp [mapKeysDict, builtDict]
      rw [rekeyed, mapKeys, built, leafCount_obj, leafCount_obj, if_neg hne, if_neg (List.cons_ne_nil item items)]
      refine ⟨Nat.le_trans hmerge hle, fun heq d hd => ?_⟩
      rcases List.mem_cons.mp hd with rfl | hd
      · exact hkeys (by omega)
      · exact hnodup (by omega) d hd
  | _ => exact ⟨Nat.le_refl _, fun _ d hd => by cases hd⟩

theorem leafCount_rekeyedItems_le (f : String → String) (items : List Json) :
    ((builtItems (mapKeysItems f items)).map leafCount).sum ≤ (items.map leafCount).sum
      ∧ (((builtItems (mapKeysItems f items)).map leafCount).sum = (items.map leafCount).sum →
        ∀ d ∈ objectsItems items, (d.keys.map f).Nodup) := by
  match items with
  | [] => exact ⟨Nat.le_refl _, fun _ d hd => by cases hd⟩
  | item :: items =>
    obtain ⟨hitem, hfirst⟩ := leafCount_rekeyed_le f item
    obtain ⟨hitems, hrest⟩ := leafCount_rekeyedItems_le f items
    rw [mapKeysItems, builtItems, List.map_cons, List.map_cons, List.sum_cons, List.sum_cons]
    rw [rekeyed] at hitem hfirst
    refine ⟨by omega, fun heq d hd => ?_⟩
    rcases List.mem_append.mp hd with hd | hd
    · exact hfirst (by omega) d hd
    · exact hrest (by omega) d hd

theorem leafCount_rekeyedDict_le (f : String → String) (items : Dict) :
    Dict.weight leafCount (builtDict (mapKeysDict f items)) ≤ Dict.weight leafCount items
      ∧ (Dict.weight leafCount (builtDict (mapKeysDict f items)) = Dict.weight leafCount items →
        ∀ d ∈ objectsDict items, (d.keys.map f).Nodup) := by
  match items with
  | [] => exact ⟨Nat.le_refl _, fun _ d hd => by cases hd⟩
  | (name, item) :: items =>
    obtain ⟨hitem, hfirst⟩ := leafCount_rekeyed_le f item
    obtain ⟨hitems, hrest⟩ := leafCount_rekeyedDict_le f items
    rw [mapKeysDict, builtDict, Dict.weight_cons, Dict.weight_cons]
    rw [rekeyed] at hitem hfirst
    refine ⟨Nat.add_le_add hitem hitems, fun heq d hd => ?_⟩
    rcases List.mem_append.mp hd with hd | hd
    · exact hfirst (by simp only at heq; omega) d hd
    · exact hrest (by simp only at heq; omega) d hd

end

mutual

/-- New names that stay apart merge nothing. -/
theorem rekeyed_eq_mapKeys (v : Json) (h : ∀ d ∈ v.objects, (d.keys.map f).Nodup) :
    v.rekeyed f = v.mapKeys f := by
  cases v with
  | arr items => exact congrArg Json.arr (rekeyedItems_eq items h)
  | obj items =>
    have hitems := rekeyedDict_eq items fun d hd => h d (List.mem_cons_of_mem _ hd)
    have hkeys : (Dict.keys (mapKeysDict f items)).Nodup := by
      rw [keys_mapKeysDict]
      exact h items List.mem_cons_self
    rw [rekeyed, mapKeys, built, hitems, Dict.merge_of_nodup (d := []) hkeys, List.nil_append]
  | _ => rfl

theorem rekeyedItems_eq (items : List Json) (h : ∀ d ∈ objectsItems items, (d.keys.map f).Nodup) :
    builtItems (mapKeysItems f items) = mapKeysItems f items := by
  match items with
  | [] => rfl
  | item :: items =>
    have hitem := rekeyed_eq_mapKeys item fun d hd => h d (List.mem_append_left _ hd)
    have hitems := rekeyedItems_eq items fun d hd => h d (List.mem_append_right _ hd)
    rw [rekeyed] at hitem
    rw [mapKeysItems, builtItems, hitem, hitems]

theorem rekeyedDict_eq (items : Dict) (h : ∀ d ∈ objectsDict items, (d.keys.map f).Nodup) :
    builtDict (mapKeysDict f items) = mapKeysDict f items := by
  match items with
  | [] => rfl
  | (name, item) :: items =>
    have hitem := rekeyed_eq_mapKeys item fun d hd => h d (List.mem_append_left _ hd)
    have hitems := rekeyedDict_eq items fun d hd => h d (List.mem_append_right _ hd)
    rw [rekeyed] at hitem
    rw [mapKeysDict, builtDict, hitem, hitems]

end

/-- A leaf, with the keys on its path renamed. -/
def renameLeaf (f : String → String) (l : List Step × Json) : List Step × Json := (l.1.map (Step.rename f), l.2)

mutual

/-- Renamed keys lead to the same leaves. -/
theorem leaves_mapKeys (f : String → String) (v : Json) :
    (v.mapKeys f).leaves = v.leaves.map (renameLeaf f) := by
  cases v with
  | arr items =>
    match items with
    | [] => rfl
    | item :: items =>
      rw [mapKeys, leaves, leaves, if_neg (by simp [mapKeysItems]), if_neg (List.cons_ne_nil item items)]
      exact leaves_mapKeysItems f 0 (item :: items)
  | obj items =>
    match items with
    | [] => rfl
    | item :: items =>
      rw [mapKeys, leaves, leaves, if_neg (by simp [mapKeysDict]), if_neg (List.cons_ne_nil item items)]
      exact leaves_mapKeysDict f (item :: items)
  | _ => rfl

theorem leaves_mapKeysItems (f : String → String) (index : Nat) (items : List Json) :
    leavesItems index (mapKeysItems f items) = (leavesItems index items).map (renameLeaf f) := by
  match items with
  | [] => rfl
  | item :: items =>
    rw [mapKeysItems, leavesItems, leavesItems, leaves_mapKeys f item, leaves_mapKeysItems f (index + 1) items,
      List.map_append, List.map_map, List.map_map]
    rfl

theorem leaves_mapKeysDict (f : String → String) (items : Dict) :
    leavesDict (mapKeysDict f items) = (leavesDict items).map (renameLeaf f) := by
  match items with
  | [] => rfl
  | (name, item) :: items =>
    rw [mapKeysDict, leavesDict, leavesDict, leaves_mapKeys f item, leaves_mapKeysDict f items,
      List.map_append, List.map_map, List.map_map]
    rfl

end

/-- **Kept leaves.** A comprehension over the keys keeps every leaf exactly when no `dict` of the value has
    two keys with one new name. -/
theorem leaves_rekeyed_iff (f : String → String) (v : Json) :
    (v.rekeyed f).leaves = v.leaves.map (renameLeaf f) ↔ ∀ d ∈ v.objects, (d.keys.map f).Nodup := by
  constructor
  · intro h
    refine (leafCount_rekeyed_le f v).2 ?_
    rw [leafCount, h, List.length_map, leafCount]
  · intro h
    rw [rekeyed_eq_mapKeys v h, leaves_mapKeys]

/-! ### Renaming twice -/

mutual

/-- Names that stay are renamed once. -/
theorem mapKeys_mapKeys_of_stable (v : Json) (h : ∀ d ∈ v.objects, ∀ k ∈ d.keys, f (f k) = f k) :
    (v.mapKeys f).mapKeys f = v.mapKeys f := by
  cases v with
  | arr items => exact congrArg Json.arr (mapKeysItems_of_stable items h)
  | obj items =>
    refine congrArg Json.obj (mapKeysDict_of_stable items (h items List.mem_cons_self) fun d hd => ?_)
    exact h d (List.mem_cons_of_mem _ hd)
  | _ => rfl

theorem mapKeysItems_of_stable (items : List Json) (h : ∀ d ∈ objectsItems items, ∀ k ∈ d.keys, f (f k) = f k) :
    mapKeysItems f (mapKeysItems f items) = mapKeysItems f items := by
  match items with
  | [] => rfl
  | item :: items =>
    rw [mapKeysItems, mapKeysItems, mapKeys_mapKeys_of_stable item fun d hd => h d (List.mem_append_left _ hd),
      mapKeysItems_of_stable items fun d hd => h d (List.mem_append_right _ hd)]

theorem mapKeysDict_of_stable (items : Dict) (hkeys : ∀ k ∈ items.keys, f (f k) = f k)
    (h : ∀ d ∈ objectsDict items, ∀ k ∈ d.keys, f (f k) = f k) :
    mapKeysDict f (mapKeysDict f items) = mapKeysDict f items := by
  match items with
  | [] => rfl
  | (name, item) :: items =>
    rw [mapKeysDict, mapKeysDict, hkeys name List.mem_cons_self,
      mapKeys_mapKeys_of_stable item fun d hd => h d (List.mem_append_left _ hd),
      mapKeysDict_of_stable items (fun k hk => hkeys k (List.mem_cons_of_mem _ hk))
        fun d hd => h d (List.mem_append_right _ hd)]

end

theorem length_mapKeysDict (items : Dict) : (mapKeysDict f items).length = items.length := by
  have h := congrArg List.length (keys_mapKeysDict (f := f) items)
  simpa [Dict.keys] using h

theorem length_builtDict (items : Dict) : (builtDict items).length = items.length := by
  have h := congrArg List.length (keys_builtDict items)
  simpa [Dict.keys] using h

mutual

/-- A value that renaming leaves as it is has names that stay. -/
theorem stable_of_rekeyed (v : Json) (h : (v.mapKeys f).rekeyed f = v.mapKeys f) :
    ∀ d ∈ v.objects, ∀ k ∈ d.keys, f (f k) = f k := by
  cases v with
  | arr items => exact stable_of_rekeyedItems items (Json.arr.inj h)
  | obj items =>
    have hmerge : Dict.merge [] (builtDict (mapKeysDict f (mapKeysDict f items))) = mapKeysDict f items :=
      Json.obj.inj h
    have hlength := congrArg List.length hmerge
    have hbuilt := Dict.merge_nil_of_length (by
      rw [hlength, length_builtDict, length_mapKeysDict, length_mapKeysDict, length_mapKeysDict])
    obtain ⟨hkeys, hrest⟩ := stable_of_rekeyedDict items (hbuilt.symm.trans hmerge)
    intro d hd
    rcases List.mem_cons.mp hd with rfl | hd
    · exact hkeys
    · exact hrest d hd
  | _ => exact fun d hd => by cases hd

theorem stable_of_rekeyedItems (items : List Json)
    (h : builtItems (mapKeysItems f (mapKeysItems f items)) = mapKeysItems f items) :
    ∀ d ∈ objectsItems items, ∀ k ∈ d.keys, f (f k) = f k := by
  match items with
  | [] => exact fun d hd => by cases hd
  | item :: items =>
    rw [mapKeysItems, mapKeysItems, builtItems] at h
    obtain ⟨hitem, hitems⟩ := List.cons.inj h
    intro d hd
    rcases List.mem_append.mp hd with hd | hd
    · exact stable_of_rekeyed item hitem d hd
    · exact stable_of_rekeyedItems items hitems d hd

theorem stable_of_rekeyedDict (items : Dict)
    (h : builtDict (mapKeysDict f (mapKeysDict f items)) = mapKeysDict f items) :
    (∀ k ∈ items.keys, f (f k) = f k) ∧ ∀ d ∈ objectsDict items, ∀ k ∈ d.keys, f (f k) = f k := by
  match items with
  | [] => exact ⟨fun k hk => absurd hk List.not_mem_nil, fun d hd => absurd hd List.not_mem_nil⟩
  | (name, item) :: items =>
    rw [mapKeysDict, mapKeysDict, builtDict] at h
    obtain ⟨hfirst, hitems⟩ := List.cons.inj h
    obtain ⟨hname, hitem⟩ := Prod.mk.inj hfirst
    obtain ⟨hkeys, hrest⟩ := stable_of_rekeyedDict items hitems
    refine ⟨List.forall_mem_cons.mpr ⟨hname, hkeys⟩, fun d hd => ?_⟩
    rcases List.mem_append.mp hd with hd | hd
    · exact stable_of_rekeyed item hitem d hd
    · exact hrest d hd

end

/-- **Renaming twice.** Where no two keys get one new name, a second comprehension changes nothing exactly
    when no new name has another new name. -/
theorem rekeyed_rekeyed_iff {v : Json} (h : ∀ d ∈ v.objects, (d.keys.map f).Nodup) :
    (v.rekeyed f).rekeyed f = v.rekeyed f ↔ ∀ d ∈ v.objects, ∀ k ∈ d.keys, f (f k) = f k := by
  have hfirst := rekeyed_eq_mapKeys v h
  rw [hfirst]
  constructor
  · exact stable_of_rekeyed v
  · intro hstable
    rw [rekeyed, mapKeys_mapKeys_of_stable v hstable]
    exact hfirst

/-! ### Hidden members -/

mutual

/-- Values of one shape, which differ only in members that `hides` names for their `dict`. -/
inductive Alike (hides : Dict → String → Bool) : Json → Json → Prop where
  | same (v : Json) : Alike hides v v
  | arr {xs ys : List Json} (h : AlikeItems hides xs ys) : Alike hides (.arr xs) (.arr ys)
  | obj {xs ys : Dict} (h : AlikeDict hides (hides xs) xs ys) : Alike hides (.obj xs) (.obj ys)

/-- The items of two lists. -/
inductive AlikeItems (hides : Dict → String → Bool) : List Json → List Json → Prop where
  | nil : AlikeItems hides [] []
  | cons {v w : Json} {xs ys : List Json} (h : Alike hides v w) (hrest : AlikeItems hides xs ys) :
      AlikeItems hides (v :: xs) (w :: ys)

/-- The items of two `dict`s, of which `hidden` are hidden. -/
inductive AlikeDict (hides : Dict → String → Bool) : (String → Bool) → Dict → Dict → Prop where
  | nil {hidden : String → Bool} : AlikeDict hides hidden [] []
  | hidden {hidden : String → Bool} {key : String} {xs ys : Dict} (v w : Json) (h : hidden key = true)
      (hrest : AlikeDict hides hidden xs ys) : AlikeDict hides hidden ((key, v) :: xs) ((key, w) :: ys)
  | shown {hidden : String → Bool} {key : String} {v w : Json} {xs ys : Dict} (h : Alike hides v w)
      (hrest : AlikeDict hides hidden xs ys) : AlikeDict hides hidden ((key, v) :: xs) ((key, w) :: ys)

end

section Alike

variable {hides : Dict → String → Bool}

theorem AlikeItems.length_eq {xs ys : List Json} (h : AlikeItems hides xs ys) : xs.length = ys.length := by
  match h with
  | .nil => rfl
  | .cons _ hrest => rw [List.length_cons, List.length_cons, hrest.length_eq]

theorem AlikeDict.length_eq {hidden : String → Bool} {xs ys : Dict} (h : AlikeDict hides hidden xs ys) :
    xs.length = ys.length := by
  match h with
  | .nil => rfl
  | .hidden _ _ _ hrest => rw [List.length_cons, List.length_cons, hrest.length_eq]
  | .shown _ hrest => rw [List.length_cons, List.length_cons, hrest.length_eq]

/-- Values of one shape are empty alike. -/
theorem Alike.truthy_eq {v w : Json} (h : Alike hides v w) : v.truthy = w.truthy := by
  have hempty {α : Type} {xs ys : List α} (hlength : xs.length = ys.length) : xs.isEmpty = ys.isEmpty := by
    cases xs <;> cases ys <;> simp_all
  match h with
  | .same _ => rfl
  | .arr h => rw [truthy_arr, truthy_arr, hempty h.length_eq]
  | .obj h => rw [truthy, truthy, hempty h.length_eq]

/-- A string is alike to itself only. -/
theorem Alike.asStr?_eq {v w : Json} (h : Alike hides v w) : v.asStr? = w.asStr? := by
  match h with
  | .same _ => rfl
  | .arr _ => rfl
  | .obj _ => rfl

theorem AlikeDict.get {hidden : String → Bool} {xs ys : Dict} (h : AlikeDict hides hidden xs ys) {key : String}
    (hkey : hidden key = false) : Option.Rel (Alike hides) (Dict.get xs key) (Dict.get ys key) := by
  have hor {a b c d : Option Json} (hab : Option.Rel (Alike hides) a b) (hcd : Option.Rel (Alike hides) c d) :
      Option.Rel (Alike hides) (a.or c) (b.or d) := by
    cases hab with
    | none => exact hcd
    | some h => exact .some h
  induction xs generalizing ys with
  | nil =>
    cases h
    exact .none
  | cons item xs ih =>
    obtain ⟨k, v⟩ := item
    cases h with
    | hidden v w hk hrest =>
      have hne : k ≠ key := by
        rintro rfl
        simp [hkey] at hk
      rw [Dict.get_cons, Dict.get_cons, if_neg hne, if_neg hne]
      exact hor (ih hrest) .none
    | shown hvw hrest =>
      rw [Dict.get_cons, Dict.get_cons]
      refine hor (ih hrest) ?_
      by_cases hk : k = key
      · rw [if_pos hk, if_pos hk]
        exact .some hvw
      · rw [if_neg hk, if_neg hk]
        exact .none

/-- What stands at a key that is not hidden. -/
theorem AlikeDict.getD {hidden : String → Bool} {xs ys : Dict} (h : AlikeDict hides hidden xs ys) {key : String}
    (hkey : hidden key = false) : Alike hides (Dict.getD xs key) (Dict.getD ys key) := by
  have hget := h.get hkey
  rw [Dict.getD, Dict.getD]
  generalize Dict.get xs key = a at hget ⊢
  generalize Dict.get ys key = b at hget ⊢
  cases hget with
  | none => exact .same _
  | some hvw => exact hvw

end Alike

end Json

end Py
