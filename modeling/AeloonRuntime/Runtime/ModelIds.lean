import AeloonRuntime.Lib.Results
import AeloonRuntime.Runtime.Settings
import Mathlib.Data.List.Infix
import Mathlib.Data.List.Nodup

namespace AeloonRuntime

open Py

/-!
# Model ids — which model an id stands for

`manager.py`: `settings_update` looks an id up in the list of all models with `resolve_model_id`, and a run asks
`ProviderManager.model` for it.

* `qualifyModelId` — `qualify_model_id`, the id of a model of a provider;
* `ProviderSnapshot` — a provider of the configuration with what it answers; `ProviderManager` — those with
  different ids;
* `ProviderManager.models`, `ProviderManager.model` — the two methods;
* `normalForm` — what an id with a provider in it is looked up as;
* `model_eq_resolveModelId_iff` — the ids that both look up alike.
-/

/-! ### Ids -/

/-- `value.lstrip("/")`. -/
def lstripSlash (value : String) : String := String.ofList (value.toList.dropWhile (· = '/'))

/-- `f"{provider_id}/"`. -/
def modelPrefix (providerId : String) : String := providerId ++ "/"

/-- `qualify_model_id`, with `none` for its `ValueError`. -/
def qualifyModelId (providerId modelId : String) : Option String :=
  (validateProviderId providerId).bind fun provider =>
    let model := lstripSlash (strip modelId)
    if model = "" then none
    else if (modelPrefix provider).toList <+: model.toList then some model
    else some (modelPrefix provider ++ model)

/-- The id of a model that a provider lists, unless it is empty. -/
def listedModelId (providerId rawId : String) : Option String :=
  let rawId := lstripSlash (strip rawId)
  if rawId = "" then none
  else if (modelPrefix providerId).toList <+: rawId.toList then some rawId
  else some (modelPrefix providerId ++ rawId)

/-- The keys of a `dict` that is filled in this order. -/
def dictKeys (keys : List String) : List String :=
  keys.foldl (fun seen key => if key ∈ seen then seen else seen ++ [key]) []

/-! ### Providers -/

/-- A provider of the configuration, and what it answers. -/
structure ProviderSnapshot where
  id : String
  /-- The configuration only has such ids. -/
  valid : isProviderId id = true
  enabled : Bool
  /-- `status().get("authenticated") is not False`. -/
  authenticated : Bool
  /-- The ids of its configured models. -/
  configured : List String
  /-- The ids that it lists without those: its own, or what its endpoint answers and the filters leave. -/
  listed : Option (List String)

/-- The ids of `await provider.models()`; `none` where that raises. -/
def ProviderSnapshot.models (p : ProviderSnapshot) : Option (List String) :=
  if p.configured = [] then p.listed.map fun ids => dictKeys (ids.filterMap (listedModelId p.id))
  else (p.configured.mapM (qualifyModelId p.id)).map dictKeys

/-- A `ProviderManager`. -/
structure ProviderManager where
  providers : List ProviderSnapshot
  /-- They are the items of a `dict`. -/
  distinct : (providers.map ProviderSnapshot.id).Nodup

namespace ProviderManager

/-- The ids of `models`. -/
def models (m : ProviderManager) : List String :=
  dictKeys (m.providers.flatMap fun p => if p.enabled then p.models.getD [] else [])

/-- `_model_for_provider`; `none` where it raises. -/
def modelForProvider (m : ProviderManager) (providerId localId : String) : Option String := do
  let p ← m.providers.find? fun p => p.id = providerId
  guard (p.enabled && p.authenticated)
  let modelId ← qualifyModelId providerId localId
  let models ← p.models
  if modelId ∈ models then some modelId else none

/-- The loop of `model` over the providers. -/
def modelByLocalId (requested : String) : List ProviderSnapshot → Option String
  | [] => none
  | p :: ps =>
    if !p.enabled then modelByLocalId requested ps
    else
      match p.models with
      | none => modelByLocalId requested ps
      | some models =>
        match qualifyModelId p.id requested with
        | none => none
        | some qualified =>
          if qualified ∈ models then (if p.authenticated then some qualified else none)
          else modelByLocalId requested ps

/-- The id of `model`; `none` where it raises. -/
def model (m : ProviderManager) (modelId : String) : Option String :=
  let requested := strip modelId
  if requested = "" then m.models.head?
  else if '/' ∈ requested.toList then
    (splitModelId requested).bind fun parts => m.modelForProvider parts.1 parts.2
  else modelByLocalId requested m.providers

/-- Every provider is enabled, authenticated and reachable. -/
def Ready (m : ProviderManager) : Prop :=
  ∀ p ∈ m.providers, p.enabled = true ∧ p.authenticated = true ∧ p.models.isSome = true

instance (m : ProviderManager) : Decidable m.Ready :=
  inferInstanceAs (Decidable (∀ p ∈ m.providers, p.enabled = true ∧ p.authenticated = true ∧ p.models.isSome = true))

end ProviderManager

/-- An id with a provider in it, as `_model_for_provider` looks it up. -/
def normalForm (requested : String) : Option String :=
  (splitModelId requested).bind fun parts => qualifyModelId parts.1 parts.2

/-! ### Stripped texts -/

section Strip

variable {s t : String}

theorem toList_strip (s : String) :
    (strip s).toList = ((s.toList.dropWhile isSpace).reverse.dropWhile isSpace).reverse := String.toList_ofList

/-- Stripping leaves an infix. -/
theorem strip_isInfix (s : String) : (strip s).toList <:+: s.toList := by
  rw [toList_strip]
  have hback := List.reverse_prefix.mpr (List.dropWhile_suffix isSpace (l := (s.toList.dropWhile isSpace).reverse))
  rw [List.reverse_reverse] at hback
  exact hback.isInfix.trans (List.dropWhile_suffix isSpace).isInfix

theorem length_strip_le (s : String) : (strip s).toList.length ≤ s.toList.length := (strip_isInfix s).length_le

/-- A text without blanks at its ends stays as it is. -/
theorem strip_eq_self (hhead : ∀ c ∈ s.toList.head?, isSpace c = false)
    (hlast : ∀ c ∈ s.toList.getLast?, isSpace c = false) : strip s = s := by
  have hkeep {l : List Char} (h : ∀ c ∈ l.head?, isSpace c = false) : l.dropWhile isSpace = l := by
    cases l with
    | nil => rfl
    | cons c l => rw [List.dropWhile_cons_of_neg (by simp [h c rfl])]
  rw [← String.toList_inj, toList_strip, hkeep hhead, hkeep (by rwa [List.head?_reverse]), List.reverse_reverse]

/-- A stripped text has no blank behind it. -/
theorem getLast?_strip (s : String) : ∀ c ∈ (strip s).toList.getLast?, isSpace c = false := by
  intro c hc
  rw [toList_strip, List.getLast?_reverse] at hc
  exact Bool.eq_false_iff.mpr fun hspace => by
    have hne := List.head?_dropWhile_not isSpace (s.toList.dropWhile isSpace).reverse
    rw [Option.mem_def.mp hc] at hne
    simp [hspace] at hne

/-- A stripped text has no blank in front. -/
theorem head?_strip (s : String) : ∀ c ∈ (strip s).toList.head?, isSpace c = false := by
  intro c hc
  have hback := List.reverse_prefix.mpr (List.dropWhile_suffix isSpace (l := (s.toList.dropWhile isSpace).reverse))
  rw [List.reverse_reverse, ← toList_strip] at hback
  obtain ⟨rest, hrest⟩ := hback
  have hhead : (s.toList.dropWhile isSpace).head? = some c := by
    rw [← hrest, List.head?_append, Option.mem_def.mp hc]
    rfl
  have hnot := List.head?_dropWhile_not isSpace s.toList
  rw [hhead] at hnot
  exact hnot

theorem strip_strip (s : String) : strip (strip s) = strip s := strip_eq_self (head?_strip s) (getLast?_strip s)

end Strip

/-! ### Ids of providers -/

section ProviderIds

variable {c : Char} {id : String}

theorem isIdChar_range (h : isIdChar c = true) : 33 ≤ c.toNat ∧ c.toNat < 127 := by
  simp only [isIdChar, Bool.or_eq_true, decide_eq_true_eq, isAlphanum_iff] at h
  rcases h with ((h | rfl) | rfl) | rfl
  · omega
  · decide
  · decide
  · decide

theorem isSpace_of_isIdChar (h : isIdChar c = true) : isSpace c = false := by
  obtain ⟨hlow, hhigh⟩ := isIdChar_range h
  simp only [isSpace, Bool.or_eq_false_iff, Bool.and_eq_false_iff, decide_eq_false_iff_not]
  omega

theorem isIdChar_of_isAlphanum (h : c.isAlphanum = true) : isIdChar c = true := by
  simp [isIdChar, h]

/-- The characters of the id of a provider. -/
theorem all_isIdChar (h : isProviderId id = true) : id.toList ≠ [] ∧ ∀ c ∈ id.toList, isIdChar c = true := by
  rw [isProviderId] at h
  cases hid : id.toList with
  | nil => simp [hid] at h
  | cons c cs =>
    rw [hid] at h
    obtain ⟨hc, hcs⟩ := Bool.and_eq_true_iff.mp h
    exact ⟨List.cons_ne_nil c cs, List.forall_mem_cons.mpr
      ⟨isIdChar_of_isAlphanum hc, fun d hd => List.all_eq_true.mp hcs d hd⟩⟩

theorem slash_notMem (h : isProviderId id = true) : '/' ∉ id.toList := fun hmem =>
  absurd ((all_isIdChar h).2 _ hmem) (by decide)

theorem strip_providerId (h : isProviderId id = true) : strip id = id := by
  refine strip_eq_self (fun c hc => ?_) fun c hc => ?_
  · exact isSpace_of_isIdChar ((all_isIdChar h).2 c (List.mem_of_mem_head? hc))
  · exact isSpace_of_isIdChar ((all_isIdChar h).2 c (List.mem_of_getLast? hc))

theorem validateProviderId_of_valid (h : isProviderId id = true) : validateProviderId id = some id := by
  rw [validateProviderId, strip_providerId h]
  exact if_pos h

/-- What is validated is an id. -/
theorem validateProviderId_spec {provider : String} (h : validateProviderId id = some provider) :
    isProviderId provider = true ∧ provider.toList.length ≤ id.toList.length := by
  rw [validateProviderId] at h
  split at h
  · rename_i hvalid
    obtain rfl := Option.some.inj h
    exact ⟨hvalid, length_strip_le id⟩
  · cases h

end ProviderIds

/-! ### Ids of models -/

section ModelIdLemmas

variable {p l n s : String}

theorem toList_modelPrefix (p : String) : (modelPrefix p).toList = p.toList ++ ['/'] := String.toList_append

/-- An id is cut behind its provider. -/
theorem cut_providerId (hp : isProviderId p = true) (rest : List Char) :
    (p.toList ++ '/' :: rest).takeWhile (· ≠ '/') = p.toList
      ∧ (p.toList ++ '/' :: rest).dropWhile (· ≠ '/') = '/' :: rest := by
  have hfront (c : Char) (hc : c ∈ p.toList) : decide (c ≠ '/') = true :=
    decide_eq_true fun heq => slash_notMem hp (heq ▸ hc)
  constructor
  · rw [List.takeWhile_append_of_pos hfront, List.takeWhile_cons_of_neg (by simp), List.append_nil]
  · rw [List.dropWhile_append_of_pos hfront, List.dropWhile_cons_of_neg (by simp)]

/-- The provider in an id is the only one. -/
theorem providerId_unique {q : String} {front back : List Char} (hp : isProviderId p = true)
    (hq : isProviderId q = true) (h : p.toList ++ '/' :: front = q.toList ++ '/' :: back) : p = q := by
  rw [← String.toList_inj, ← (cut_providerId hp front).1, h, (cut_providerId hq back).1]

/-- An id with a provider in front. -/
theorem splitModelId_of (hp : isProviderId p = true) (hs : s.toList = p.toList ++ '/' :: l.toList)
    (hstrip : strip s = s) : splitModelId s = if l = "" then none else some (p, l) := by
  obtain ⟨htake, hdrop⟩ := cut_providerId hp l.toList
  rw [splitModelId, hstrip, hs, hdrop, htake, String.ofList_toList, validateProviderId_of_valid hp]
  cases hchars : l.toList with
  | nil => rw [if_pos (String.toList_eq_nil_iff.mp hchars)]
  | cons c cs =>
    have hne : l ≠ "" := fun hnil => by simp [hnil] at hchars
    have hl : String.ofList (c :: cs) = l := by rw [← hchars, String.ofList_toList]
    rw [if_neg hne, ← hl]
    rfl

/-- What is left begins with the first slash. -/
theorem head_dropWhile_slash {c : Char} {l cs : List Char} (h : l.dropWhile (· ≠ '/') = c :: cs) : c = '/' := by
  induction l with
  | nil => cases h
  | cons d l ih =>
    by_cases hd : d = '/'
    · rw [List.dropWhile_cons_of_neg (by simp [hd])] at h
      exact (List.cons.inj h).1 ▸ hd
    · rw [List.dropWhile_cons_of_pos (by simp [hd])] at h
      exact ih h

/-- What is before the first slash has none. -/
theorem slash_notMem_takeWhile (l : List Char) : '/' ∉ l.takeWhile (· ≠ '/') := by
  intro hmem
  have hkept := List.all_takeWhile (p := fun c => decide (c ≠ '/')) (l := l)
  exact of_decide_eq_true (List.all_eq_true.mp hkept '/' hmem) rfl

/-- What an id with a provider in front is split into. -/
theorem splitModelId_spec (h : splitModelId s = some (p, l)) :
    isProviderId p = true ∧ l ≠ "" ∧ ∃ front, (strip s).toList = front ++ '/' :: l.toList ∧ '/' ∉ front
      ∧ p.toList.length ≤ front.length := by
  have hcut := List.takeWhile_append_dropWhile (p := fun c => decide (c ≠ '/')) (l := (strip s).toList)
  rw [splitModelId] at h
  cases hdrop : (strip s).toList.dropWhile (· ≠ '/') with
  | nil =>
    rw [hdrop] at h
    cases h
  | cons slash rest =>
    cases rest with
    | nil =>
      rw [hdrop] at h
      cases h
    | cons c cs =>
      rw [hdrop] at h hcut
      obtain ⟨provider, hprovider, hpair⟩ := Option.map_eq_some_iff.mp h
      obtain ⟨rfl, rfl⟩ := Prod.mk.inj hpair
      obtain ⟨hvalid, hlength⟩ := validateProviderId_spec hprovider
      have hne : String.ofList (c :: cs) ≠ "" := by
        rw [Ne, ← String.toList_eq_nil_iff, String.toList_ofList]
        exact List.cons_ne_nil c cs
      rw [String.toList_ofList] at hlength
      rw [head_dropWhile_slash hdrop] at hcut
      exact ⟨hvalid, hne, _, by rw [String.toList_ofList, hcut], slash_notMem_takeWhile _, hlength⟩

/-- `qualify_model_id` and the providers spell the ids of models alike. -/
theorem qualifyModelId_eq_listed (hp : isProviderId p = true) (m : String) :
    qualifyModelId p m = listedModelId p m := by
  rw [qualifyModelId, validateProviderId_of_valid hp, Option.bind_some, listedModelId]

/-- The text that the prefix is put on. -/
theorem lstripSlash_suffix (m : String) : (lstripSlash (strip m)).toList <:+ (strip m).toList := by
  rw [lstripSlash, String.toList_ofList]
  exact List.dropWhile_suffix _

theorem getLast?_lstripSlash (m : String) :
    ∀ c ∈ (lstripSlash (strip m)).toList.getLast?, isSpace c = false := by
  intro c hc
  obtain ⟨front, hfront⟩ := lstripSlash_suffix m
  refine getLast?_strip m c ?_
  rw [← hfront, List.getLast?_append, Option.mem_def.mp hc, Option.some_or]
  exact Option.mem_some_self c

/-- The two ways an id is made: it has its provider already, or it gets it. -/
theorem qualifyModelId_cases {m : String} (hp : isProviderId p = true) (h : qualifyModelId p m = some n) :
    lstripSlash (strip m) ≠ "" ∧
      ((∃ rest, n.toList = p.toList ++ '/' :: rest) ∧ n = lstripSlash (strip m)
        ∨ n.toList = p.toList ++ '/' :: (lstripSlash (strip m)).toList) := by
  have hcases : (if lstripSlash (strip m) = "" then none
      else if (modelPrefix p).toList <+: (lstripSlash (strip m)).toList then some (lstripSlash (strip m))
      else some (modelPrefix p ++ lstripSlash (strip m))) = some n := by
    rwa [qualifyModelId, validateProviderId_of_valid hp, Option.bind_some] at h
  by_cases hempty : lstripSlash (strip m) = ""
  · rw [if_pos hempty] at hcases
    cases hcases
  rw [if_neg hempty] at hcases
  refine ⟨hempty, ?_⟩
  by_cases hstarts : (modelPrefix p).toList <+: (lstripSlash (strip m)).toList
  · rw [if_pos hstarts] at hcases
    obtain ⟨rest, hrest⟩ := hstarts
    rw [toList_modelPrefix, List.append_assoc, List.singleton_append] at hrest
    exact .inl ⟨⟨rest, by rw [← Option.some.inj hcases, hrest]⟩, (Option.some.inj hcases).symm⟩
  · rw [if_neg hstarts] at hcases
    refine .inr ?_
    rw [← Option.some.inj hcases, String.toList_append, toList_modelPrefix, List.append_assoc, List.singleton_append]

/-- The id of a model starts with its provider. -/
theorem qualifyModelId_front {m : String} (hp : isProviderId p = true) (h : qualifyModelId p m = some n) :
    ∃ rest, n.toList = p.toList ++ '/' :: rest := by
  obtain ⟨-, ⟨hfront, -⟩ | hfront⟩ := qualifyModelId_cases hp h
  · exact hfront
  · exact ⟨_, hfront⟩

/-- The id of a model has no blanks at its ends. -/
theorem strip_qualifyModelId {m : String} (hp : isProviderId p = true) (h : qualifyModelId p m = some n) :
    strip n = n := by
  obtain ⟨hne, hfront⟩ := qualifyModelId_cases hp h
  obtain ⟨hpne, hpid⟩ := all_isIdChar hp
  refine strip_eq_self (fun c hc => ?_) fun c hc => ?_
  · obtain ⟨rest, hrest⟩ := qualifyModelId_front hp h
    rw [hrest, List.head?_append_of_ne_nil _ hpne] at hc
    exact isSpace_of_isIdChar (hpid c (List.mem_of_mem_head? hc))
  · refine getLast?_lstripSlash m c ?_
    rcases hfront with ⟨-, rfl⟩ | hfront
    · exact hc
    · obtain ⟨d, l, hl⟩ := List.exists_cons_of_ne_nil fun hnil => hne (String.toList_eq_nil_iff.mp hnil)
      rw [hfront, hl, List.getLast?_append_of_ne_nil _ (List.cons_ne_nil _ _), List.getLast?_cons_cons] at hc
      rw [hl]
      exact hc

/-- The id of a model is no longer than its provider, a slash and the local id. -/
theorem length_qualifyModelId {m : String} (hp : isProviderId p = true) (h : qualifyModelId p m = some n) :
    n.toList.length ≤ p.toList.length + 1 + m.toList.length := by
  have hlength := Nat.le_trans (lstripSlash_suffix m).length_le (length_strip_le m)
  obtain ⟨-, ⟨-, rfl⟩ | hfront⟩ := qualifyModelId_cases hp h
  · omega
  · rw [hfront, List.length_append, List.length_cons]
    omega

end ModelIdLemmas

/-! ### What the providers offer -/

section Offered

variable {n : String} {p : ProviderSnapshot}

/-- Looking something up in the keys of a `dict` finds what its items have first. -/
theorem find?_dictKeys (keys : List String) (P : String → Bool) : (dictKeys keys).find? P = keys.find? P := by
  have hseen (seen : List String) : (keys.foldl (fun seen key => if key ∈ seen then seen else seen ++ [key]) seen).find? P
      = (seen ++ keys).find? P := by
    induction keys generalizing seen with
    | nil => rw [List.append_nil, List.foldl_nil]
    | cons key keys ih =>
      rw [List.foldl_cons, ih]
      by_cases hmem : key ∈ seen
      · rw [if_pos hmem, List.find?_append, List.find?_append]
        by_cases hP : P key = true
        · obtain ⟨found, hfound⟩ := Option.isSome_iff_exists.mp (List.find?_isSome.mpr ⟨key, hmem, hP⟩)
          rw [hfound, Option.some_or, Option.some_or]
        · rw [List.find?_cons_of_neg hP]
      · rw [if_neg hmem, List.append_assoc, List.singleton_append]
  exact hseen []

@[simp] theorem mem_dictKeys {keys : List String} : n ∈ dictKeys keys ↔ n ∈ keys := by
  have hfind (l : List String) : n ∈ l ↔ (l.find? (· = n)).isSome = true := by
    rw [List.find?_isSome]
    exact ⟨fun hmem => ⟨n, hmem, decide_eq_true rfl⟩, fun ⟨x, hmem, hx⟩ => of_decide_eq_true hx ▸ hmem⟩
  rw [hfind, hfind, find?_dictKeys]

/-- What a provider offers are ids of models. -/
theorem qualifyModelId_of_mem_models {ns : List String} (h : p.models = some ns) (hn : n ∈ ns) :
    ∃ m, qualifyModelId p.id m = some n := by
  rw [ProviderSnapshot.models] at h
  by_cases hconfigured : p.configured = []
  · rw [if_pos hconfigured] at h
    obtain ⟨ids, -, rfl⟩ := Option.map_eq_some_iff.mp h
    obtain ⟨m, -, hm⟩ := List.mem_filterMap.mp (mem_dictKeys.mp hn)
    exact ⟨m, (qualifyModelId_eq_listed p.valid m).trans hm⟩
  · rw [if_neg hconfigured] at h
    obtain ⟨ids, hids, rfl⟩ := Option.map_eq_some_iff.mp h
    have hqualified (m k : String) (hk : qualifyModelId p.id m = some k) : k = (qualifyModelId p.id m).getD "" := by
      rw [hk, Option.getD_some]
    obtain ⟨hall, rfl⟩ := (Results.mapM_eq_some_iff_map hqualified).mp hids
    obtain ⟨m, hm, rfl⟩ := List.mem_map.mp (mem_dictKeys.mp hn)
    obtain ⟨k, hk⟩ := hall m hm
    exact ⟨m, by rw [hk, Option.getD_some]⟩

/-- The local ids of what a provider offers. -/
theorem splitModelId_of_mem_models {ns : List String} {r : String} (h : p.models = some ns) (hn : n ∈ ns)
    (hr : r ≠ "") : (splitModelId n).any (fun parts => parts.2 = r) = true ↔ n = modelPrefix p.id ++ r := by
  obtain ⟨m, hm⟩ := qualifyModelId_of_mem_models h hn
  obtain ⟨rest, hrest⟩ := qualifyModelId_front p.valid hm
  have hchars : (modelPrefix p.id ++ r).toList = p.id.toList ++ '/' :: r.toList := by
    rw [String.toList_append, toList_modelPrefix, List.append_assoc, List.singleton_append]
  have hsplit : splitModelId n = if String.ofList rest = "" then none else some (p.id, String.ofList rest) :=
    splitModelId_of p.valid (by rw [hrest, String.toList_ofList]) (strip_qualifyModelId p.valid hm)
  have hname : n = modelPrefix p.id ++ r ↔ String.ofList rest = r := by
    rw [← String.toList_inj, hrest, hchars, List.append_cancel_left_eq, List.cons.injEq, ← String.toList_inj,
      String.toList_ofList]
    exact ⟨And.right, fun h => ⟨rfl, h⟩⟩
  rw [hname, hsplit]
  by_cases hempty : String.ofList rest = ""
  · rw [if_pos hempty, Option.any_none, hempty]
    exact ⟨fun hany => Bool.noConfusion hany, fun heq => absurd heq.symm hr⟩
  · rw [if_neg hempty, Option.any_some, decide_eq_true_eq]

end Offered

namespace ProviderManager

variable {m : ProviderManager} {id n q l r : String}

/-- What all providers offer, provider by provider. -/
theorem models_eq (hready : m.Ready) :
    m.models = dictKeys (m.providers.flatMap fun p => p.models.getD []) := by
  rw [models, List.flatMap_congr fun p hp => if_pos (hready p hp).1]

/-- Each model is one of a provider. -/
theorem exists_of_mem_models (hready : m.Ready) (hn : n ∈ m.models) :
    ∃ p ∈ m.providers, ∃ ns, p.models = some ns ∧ n ∈ ns := by
  rw [models_eq hready, mem_dictKeys, List.mem_flatMap] at hn
  obtain ⟨p, hp, hn⟩ := hn
  obtain ⟨ns, hns⟩ := Option.isSome_iff_exists.mp (hready p hp).2.2
  rw [hns] at hn
  exact ⟨p, hp, ns, hns, hn⟩

/-- Each model has a slash, and no blanks at its ends. -/
theorem front_of_mem_models (hready : m.Ready) (hn : n ∈ m.models) :
    (∃ p ∈ m.providers, ∃ rest, n.toList = p.id.toList ++ '/' :: rest) ∧ strip n = n := by
  obtain ⟨p, hp, ns, hns, hmem⟩ := exists_of_mem_models hready hn
  obtain ⟨k, hk⟩ := qualifyModelId_of_mem_models hns hmem
  exact ⟨⟨p, hp, qualifyModelId_front p.valid hk⟩, strip_qualifyModelId p.valid hk⟩

/-- A provider offers the models with its own id in front. -/
theorem mem_models_iff {p : ProviderSnapshot} {ns : List String} (hready : m.Ready) (hp : p ∈ m.providers)
    (hns : p.models = some ns) (hn : ∃ rest, n.toList = p.id.toList ++ '/' :: rest) : n ∈ m.models ↔ n ∈ ns := by
  constructor
  · intro hmem
    obtain ⟨p', hp', ns', hns', hmem'⟩ := exists_of_mem_models hready hmem
    obtain ⟨k, hk⟩ := qualifyModelId_of_mem_models hns' hmem'
    obtain ⟨rest, hrest⟩ := hn
    obtain ⟨rest', hrest'⟩ := qualifyModelId_front p'.valid hk
    have hid : p.id = p'.id := providerId_unique p.valid p'.valid (hrest.symm.trans hrest')
    obtain rfl := List.inj_on_of_nodup_map m.distinct hp hp' hid
    rwa [Option.some.inj (hns.symm.trans hns')]
  · intro hmem
    rw [models_eq hready, mem_dictKeys, List.mem_flatMap]
    exact ⟨p, hp, by rwa [hns]⟩

/-- A provider is asked for what all of them offer under its id. -/
theorem modelForProvider_eq (hready : m.Ready) (hq : isProviderId q = true) :
    m.modelForProvider q l = (qualifyModelId q l).bind fun n => if n ∈ m.models then some n else none := by
  rw [modelForProvider]
  cases hfind : m.providers.find? fun p => p.id = q with
  | none =>
    cases hn : qualifyModelId q l with
    | none => rfl
    | some n =>
      rw [Option.bind_some, if_neg fun hmem => ?_]
      · rfl
      · obtain ⟨⟨p, hp, rest, hrest⟩, -⟩ := front_of_mem_models hready hmem
        obtain ⟨back, hback⟩ := qualifyModelId_front hq hn
        have hid : p.id = q := providerId_unique p.valid hq (hrest.symm.trans hback)
        exact absurd (decide_eq_true hid) (List.find?_eq_none.mp hfind p hp)
  | some p =>
    have hp := List.mem_of_find?_eq_some hfind
    obtain rfl : p.id = q := by simpa using List.find?_some hfind
    obtain ⟨henabled, hauthenticated, hsome⟩ := hready p hp
    obtain ⟨ns, hns⟩ := Option.isSome_iff_exists.mp hsome
    simp only [bind, guard, henabled, hauthenticated, hns, Bool.and_self, if_true, Option.bind_some, pure]
    cases hn : qualifyModelId p.id l with
    | none => rfl
    | some n =>
      simp only [Option.bind_some, mem_models_iff hready hp hns (qualifyModelId_front p.valid hn)]

/-- An id with a slash is looked up in its normal form. -/
theorem model_of_slash (hready : m.Ready) (hslash : '/' ∈ (strip id).toList) :
    m.model id = (normalForm (strip id)).bind fun n => if n ∈ m.models then some n else none := by
  have hne : strip id ≠ "" := fun hnil => by simp [hnil] at hslash
  rw [model, if_neg hne, if_pos hslash, normalForm, Option.bind_assoc]
  refine Option.bind_congr fun parts hparts => ?_
  exact modelForProvider_eq hready (splitModelId_spec hparts).1

/-- The normal form of an id is no longer than it. -/
theorem length_normalForm (h : normalForm r = some n) : n.toList.length ≤ (strip r).toList.length := by
  obtain ⟨⟨q, l⟩, hparts, hn⟩ := Option.bind_eq_some_iff.mp h
  obtain ⟨hq, -, front, hfront, -, hlength⟩ := splitModelId_spec hparts
  have hle : n.toList.length ≤ q.toList.length + 1 + l.toList.length := length_qualifyModelId hq hn
  rw [hfront, List.length_append, List.length_cons]
  omega

/-- Looking for the only text that fits. -/
theorem find?_eq_ite {ns : List String} {P : String → Bool} (h : ∀ k ∈ ns, P k = true ↔ k = n) :
    ns.find? P = if n ∈ ns then some n else none := by
  by_cases hn : n ∈ ns
  · rw [if_pos hn]
    cases hfind : ns.find? P with
    | none => exact absurd ((h n hn).mpr rfl) (List.find?_eq_none.mp hfind n hn)
    | some k => rw [(h k (List.mem_of_find?_eq_some hfind)).mp (List.find?_some hfind)]
  · rw [if_neg hn, List.find?_eq_none]
    exact fun k hk hP => hn ((h k hk).mp hP ▸ hk)

/-- A local id without a slash gets its provider in front. -/
theorem qualifyModelId_of_notMem (hq : isProviderId q = true) (hslash : '/' ∉ r.toList) (hr : r ≠ "")
    (hstrip : strip r = r) : qualifyModelId q r = some (modelPrefix q ++ r) := by
  have hlocal : lstripSlash (strip r) = r := by
    rw [hstrip, lstripSlash, ← String.toList_inj, String.toList_ofList, List.dropWhile_eq_self_iff]
    intro hlength hhead
    have hmem := List.getElem_mem hlength
    exact hslash (of_decide_eq_true hhead ▸ hmem)
  have hstarts : ¬ (modelPrefix q).toList <+: r.toList := fun hstarts =>
    hslash (hstarts.subset (by rw [toList_modelPrefix]; exact List.mem_append_right _ List.mem_cons_self))
  rw [qualifyModelId, validateProviderId_of_valid hq, Option.bind_some, hlocal, if_neg hr, if_neg hstarts]

/-- An id without a slash is looked up as the local id of each provider. -/
theorem modelByLocalId_eq (hslash : '/' ∉ r.toList) (hr : r ≠ "") (hstrip : strip r = r)
    {ps : List ProviderSnapshot} (hready : ∀ p ∈ ps, p.enabled = true ∧ p.authenticated = true ∧ p.models.isSome = true) :
    modelByLocalId r ps = (ps.flatMap fun p => p.models.getD []).find? fun candidate =>
      (splitModelId candidate).any fun parts => parts.2 = r := by
  induction ps with
  | nil => rfl
  | cons p ps ih =>
    obtain ⟨⟨henabled, hauthenticated, hsome⟩, hrest⟩ := List.forall_mem_cons.mp hready
    obtain ⟨ns, hns⟩ := Option.isSome_iff_exists.mp hsome
    have hfind : ns.find? (fun candidate => (splitModelId candidate).any fun parts => parts.2 = r)
        = if modelPrefix p.id ++ r ∈ ns then some (modelPrefix p.id ++ r) else none :=
      find?_eq_ite fun n hn => splitModelId_of_mem_models hns hn hr
    rw [modelByLocalId, henabled, hns, qualifyModelId_of_notMem p.valid hslash hr hstrip, List.flatMap_cons,
      List.find?_append, hns, Option.getD_some, hfind, ← ih hrest, hauthenticated]
    by_cases hmem : modelPrefix p.id ++ r ∈ ns
    · simp [hmem]
    · simp [hmem]

/-- An id without a slash. -/
theorem model_of_notMem (hready : m.Ready) (hslash : '/' ∉ (strip id).toList) (hne : strip id ≠ "") :
    m.model id = resolveModelId id m.models := by
  have hnot : strip id ∉ m.models := by
    intro hmem
    obtain ⟨⟨p, -, rest, hrest⟩, -⟩ := front_of_mem_models hready hmem
    rw [hrest] at hslash
    exact hslash (List.mem_append_right _ List.mem_cons_self)
  rw [model, if_neg hne, if_neg hslash, modelByLocalId_eq hslash hne (strip_strip id) hready, resolveModelId,
    if_neg hne, if_neg hnot, models_eq hready, find?_dictKeys]

/-- A model is not the normal form of its own local id. -/
theorem normalForm_ne (hready : m.Ready) (hn : n ∈ m.models) (hr : strip r = r)
    (hlocal : (splitModelId n).any (fun parts => parts.2 = r) = true) : normalForm r ≠ some n := by
  intro hnormal
  obtain ⟨⟨q, l⟩, hparts, hl⟩ := (Option.any_eq_true _ _).mp hlocal
  obtain rfl : l = r := of_decide_eq_true hl
  obtain ⟨-, -, front, hfront, -⟩ := splitModelId_spec hparts
  have hlength := length_normalForm hnormal
  rw [(front_of_mem_models hready hn).2] at hfront
  rw [hr, hfront, List.length_append, List.length_cons] at hlength
  omega

/-- **Looking up alike.** Where every provider is enabled, authenticated and reachable, `model` and
`resolve_model_id` give the same for an id exactly when it is not blank (or there are no models), and, where it has
a slash: it is its own normal form if it is a model, and otherwise neither its normal form is one nor is it the
local id of one. -/
theorem model_eq_resolveModelId_iff (m : ProviderManager) (id : String) (hready : m.Ready) :
    m.model id = resolveModelId id m.models ↔
      (strip id = "" → m.models = [])
        ∧ ('/' ∈ (strip id).toList → strip id ∈ m.models → normalForm (strip id) = some (strip id))
        ∧ ('/' ∈ (strip id).toList → strip id ∉ m.models → (∀ n ∈ normalForm (strip id), n ∉ m.models)
          ∧ ∀ n ∈ m.models, ∀ parts ∈ splitModelId n, parts.2 ≠ strip id) := by
  by_cases hempty : strip id = ""
  · have hslash : '/' ∉ (strip id).toList := by simp [hempty]
    rw [model, if_pos hempty, resolveModelId, if_pos hempty, List.head?_eq_none_iff]
    exact ⟨fun h => ⟨fun _ => h, fun h => absurd h hslash, fun h => absurd h hslash⟩, fun h => h.1 hempty⟩
  by_cases hslash : '/' ∈ (strip id).toList
  · rw [model_of_slash hready hslash, resolveModelId, if_neg hempty]
    by_cases hmem : strip id ∈ m.models
    · rw [if_pos hmem]
      constructor
      · intro heq
        refine ⟨fun h => absurd h hempty, fun _ _ => ?_, fun _ h => absurd hmem h⟩
        obtain ⟨n, hn, hkept⟩ := Option.bind_eq_some_iff.mp heq
        rw [hn, (Option.ite_none_right_eq_some.mp hkept).2]
      · rintro ⟨-, hnormal, -⟩
        rw [hnormal hslash hmem, Option.bind_some, if_pos hmem]
    · rw [if_neg hmem]
      constructor
      · intro heq
        refine ⟨fun h => absurd h hempty, fun _ h => absurd h hmem, fun _ _ => ?_⟩
        have hnormal : ∀ n ∈ normalForm (strip id), n ∉ m.models := by
          intro n hn hmodel
          rw [Option.mem_def.mp hn, Option.bind_some, if_pos hmodel] at heq
          have hlocal := List.find?_some heq.symm
          exact normalForm_ne hready hmodel (strip_strip id) hlocal hn
        have hnone : (normalForm (strip id)).bind (fun n => if n ∈ m.models then some n else none) = none :=
          Option.bind_eq_none_iff.mpr fun n hn => if_neg (hnormal n hn)
        rw [hnone] at heq
        refine ⟨hnormal, fun n hn parts hparts hlocal => List.find?_eq_none.mp heq.symm n hn ?_⟩
        rw [Option.mem_def.mp hparts, Option.any_some, decide_eq_true hlocal]
      · rintro ⟨-, -, hneither⟩
        obtain ⟨hnormal, hlocal⟩ := hneither hslash hmem
        rw [Option.bind_eq_none_iff.mpr fun n hn => if_neg (hnormal n hn), eq_comm, List.find?_eq_none]
        intro n hn hany
        obtain ⟨parts, hparts, heq⟩ := (Option.any_eq_true _ _).mp hany
        exact hlocal n hn parts hparts (of_decide_eq_true heq)
  · rw [model_of_notMem hready hslash hempty]
    exact ⟨fun _ => ⟨fun h => absurd h hempty, fun h => absurd h hslash, fun h => absurd h hslash⟩, fun _ => rfl⟩

/-- The reserved providers, and a provider `x` that is configured with the models `a/b` and `x/x/c`. -/
def slashedModels : ProviderManager where
  providers := [⟨"deepseek", by decide, true, true, [], some ["deepseek/deepseek-v4-pro"]⟩,
    ⟨"aeloon-cloud", by decide, true, true, [], some []⟩, ⟨"x", by decide, true, true, ["a/b", "x/x/c"], none⟩]
  distinct := by decide

/-- The settings take a local id with a slash and an id that is not in normal form; a run takes neither. -/
theorem slashedModels_differ : slashedModels.Ready
    ∧ slashedModels.models = ["deepseek/deepseek-v4-pro", "x/a/b", "x/x/c"]
    ∧ resolveModelId "a/b" slashedModels.models = some "x/a/b" ∧ slashedModels.model "a/b" = none
    ∧ resolveModelId "x/x/c" slashedModels.models = some "x/x/c" ∧ slashedModels.model "x/x/c" = none := by
  decide +kernel

/-- An id in normal form is looked up alike. -/
theorem model_eq_resolveModelId_normal : normalForm "x/a/b" = some "x/a/b" ∧
    slashedModels.model "x/a/b" = resolveModelId "x/a/b" slashedModels.models :=
  ⟨by decide +kernel, (model_eq_resolveModelId_iff slashedModels "x/a/b" (by decide +kernel)).mpr (by decide +kernel)⟩

end ProviderManager

end AeloonRuntime
