import AeloonRuntime.Lib.JsonTree
import AeloonRuntime.Server.Events

namespace AeloonRuntime

open Py

/-!
# Event keys — what the public spelling of keys keeps

`runtime_server.py`: `_snake_case_value` spells every key of an event the public way, those of the arguments
that a model has chosen too.

* `snakeCased` — the value that the comprehensions of `_snake_case_value` make: of two keys with one public
  spelling, the later one counts;
* `capitalRun` — a key with two capitals behind a small letter, of which only the first is converted;
* `snakeCased_lossless_iff` — a value keeps its leaves and is converted once and for all exactly when no `dict`
  inside it has two keys with one public spelling, and no key has such capitals.
-/

/-- `_snake_case_value`, with a `dict` for every comprehension. -/
def snakeCased (value : Json) : Json := (snakeCaseValue value).built

/-- `[a-z0-9]`. -/
def isSmall (c : Char) : Bool := c.isLower || c.isDigit

/-- A small letter or digit with two capitals behind it. -/
def capitalRun : List Char → Bool
  | b :: c :: d :: rest => isSmall b && c.isUpper && d.isUpper || capitalRun (c :: d :: rest)
  | _ => false

/-! ### One key -/

/-- A capital that `_CAMEL_BOUNDARY` finds behind `before`. -/
def IsBoundary (before : Option Char) (c : Char) : Prop := c.isUpper = true ∧ before.any isSmall = true

instance (before : Option Char) (c : Char) : Decidable (IsBoundary before c) :=
  inferInstanceAs (Decidable (_ ∧ _))

/-- `_CAMEL_BOUNDARY` finds nothing. -/
def Plain (before : Option Char) : List Char → Prop
  | [] => True
  | c :: cs => ¬IsBoundary before c ∧ Plain (some c) cs

section Chars

variable {before : Option Char} {b c : Char} {cs : List Char}

theorem snakeChars_of_boundary (h : IsBoundary before c) (cs : List Char) :
    snakeChars before (c :: cs) = '_' :: c.toLower :: snakeChars c cs := if_pos h

theorem snakeChars_of_not_boundary (h : ¬IsBoundary before c) (cs : List Char) :
    snakeChars before (c :: cs) = c :: snakeChars c cs := if_neg h

theorem length_le_snakeChars (before : Option Char) (cs : List Char) :
    cs.length ≤ (snakeChars before cs).length := by
  induction cs generalizing before with
  | nil => exact Nat.le_refl _
  | cons c cs ih =>
    have hrest := ih (some c)
    by_cases h : IsBoundary before c
    · rw [snakeChars_of_boundary h, List.length_cons, List.length_cons, List.length_cons]
      omega
    · rw [snakeChars_of_not_boundary h, List.length_cons, List.length_cons]
      omega

/-- What is converted is longer than it was. -/
theorem snakeChars_eq_self_iff (before : Option Char) (cs : List Char) :
    snakeChars before cs = cs ↔ Plain before cs := by
  induction cs generalizing before with
  | nil => exact iff_of_true rfl trivial
  | cons c cs ih =>
    by_cases h : IsBoundary before c
    · refine iff_of_false (fun heq => ?_) fun hplain => hplain.1 h
      have hlength := congrArg List.length heq
      have hrest := length_le_snakeChars (some c) cs
      rw [snakeChars_of_boundary h, List.length_cons, List.length_cons, List.length_cons] at hlength
      omega
    · rw [snakeChars_of_not_boundary h, List.cons.injEq, and_iff_right rfl, ih, Plain, and_iff_right h]

/-- The capitals are letters of ASCII. -/
theorem exists_of_isUpper (h : c.isUpper = true) : ∃ n < 26, c = Char.ofNat (65 + n) := by
  obtain ⟨hlow, hhigh⟩ : 65 ≤ c.toNat ∧ c.toNat ≤ 90 := Py.isUpper_iff.mp h
  refine ⟨c.toNat - 65, by omega, ?_⟩
  rw [show 65 + (c.toNat - 65) = c.toNat by omega, Char.ofNat_toNat]

theorem isSmall_toLower (h : c.isUpper = true) : isSmall c.toLower = true := by
  obtain ⟨n, hn, rfl⟩ := exists_of_isUpper h
  exact (by decide : ∀ n < 26, isSmall (Char.ofNat (65 + n)).toLower = true) n hn

theorem isUpper_toLower (h : c.isUpper = true) : c.toLower.isUpper = false := by
  obtain ⟨n, hn, rfl⟩ := exists_of_isUpper h
  exact (by decide : ∀ n < 26, (Char.ofNat (65 + n)).toLower.isUpper = false) n hn

theorem isSmall_of_isUpper (h : c.isUpper = true) : isSmall c = false := by
  obtain ⟨n, hn, rfl⟩ := exists_of_isUpper h
  exact (by decide : ∀ n < 26, isSmall (Char.ofNat (65 + n)) = false) n hn

theorem not_isBoundary_underscore (before : Option Char) : ¬IsBoundary before '_' := fun h => absurd h.1 (by decide)

/-- A run does not start where no capital is converted. -/
theorem capitalRun_cons (h : ¬IsBoundary (some b) c) (cs : List Char) :
    capitalRun (b :: c :: cs) = capitalRun (c :: cs) := by
  have hpair : (isSmall b && c.isUpper) = false := by
    rw [Bool.eq_false_iff]
    intro hb
    obtain ⟨hsmall, hupper⟩ := Bool.and_eq_true_iff.mp hb
    exact h ⟨hupper, hsmall⟩
  cases cs with
  | nil => rfl
  | cons d cs => rw [capitalRun, hpair, Bool.false_and, Bool.false_or]

mutual

/-- Behind a character that stays as it is. -/
theorem plain_snakeChars_iff (b : Char) (cs : List Char) :
    Plain (some b) (snakeChars (some b) cs) ↔ capitalRun (b :: cs) = false := by
  match cs with
  | [] => exact iff_of_true trivial rfl
  | c :: cs =>
    by_cases h : IsBoundary (some b) c
    · have hnext := plain_snakeChars_converted_iff (a := b) h.2 h.1 cs
      have hlower : ¬IsBoundary (some '_') c.toLower := fun hc => by
        simpa [isUpper_toLower h.1] using hc.1
      rw [snakeChars_of_boundary h, Plain, Plain, hnext, and_iff_right (not_isBoundary_underscore _),
        and_iff_right hlower]
    · rw [snakeChars_of_not_boundary h, Plain, and_iff_right h, plain_snakeChars_iff c cs, capitalRun_cons h]

/-- Behind a capital that has been converted. -/
theorem plain_snakeChars_converted_iff {a b : Char} (ha : isSmall a = true) (hb : b.isUpper = true)
    (cs : List Char) :
    Plain (some b.toLower) (snakeChars (some b) cs) ↔ capitalRun (a :: b :: cs) = false := by
  match cs with
  | [] => exact iff_of_true trivial rfl
  | c :: cs =>
    have hc : ¬IsBoundary (some b) c := fun h => by simpa [isSmall_of_isUpper hb] using h.2
    have hlower : IsBoundary (some b.toLower) c ↔ c.isUpper = true := and_iff_left (isSmall_toLower hb)
    rw [snakeChars_of_not_boundary hc, Plain, plain_snakeChars_iff c cs, hlower, capitalRun, capitalRun_cons hc, ha, hb]
    simp

end

end Chars

/-- **One key.** Converting a key again changes nothing exactly when no two capitals follow a small letter. -/
theorem snakeKey_snakeKey_iff (key : String) :
    snakeKey (snakeKey key) = snakeKey key ↔ capitalRun key.toList = false := by
  have hplain : Plain none (snakeChars none key.toList) ↔ capitalRun key.toList = false := by
    cases key.toList with
    | nil => exact iff_of_true trivial rfl
    | cons c cs =>
      have hc : ¬IsBoundary none c := fun h => by simpa using h.2
      rw [snakeChars_of_not_boundary hc, Plain, and_iff_right hc, plain_snakeChars_iff]
  rw [snakeKey, snakeKey, String.toList_ofList, String.ofList_inj, snakeChars_eq_self_iff, hplain]

/-! ### Values -/

mutual

/-- The conversion renames the keys. -/
theorem snakeCaseValue_eq_mapKeys (value : Json) : snakeCaseValue value = value.mapKeys snakeKey := by
  cases value with
  | arr items => exact congrArg Json.arr (snakeCaseItems_eq_mapKeys items)
  | obj items => exact congrArg Json.obj (snakeCaseDict_eq_mapKeys items)
  | _ => rfl

theorem snakeCaseItems_eq_mapKeys (items : List Json) : snakeCaseItems items = Json.mapKeysItems snakeKey items := by
  match items with
  | [] => rfl
  | item :: items =>
    rw [snakeCaseItems, Json.mapKeysItems, snakeCaseValue_eq_mapKeys item, snakeCaseItems_eq_mapKeys items]

theorem snakeCaseDict_eq_mapKeys (items : Dict) : snakeCaseDict items = Json.mapKeysDict snakeKey items := by
  match items with
  | [] => rfl
  | (key, item) :: items =>
    rw [snakeCaseDict, Json.mapKeysDict, snakeCaseValue_eq_mapKeys item, snakeCaseDict_eq_mapKeys items]

end

theorem snakeCased_eq_rekeyed (value : Json) : snakeCased value = value.rekeyed snakeKey := by
  rw [snakeCased, snakeCaseValue_eq_mapKeys, Json.rekeyed]

/-- Every leaf is there, under the public spelling of its path. -/
def KeepsLeaves (value : Json) : Prop := (snakeCased value).leaves = value.leaves.map (Json.renameLeaf snakeKey)

instance (value : Json) : Decidable (KeepsLeaves value) := inferInstanceAs (Decidable (_ = _))

/-- **Public spelling.** A value keeps every leaf, and is converted once and for all, exactly when no `dict`
    inside it has two keys with one public spelling and none of its keys has two capitals behind a small
    letter. -/
theorem snakeCased_lossless_iff (value : Json) :
    KeepsLeaves value ∧ snakeCased (snakeCased value) = snakeCased value
      ↔ ∀ d ∈ value.objects, (d.keys.map snakeKey).Nodup ∧ ∀ key ∈ d.keys, capitalRun key.toList = false := by
  have hleaves : KeepsLeaves value ↔ ∀ d ∈ value.objects, (d.keys.map snakeKey).Nodup := by
    rw [KeepsLeaves, snakeCased_eq_rekeyed, Json.leaves_rekeyed_iff]
  rw [hleaves, snakeCased_eq_rekeyed, snakeCased_eq_rekeyed]
  constructor
  · rintro ⟨hnodup, hagain⟩ d hd
    have hstable := (Json.rekeyed_rekeyed_iff hnodup).mp hagain d hd
    exact ⟨hnodup d hd, fun key hkey => (snakeKey_snakeKey_iff key).mp (hstable key hkey)⟩
  · intro h
    have hnodup (d : Dict) (hd : d ∈ value.objects) : (d.keys.map snakeKey).Nodup := (h d hd).1
    refine ⟨hnodup, (Json.rekeyed_rekeyed_iff hnodup).mpr fun d hd key hkey => ?_⟩
    exact (snakeKey_snakeKey_iff key).mpr ((h d hd).2 key hkey)

/-- The arguments of a tool call: two spellings of one name. -/
def spelledTwice : Json := .obj [("toolInput", .obj [("filePath", .str "a"), ("file_path", .str "b")])]

/-- The arguments of a tool call: a name with an acronym. -/
def acronymKey : Json := .obj [("toolInput", .obj [("userID", .int 7)])]

/-- Of the first arguments one is lost; the second ones are converted further. -/
theorem snakeCased_loses :
    ¬KeepsLeaves spelledTwice
      ∧ snakeCased spelledTwice = .obj [("tool_input", .obj [("file_path", .str "b")])]
      ∧ snakeCased acronymKey = .obj [("tool_input", .obj [("user_iD", .int 7)])]
      ∧ snakeCased (snakeCased acronymKey) ≠ snakeCased acronymKey := by
  decide +kernel

end AeloonRuntime
