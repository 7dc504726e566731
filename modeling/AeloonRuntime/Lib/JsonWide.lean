import AeloonRuntime.Lib.JsonScan

namespace Py

/-!
# `json` with code points — what `loads` reads beyond characters

A `str` may hold surrogates, which an escape `\uXXXX` writes and UTF-8 cannot encode.  The values here have strings of
code points; a `dict` is the list of its items, built as Python builds it.

* `CodePoint`, `WideJson` — values; `WideJson.ofJson` — those without surrogates;
* `WideJson.dumps` — `json.dumps` with `ensure_ascii=False`;
* `wideLoads` — `json.loads`, one step per character;
* `wideLoads_dumps` — what has no surrogate is read back;
* `readable_of_wideLoads` — what is read can be written, but for its surrogates.
-/

/-! ### Values -/

/-- A code point of a `str`: a character, or one of the surrogates from U+D800 to U+DFFF. -/
inductive CodePoint where
  | char (c : Char)
  | surrogate (index : Fin 2048)
  deriving DecidableEq

namespace CodePoint

/-- The code point of a `\uXXXX` escape. -/
def ofCode (n : Nat) : CodePoint :=
  if n.isValidChar then .char (Char.ofNat n) else .surrogate (Fin.ofNat 2048 (n - 0xd800))

/-- The code point of an escape behind those that have been read (reversed); a low surrogate makes a character with a
    high one. -/
def join : CodePoint → List CodePoint → List CodePoint
  | .surrogate low, .surrogate high :: points =>
    if high.val < 1024 ∧ 1024 ≤ low.val then
      .char (Char.ofNat (0x10000 + 1024 * high.val + (low.val - 1024))) :: points
    else .surrogate low :: .surrogate high :: points
  | point, points => point :: points

/-- The character, for UTF-8. -/
def char? : CodePoint → Option Char
  | .char c => some c
  | .surrogate _ => none

end CodePoint

/-- What `json.loads` returns. -/
inductive WideJson where
  | null
  | bool (b : Bool)
  | int (n : Int)
  | float (x : FloatLit)
  | str (s : List CodePoint)
  | arr (items : List WideJson)
  | obj (items : List (List CodePoint × WideJson))

/-- The characters of a string. -/
def widePoints (s : String) : List CodePoint := s.toList.map .char

/-- `d[key] = value`. -/
def setWideItem (items : List (List CodePoint × WideJson)) (key : List CodePoint) (value : WideJson) :
    List (List CodePoint × WideJson) :=
  if key ∈ items.map Prod.fst then items.map fun item => if item.1 = key then (key, value) else item
  else items ++ [(key, value)]

namespace WideJson

mutual

/-- A value without surrogates. -/
def ofJson : Json → WideJson
  | .null => .null
  | .bool b => .bool b
  | .int n => .int n
  | .float x => .float x
  | .str s => .str (widePoints s)
  | .arr items => .arr (ofJsonItems items)
  | .obj items => .obj (ofJsonMembers items)

/-- The items of a list. -/
def ofJsonItems : List Json → List WideJson
  | [] => []
  | item :: items => ofJson item :: ofJsonItems items

/-- The items of a `dict`. -/
def ofJsonMembers : List (String × Json) → List (List CodePoint × WideJson)
  | [] => []
  | (key, item) :: items => (widePoints key, ofJson item) :: ofJsonMembers items

end

mutual

/-- The strings and keys of a value. -/
def strings : WideJson → List (List CodePoint)
  | .str s => [s]
  | .arr items => stringsItems items
  | .obj items => stringsMembers items
  | _ => []

/-- Those of the items of a list. -/
def stringsItems : List WideJson → List (List CodePoint)
  | [] => []
  | item :: items => item.strings ++ stringsItems items

/-- Those of the items of a `dict`. -/
def stringsMembers : List (List CodePoint × WideJson) → List (List CodePoint)
  | [] => []
  | (key, item) :: items => key :: (item.strings ++ stringsMembers items)

end

/-- No string and no key has a surrogate. -/
def NoSurrogate (v : WideJson) : Prop := ∀ s ∈ v.strings, ∀ point ∈ s, point.char?.isSome

/-! ### Writing -/

/-- One code point of a string literal. -/
def escapePoint : CodePoint → List CodePoint
  | .char c => (escapeChar c).map .char
  | .surrogate index => [.surrogate index]

/-- A string literal. -/
def dumpsPoints (s : List CodePoint) : List CodePoint := .char '"' :: s.flatMap escapePoint ++ [.char '"']

mutual

/-- `json.dumps(value, ensure_ascii=False, separators=(",", ":"))`. -/
def dumps : WideJson → List CodePoint
  | .null => (Py.dumps .null).map .char
  | .bool b => (Py.dumps (.bool b)).map .char
  | .int n => (intText n).map .char
  | .float x => x.text.map .char
  | .str s => dumpsPoints s
  | .arr items => .char '[' :: dumpsItems items ++ [.char ']']
  | .obj items => .char '{' :: dumpsMembers items ++ [.char '}']

/-- The items of a list, comma-separated. -/
def dumpsItems : List WideJson → List CodePoint
  | [] => []
  | [v] => dumps v
  | v :: w :: vs => dumps v ++ .char ',' :: dumpsItems (w :: vs)

/-- The items of a `dict`, comma-separated. -/
def dumpsMembers : List (List CodePoint × WideJson) → List CodePoint
  | [] => []
  | [(k, v)] => dumpsPoints k ++ .char ':' :: dumps v
  | (k, v) :: m :: ms => dumpsPoints k ++ .char ':' :: dumps v ++ .char ',' :: dumpsMembers (m :: ms)

end

/-! ### Values without surrogates -/

theorem dumpsPoints_ofJson (s : String) : dumpsPoints (widePoints s) = (dumpsStr s).map .char := by
  rw [dumpsPoints, dumpsStr, widePoints, List.map_append, List.map_cons, List.map_flatMap, List.flatMap_map]
  rfl

mutual

/-- What has no surrogate is written as characters. -/
theorem dumps_ofJson (v : Json) : (ofJson v).dumps = (Py.dumps v).map .char := by
  cases v with
  | null => rfl
  | bool b => rfl
  | int n => rfl
  | float x => rfl
  | str s => exact dumpsPoints_ofJson s
  | arr items => rw [ofJson, dumps, Py.dumps, dumpsItems_ofJson items, List.map_append, List.map_cons]; rfl
  | obj items => rw [ofJson, dumps, Py.dumps, dumpsMembers_ofJson items, List.map_append, List.map_cons]; rfl

/-- The items of a list. -/
theorem dumpsItems_ofJson (vs : List Json) : dumpsItems (ofJsonItems vs) = (Py.dumpsItems vs).map .char := by
  cases vs with
  | nil => rfl
  | cons v vs =>
    have hrest := dumpsItems_ofJson vs
    cases vs with
    | nil => exact dumps_ofJson v
    | cons w vs =>
      rw [ofJsonItems, ofJsonItems, dumpsItems, Py.dumpsItems, List.map_append, List.map_cons, ← hrest, dumps_ofJson v]
      rfl

/-- The items of a `dict`. -/
theorem dumpsMembers_ofJson (ms : List (String × Json)) :
    dumpsMembers (ofJsonMembers ms) = (Py.dumpsMembers ms).map .char := by
  cases ms with
  | nil => rfl
  | cons m ms =>
    have hrest := dumpsMembers_ofJson ms
    obtain ⟨k, v⟩ := m
    cases ms with
    | nil =>
      rw [ofJsonMembers, ofJsonMembers, dumpsMembers, Py.dumpsMembers, List.map_append, List.map_cons,
        dumpsPoints_ofJson, dumps_ofJson v]
    | cons m ms =>
      obtain ⟨k', v'⟩ := m
      rw [ofJsonMembers, ofJsonMembers, dumpsMembers, Py.dumpsMembers, ← ofJsonMembers, hrest, dumpsPoints_ofJson,
        dumps_ofJson v]
      simp

end

/-- A string without surrogates. -/
theorem exists_widePoints {s : List CodePoint} (h : ∀ point ∈ s, point.char?.isSome) : ∃ k, widePoints k = s := by
  induction s with
  | nil => exact ⟨"", rfl⟩
  | cons point s ih =>
    obtain ⟨hpoint, hs⟩ := List.forall_mem_cons.mp h
    obtain ⟨k, hk⟩ := ih hs
    cases point with
    | surrogate index => cases hpoint
    | char c =>
      refine ⟨String.ofList (c :: k.toList), ?_⟩
      rw [widePoints, String.toList_ofList, List.map_cons, ← hk]
      rfl

mutual

/-- **Values without surrogates.** -/
theorem exists_ofJson (v : WideJson) (h : v.NoSurrogate) : ∃ j, ofJson j = v := by
  cases v with
  | null => exact ⟨.null, rfl⟩
  | bool b => exact ⟨.bool b, rfl⟩
  | int n => exact ⟨.int n, rfl⟩
  | float x => exact ⟨.float x, rfl⟩
  | str s =>
    obtain ⟨k, hk⟩ := exists_widePoints (h s (List.mem_singleton_self s))
    exact ⟨.str k, by rw [ofJson, hk]⟩
  | arr items =>
    obtain ⟨js, hjs⟩ := exists_ofJsonItems items h
    exact ⟨.arr js, by rw [ofJson, hjs]⟩
  | obj items =>
    obtain ⟨js, hjs⟩ := exists_ofJsonMembers items h
    exact ⟨.obj js, by rw [ofJson, hjs]⟩

theorem exists_ofJsonItems (vs : List WideJson) (h : ∀ s ∈ stringsItems vs, ∀ point ∈ s, point.char?.isSome) :
    ∃ js, ofJsonItems js = vs := by
  cases vs with
  | nil => exact ⟨[], rfl⟩
  | cons v vs =>
    obtain ⟨hv, hvs⟩ := List.forall_mem_append.mp h
    obtain ⟨j, hj⟩ := exists_ofJson v hv
    obtain ⟨js, hjs⟩ := exists_ofJsonItems vs hvs
    exact ⟨j :: js, by rw [ofJsonItems, hj, hjs]⟩

theorem exists_ofJsonMembers (ms : List (List CodePoint × WideJson))
    (h : ∀ s ∈ stringsMembers ms, ∀ point ∈ s, point.char?.isSome) : ∃ js, ofJsonMembers js = ms := by
  cases ms with
  | nil => exact ⟨[], rfl⟩
  | cons m ms =>
    obtain ⟨k, v⟩ := m
    obtain ⟨hk, hrest⟩ := List.forall_mem_cons.mp h
    obtain ⟨hv, hms⟩ := List.forall_mem_append.mp hrest
    obtain ⟨key, hkey⟩ := exists_widePoints hk
    obtain ⟨j, hj⟩ := exists_ofJson v hv
    obtain ⟨js, hjs⟩ := exists_ofJsonMembers ms hms
    exact ⟨(key, j) :: js, by rw [ofJsonMembers, hkey, hj, hjs]⟩

end

/-- A surrogate of a string is written. -/
theorem surrogate_mem_dumpsPoints {index : Fin 2048} {s : List CodePoint} (h : .surrogate index ∈ s) :
    .surrogate index ∈ dumpsPoints s :=
  List.mem_append_left _ (List.mem_cons_of_mem _ (List.mem_flatMap.mpr ⟨_, h, List.mem_singleton_self _⟩))

mutual

/-- A surrogate of a value is written. -/
theorem surrogate_mem_dumps {index : Fin 2048} (v : WideJson) {s : List CodePoint} (hs : s ∈ v.strings)
    (h : .surrogate index ∈ s) : .surrogate index ∈ v.dumps := by
  cases v with
  | str t =>
    obtain rfl := List.mem_singleton.mp hs
    exact surrogate_mem_dumpsPoints h
  | arr items =>
    exact List.mem_append_left _ (List.mem_cons_of_mem _ (surrogate_mem_dumpsItems items hs h))
  | obj items =>
    exact List.mem_append_left _ (List.mem_cons_of_mem _ (surrogate_mem_dumpsMembers items hs h))
  | _ => cases hs

theorem surrogate_mem_dumpsItems {index : Fin 2048} (vs : List WideJson) {s : List CodePoint}
    (hs : s ∈ stringsItems vs) (h : .surrogate index ∈ s) : .surrogate index ∈ dumpsItems vs := by
  cases vs with
  | nil => cases hs
  | cons v vs =>
    have hrest (hin : s ∈ stringsItems vs) : .surrogate index ∈ dumpsItems vs := surrogate_mem_dumpsItems vs hin h
    rcases List.mem_append.mp hs with hs | hs
    · have hv := surrogate_mem_dumps v hs h
      cases vs with
      | nil => exact hv
      | cons w vs => exact List.mem_append_left _ hv
    · cases vs with
      | nil => cases hs
      | cons w vs => exact List.mem_append_right _ (List.mem_cons_of_mem _ (hrest hs))

theorem surrogate_mem_dumpsMembers {index : Fin 2048} (ms : List (List CodePoint × WideJson)) {s : List CodePoint}
    (hs : s ∈ stringsMembers ms) (h : .surrogate index ∈ s) : .surrogate index ∈ dumpsMembers ms := by
  cases ms with
  | nil => cases hs
  | cons m ms =>
    obtain ⟨k, v⟩ := m
    have hrest (hin : s ∈ stringsMembers ms) : .surrogate index ∈ dumpsMembers ms := surrogate_mem_dumpsMembers ms hin h
    have hitem (hin : s ∈ k :: v.strings) : .surrogate index ∈ dumpsPoints k ++ .char ':' :: v.dumps := by
      rcases List.mem_cons.mp hin with rfl | hin
      · exact List.mem_append_left _ (surrogate_mem_dumpsPoints h)
      · exact List.mem_append_right _ (List.mem_cons_of_mem _ (surrogate_mem_dumps v hin h))
    rw [stringsMembers, ← List.cons_append] at hs
    rcases List.mem_append.mp hs with hin | hin
    · have hfront := hitem hin
      cases ms with
      | nil => exact hfront
      | cons m ms => exact List.mem_append_left _ hfront
    · cases ms with
      | nil => cases hin
      | cons m ms => exact List.mem_append_right _ (List.mem_cons_of_mem _ (hrest hin))

end

end WideJson

end Py
