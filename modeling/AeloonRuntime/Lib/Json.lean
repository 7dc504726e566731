import AeloonRuntime.Lib.Text
import Mathlib.Algebra.Ring.Int.Defs
import Mathlib.Algebra.Ring.Nat
import Mathlib.Data.List.Basic

namespace Py

/-!
# `json` — values, `dumps` and `loads`

The JSON values Python's `json` module reads and writes, with `json.dumps` (as called with
`ensure_ascii=False, separators=(",", ":")`) and `json.loads`.

* a `dict` is the list of its items in writing order; `get` answers with the last item of a key,
  as a `dict` built from those items would;
* a `float` is kept as the text `float.__repr__` writes for it (`FloatLit`);
* `loads` is the scanner `Scan`: one step per character over a stack of open containers, so
  that what is read of a text is a function of what was read of its prefix.

A `\uXXXX` escape of a surrogate, which `dumps` with `ensure_ascii=False` never writes, reads as
U+FFFD here: a `Char` cannot hold it.
-/

/-! ### Numbers -/

/-- The characters a bare word (a number or a constant) is made of. -/
def isWordChar (c : Char) : Bool := c.isAlphanum || c = '-' || c = '+' || c = '.'

/-- `0|[1-9]\d*`. -/
def isNatText : List Char → Bool
  | [] => false
  | c :: cs => if c = '0' then cs.isEmpty else c.isDigit && cs.all Char.isDigit

/-- The text without its leading minus. -/
def dropMinus : List Char → List Char
  | '-' :: cs => cs
  | cs => cs

/-- `-?(0|[1-9]\d*)`. -/
def isIntText (w : List Char) : Bool := isNatText (dropMinus w)

/-- `[eE][-+]?\d+`. -/
def isExponentText : List Char → Bool
  | [] => false
  | e :: cs =>
    let digits := match cs with
      | '+' :: ds => ds
      | '-' :: ds => ds
      | ds => ds
    (e = 'e' || e = 'E') && !digits.isEmpty && digits.all Char.isDigit

/-- `(\.\d+)?([eE][-+]?\d+)?`, not empty. -/
def isFractionText : List Char → Bool
  | '.' :: cs =>
    !(cs.takeWhile Char.isDigit).isEmpty
      && ((cs.dropWhile Char.isDigit).isEmpty || isExponentText (cs.dropWhile Char.isDigit))
  | cs => isExponentText cs

/-- What the scanner reads as a `float`: a number with a fraction or an exponent, or one of the
    constants `NaN`, `Infinity`, `-Infinity`. -/
def isFloatText (w : List Char) : Bool :=
  w.all isWordChar
    && (isNatText ((dropMinus w).takeWhile Char.isDigit)
          && isFractionText ((dropMinus w).dropWhile Char.isDigit)
        || w = ['N', 'a', 'N'] || dropMinus w = ['I', 'n', 'f', 'i', 'n', 'i', 't', 'y'])

/-- A `float`, as the text it is written with. -/
structure FloatLit where
  /-- What `float.__repr__` writes. -/
  text : List Char
  /-- The scanner reads that text as a `float`. -/
  valid : isFloatText text = true
  deriving DecidableEq

/-- `int.__repr__`. -/
def intText : Int → List Char
  | .ofNat n => Nat.toDigits 10 n
  | .negSucc n => '-' :: Nat.toDigits 10 (n + 1)

/-- `int(text)` of a decimal numeral. -/
def intOfText : List Char → Int
  | '-' :: cs => -(Nat.ofDigitChars 10 cs 0 : Int)
  | cs => (Nat.ofDigitChars 10 cs 0 : Int)

/-! ### Values and `dumps` -/

/-- A JSON value. -/
inductive Json where
  | null
  | bool (b : Bool)
  | int (n : Int)
  | float (x : FloatLit)
  | str (s : String)
  | arr (items : List Json)
  | obj (items : List (String × Json))

/-- A lower-case hexadecimal digit. -/
def hexDigit (n : Nat) : Char := n.digitChar

/-- One character of a string literal, as `ensure_ascii=False` escapes it. -/
def escapeChar (c : Char) : List Char :=
  if c = '"' then ['\\', '"']
  else if c = '\\' then ['\\', '\\']
  else if c = '\n' then ['\\', 'n']
  else if c = '\r' then ['\\', 'r']
  else if c = '\t' then ['\\', 't']
  else if c = '\x08' then ['\\', 'b']
  else if c = '\x0c' then ['\\', 'f']
  else if c.toNat < 0x20 then
    ['\\', 'u', '0', '0', hexDigit (c.toNat / 16), hexDigit (c.toNat % 16)]
  else [c]

/-- A string literal. -/
def dumpsStr (s : String) : List Char := '"' :: s.toList.flatMap escapeChar ++ ['"']

mutual

/-- `json.dumps(value, ensure_ascii=False, separators=(",", ":"))`. -/
def dumps : Json → List Char
  | .null => ['n', 'u', 'l', 'l']
  | .bool true => ['t', 'r', 'u', 'e']
  | .bool false => ['f', 'a', 'l', 's', 'e']
  | .int n => intText n
  | .float x => x.text
  | .str s => dumpsStr s
  | .arr items => '[' :: dumpsItems items ++ [']']
  | .obj items => '{' :: dumpsMembers items ++ ['}']

/-- The items of a list, comma-separated. -/
def dumpsItems : List Json → List Char
  | [] => []
  | [v] => dumps v
  | v :: w :: vs => dumps v ++ ',' :: dumpsItems (w :: vs)

/-- The items of a `dict`, comma-separated. -/
def dumpsMembers : List (String × Json) → List Char
  | [] => []
  | [(k, v)] => dumpsStr k ++ ':' :: dumps v
  | (k, v) :: m :: ms => dumpsStr k ++ ':' :: dumps v ++ ',' :: dumpsMembers (m :: ms)

end

mutual

/-- `json.dumps(value, ensure_ascii=False)`: the default separators `", "` and `": "`. -/
def dumpsDefault : Json → List Char
  | .arr items => '[' :: dumpsDefaultItems items ++ [']']
  | .obj items => '{' :: dumpsDefaultMembers items ++ ['}']
  | .null => dumps .null
  | .bool b => dumps (.bool b)
  | .int n => dumps (.int n)
  | .float x => dumps (.float x)
  | .str s => dumpsStr s

/-- The items of a list, separated by `", "`. -/
def dumpsDefaultItems : List Json → List Char
  | [] => []
  | [v] => dumpsDefault v
  | v :: w :: vs => dumpsDefault v ++ ',' :: ' ' :: dumpsDefaultItems (w :: vs)

/-- The items of a `dict`, separated by `", "`. -/
def dumpsDefaultMembers : List (String × Json) → List Char
  | [] => []
  | [(k, v)] => dumpsStr k ++ ':' :: ' ' :: dumpsDefault v
  | (k, v) :: m :: ms =>
    dumpsStr k ++ ':' :: ' ' :: dumpsDefault v ++ ',' :: ' ' :: dumpsDefaultMembers (m :: ms)

end

/-! ### Values as Python objects -/

/-- A `dict`, as the list of its items. -/
abbrev Dict := List (String × Json)

namespace Dict

/-- `d.get(key)`: the last item of a key is the one that counts. -/
def get (d : Dict) (key : String) : Option Json :=
  (d.reverse.find? fun item => item.1 = key).map Prod.snd

/-- `d.get(key)`, with `None` for a missing key. -/
def getD (d : Dict) (key : String) : Json := (d.get key).getD .null

/-- `key in d`. -/
def contains (d : Dict) (key : String) : Bool := (d.get key).isSome

@[simp] theorem get_nil (key : String) : get [] key = none := rfl

/-- The first item answers only for a key that no later item has. -/
theorem get_cons (k : String) (v : Json) (d : Dict) (key : String) :
    get ((k, v) :: d) key = (get d key).or (if k = key then some v else none) := by
  simp only [get, List.reverse_cons, List.find?_append]
  cases hd : d.reverse.find? fun item => decide (item.1 = key) with
  | some item => simp
  | none =>
    by_cases hk : k = key
    · simp [hk]
    · simp [hk]

/-- Later items answer first. -/
theorem get_append (d e : Dict) (key : String) : get (d ++ e) key = (get e key).or (get d key) := by
  simp only [get, List.reverse_append, List.find?_append]
  cases e.reverse.find? fun item => decide (item.1 = key) <;> simp

/-- `d[key] = value`: a key keeps its place. -/
def setItem (d : Dict) (key : String) (value : Json) : Dict :=
  if d.contains key then d.map fun item => if item.1 = key then (key, value) else item
  else d ++ [(key, value)]

/-- `{**d, **e}`. -/
def merge (d e : Dict) : Dict := e.foldl (fun d item => d.setItem item.1 item.2) d

theorem get_replace (d : Dict) (k : String) (value : Json) (key : String) :
    get (d.map fun item => if item.1 = k then (k, value) else item) key
      = if key = k then (get d k).map fun _ => value else get d key := by
  induction d with
  | nil => simp
  | cons item d ih =>
    obtain ⟨k', v⟩ := item
    rw [List.map_cons]
    by_cases hk : k' = k
    · subst hk
      rw [if_pos rfl, get_cons, get_cons, get_cons, ih]
      by_cases hkey : key = k'
      · subst hkey
        cases get d key <;> simp
      · simp [hkey, Ne.symm hkey]
    · rw [if_neg hk, get_cons, get_cons, get_cons, ih]
      by_cases hkey : key = k
      · subst hkey
        cases get d key <;> simp [hk]
      · simp [hkey]

/-- `d[key] = value`, read back. -/
theorem get_setItem (d : Dict) (k : String) (value : Json) (key : String) :
    get (d.setItem k value) key = if key = k then some value else get d key := by
  rw [setItem, contains]
  by_cases hk : (get d k).isSome
  · obtain ⟨v, hv⟩ := Option.isSome_iff_exists.mp hk
    rw [if_pos hk, get_replace, hv]
    rfl
  · rw [if_neg hk, get_append, get_cons]
    by_cases hkey : key = k
    · simp [hkey]
    · simp [hkey, Ne.symm hkey]

/-- The items of the second one answer first. -/
theorem get_merge (d e : Dict) (key : String) : get (d.merge e) key = (get e key).or (get d key) := by
  induction e generalizing d with
  | nil => rfl
  | cons item e ih =>
    obtain ⟨k, v⟩ := item
    show get ((d.setItem k v).merge e) key = _
    rw [ih, get_setItem, get_cons]
    by_cases hkey : key = k
    · simp [hkey]
    · simp [hkey, Ne.symm hkey]

end Dict

/-- The digits of a number text: its sign, mantissa and power of ten. -/
def decimalOf (w : List Char) : Int × Int :=
  let digits := dropMinus w
  let whole := digits.takeWhile Char.isDigit
  let rest := digits.dropWhile Char.isDigit
  let fraction := match rest with
    | '.' :: cs => cs.takeWhile Char.isDigit
    | _ => []
  let exponent := match (rest.dropWhile fun c => c = '.' || c.isDigit) with
    | _ :: '+' :: cs => intOfText cs
    | _ :: cs => intOfText cs
    | [] => 0
  let mantissa : Int := Nat.ofDigitChars 10 (whole ++ fraction) 0
  (if w.head? = some '-' then -mantissa else mantissa, exponent - fraction.length)

/-- Whether a `float` is a number (and not `NaN` or an infinity). -/
def FloatLit.isFinite (x : FloatLit) : Bool := (dropMinus x.text).head?.any Char.isDigit

namespace Json

/-- `bool(value)`. -/
def truthy : Json → Bool
  | .null => false
  | .bool b => b
  | .int n => n ≠ 0
  | .float x => !x.isFinite || (decimalOf x.text).1 ≠ 0
  | .str s => s ≠ ""
  | .arr items => !items.isEmpty
  | .obj items => !items.isEmpty

/-- `str(value)`; a list or `dict` is written as its JSON text here. -/
def pyStr : Json → String
  | .null => "None"
  | .bool true => "True"
  | .bool false => "False"
  | .int n => String.ofList (intText n)
  | .float x => String.ofList x.text
  | .str s => s
  | .arr items => String.ofList (dumpsDefault (.arr items))
  | .obj items => String.ofList (dumpsDefault (.obj items))

/-- `str(value or default)`. -/
def strOr (value : Json) (default : String) : String := if value.truthy then value.pyStr else default

/-- The items, if the value is a `dict`. -/
def asDict? : Json → Option Dict
  | .obj items => some items
  | _ => none

/-- The string, if the value is a `str`. -/
def asStr? : Json → Option String
  | .str s => some s
  | _ => none

/-- `int(value)`; `none` where Python raises. -/
def toInt? : Json → Option Int
  | .int n => some n
  | .bool b => some (if b then 1 else 0)
  | .float x =>
    if x.isFinite then
      let (m, e) := decimalOf x.text
      some (if 0 ≤ e then m * 10 ^ e.toNat else m.tdiv (10 ^ (-e).toNat))
    else none
  | .str s => if isIntText s.toList then some (intOfText s.toList) else none
  | _ => none

/-- `value == n`. -/
def eqInt (value : Json) (n : Int) : Bool :=
  match value with
  | .int m => m = n
  | .bool b => (if b then 1 else 0) = n
  | .float x =>
    let (m, e) := decimalOf x.text
    x.isFinite && (if 0 ≤ e then m * 10 ^ e.toNat = n else m = n * 10 ^ (-e).toNat)
  | _ => false

@[simp] theorem pyStr_str (s : String) : (Json.str s).pyStr = s := rfl
@[simp] theorem truthy_str (s : String) : (Json.str s).truthy = decide (s ≠ "") := rfl
@[simp] theorem truthy_null : Json.null.truthy = false := rfl
@[simp] theorem truthy_arr (items : List Json) : (Json.arr items).truthy = !items.isEmpty := rfl

/-- Changes what stands at a path of keys. -/
def modifyAt : List String → (Json → Json) → Json → Json
  | [], f, value => f value
  | key :: path, f, .obj items =>
    .obj (items.map fun item => if item.1 = key then (item.1, modifyAt path f item.2) else item)
  | _ :: _, _, value => value

end Json

namespace Dict

/-- The `dict` at a key. -/
def sub (d : Dict) (key : String) : Dict := ((d.getD key).asDict?).getD []

/-- `Json.modifyAt`, of a `dict`. -/
def modify (d : Dict) (path : List String) (f : Json → Json) : Dict :=
  ((Json.modifyAt path f (.obj d)).asDict?).getD d

end Dict

end Py
