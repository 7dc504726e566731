import Mathlib.Data.List.Basic
import Mathlib.Tactic.Common

namespace Py

/-!
# Regular expressions — the part of `re` that redaction uses

`re` tries the ways to match one after the other, and the first one counts.  `Regex.ends` lists where the ways end,
in that order; a place in a text is the character in front of it and what is left of the text.

* `Regex.search` — `pattern.search(text)`;
* `Regex.sub` — `pattern.sub(replacement, text)`, the replacement made from the first group.

A pattern matches at least one character here.
-/

/-- A pattern. -/
inductive Regex where
  /-- One character of a class. -/
  | one (p : Char → Bool)
  /-- `[…]*`. -/
  | many (p : Char → Bool)
  /-- One pattern behind the other. -/
  | seq (a b : Regex)
  /-- `a|b`. -/
  | alt (a b : Regex)
  /-- `(?:a)?`. -/
  | opt (a : Regex)
  /-- `\b`, with the characters of words. -/
  | boundary (isWord : Char → Bool)
  /-- `^`. -/
  | start
  /-- `$`. -/
  | stop

/-- The lower case of a character under `re.IGNORECASE`: four characters above ASCII are letters of ASCII too. -/
def foldChar (c : Char) : Char :=
  if c = '\u0130' ∨ c = '\u0131' then 'i'
  else if c = '\u017f' then 's'
  else if c = '\u212a' then 'k'
  else c.toLower

/-- Where `[…]*` ends, the longest way first. -/
def manyEnds (p : Char → Bool) (before : Option Char) : List Char → List (Option Char × List Char)
  | [] => [(before, [])]
  | c :: cs => if p c then manyEnds p (some c) cs ++ [(before, c :: cs)] else [(before, c :: cs)]

namespace Regex

/-- Where the ways to match end. -/
def ends : Regex → Option Char → List Char → List (Option Char × List Char)
  | one p, _, c :: cs => if p c then [(Option.some c, cs)] else []
  | one _, _, [] => []
  | many p, before, text => manyEnds p before text
  | seq a b, before, text => (a.ends before text).flatMap fun place => b.ends place.1 place.2
  | alt a b, before, text => a.ends before text ++ b.ends before text
  | opt a, before, text => a.ends before text ++ [(before, text)]
  | boundary isWord, before, text => if before.any isWord ≠ text.head?.any isWord then [(before, text)] else []
  | start, before, text => if before.isNone then [(before, text)] else []
  | stop, before, text => if text = [] ∨ text = ['\n'] then [(before, text)] else []

/-- The empty pattern. -/
def empty : Regex := opt (one fun _ => false)

/-- `[…]+`. -/
def some (p : Char → Bool) : Regex := seq (one p) (many p)

/-- The letters of a word, under `re.IGNORECASE`. -/
def word (letters : List Char) : Regex := letters.foldr (fun c r => seq (one fun d => foldChar d = c) r) empty

/-- `a|b|…`. -/
def oneOf (patterns : List Regex) : Regex := patterns.foldr alt (one fun _ => false)

/-- `pattern.search(text)`. -/
def search (r : Regex) (before : Option Char) : List Char → Bool
  | [] => !(r.ends before []).isEmpty
  | c :: cs => !(r.ends before (c :: cs)).isEmpty || r.search (Option.some c) cs

/-- The first match at a place, with its first group: the text of the group, and what is left of the text. -/
def firstMatch (group rest : Regex) (before : Option Char) (text : List Char) : Option (List Char × List Char) :=
  (((group.ends before text).flatMap fun place =>
    (rest.ends place.1 place.2).map fun last => (text.take (text.length - place.2.length), last.2))).head?

/-- `pattern.sub(…, text)`, with the pattern's first group; `skip` characters belong to a match already. -/
def sub (group rest : Regex) (put : List Char → List Char) (before : Option Char) (skip : Nat) :
    List Char → List Char
  | [] => []
  | c :: cs =>
    if 0 < skip then sub group rest put (Option.some c) (skip - 1) cs
    else
      match firstMatch group rest before (c :: cs) with
      | Option.some (found, left) => put found ++ sub group rest put (Option.some c) (cs.length - left.length) cs
      | none => c :: sub group rest put (Option.some c) 0 cs

end Regex

end Py
