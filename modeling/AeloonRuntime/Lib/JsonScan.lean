import AeloonRuntime.Lib.Json
import Mathlib.Data.List.TakeWhile
import Mathlib.Order.Basic

namespace Py

/-!
# `json.loads` as a scanner

`Scan.step` reads one character; `loads` folds it over a text and asks whether one value was
read to its end.  The open containers stand on a stack, so a text is cut anywhere without losing
what was read before the cut:

* `dumps_runs` — the text of a value takes the scanner from "a value may start here" to "that
  value has been read", and never closes a container that was open before (`Runs`);
* `loads_dumps` — hence `loads` inverts `dumps`;
* `loads_of_torn` — a proper prefix of the text of a `dict` or `list` is not JSON.
-/

/-! ### The scanner -/

/-- How far an escape inside a string literal has been read. -/
inductive Escape where
  /-- Not inside an escape. -/
  | none
  /-- Behind a backslash. -/
  | backslash
  /-- Inside `\uXXXX`, with digits still to come and the code read so far. -/
  | unicode (left code : Nat)
  deriving DecidableEq

/-- What the scanner expects of the next character. -/
inductive Expect where
  /-- A value. -/
  | value
  /-- A value or the end of an empty list. -/
  | valueOrClose
  /-- A key or the end of an empty `dict`. -/
  | keyOrClose
  /-- A key. -/
  | key
  /-- The colon behind a key. -/
  | colon
  /-- A comma, the end of the innermost container, or the end of the text. -/
  | next
  /-- More of a string literal, of which `acc` (reversed) has been read. -/
  | string (isKey : Bool) (acc : List Char) (esc : Escape)
  /-- More of a bare word, of which `acc` (reversed) has been read. -/
  | word (acc : List Char)
  deriving DecidableEq

/-- An open container, its items reversed; a `dict` with the key that waits for its value. -/
inductive Frame where
  | arr (items : List Json)
  | obj (items : List (String × Json)) (key : String)

/-- A scanner state: the innermost container is at the top of the stack; `result` is the value
    read outside every container. -/
structure Scan where
  expect : Expect
  stack : List Frame
  result : Option Json

/-- Before the first character. -/
def Scan.start : Scan := ⟨.value, [], none⟩

/-- A value has been read: it goes into the innermost container. -/
def Scan.push (v : Json) : List Frame → Scan
  | [] => ⟨.next, [], some v⟩
  | .arr items :: fs => ⟨.next, .arr (v :: items) :: fs, none⟩
  | .obj items key :: fs => ⟨.next, .obj ((key, v) :: items) "" :: fs, none⟩

/-- The value of a bare word. -/
def wordValue (w : List Char) : Option Json :=
  if h : isFloatText w = true then some (.float ⟨w, h⟩)
  else if isIntText w then some (.int (intOfText w))
  else if w = ['n', 'u', 'l', 'l'] then some .null
  else if w = ['t', 'r', 'u', 'e'] then some (.bool true)
  else if w = ['f', 'a', 'l', 's', 'e'] then some (.bool false)
  else none

/-- JSON whitespace. -/
def isJsonSpace (c : Char) : Bool := c = ' ' || c = '\t' || c = '\n' || c = '\r'

/-- The character that `\c` stands for. -/
def simpleEscape (c : Char) : Option Char :=
  if c = '"' then some '"'
  else if c = '\\' then some '\\'
  else if c = '/' then some '/'
  else if c = 'b' then some '\x08'
  else if c = 'f' then some '\x0c'
  else if c = 'n' then some '\n'
  else if c = 'r' then some '\r'
  else if c = 't' then some '\t'
  else none

/-- The value of a hexadecimal digit. -/
def hexValue (c : Char) : Option Nat :=
  if c.isDigit then some (c.toNat - 48)
  else if 97 ≤ c.toNat ∧ c.toNat ≤ 102 then some (c.toNat - 87)
  else if 65 ≤ c.toNat ∧ c.toNat ≤ 70 then some (c.toNat - 55)
  else none

/-- The character of a `\uXXXX` code; U+FFFD for a surrogate. -/
def charOfCode (n : Nat) : Char := if n.isValidChar then Char.ofNat n else '\ufffd'

/-- The first character of a value. -/
def Scan.beginValue (c : Char) (stack : List Frame) : Option Scan :=
  if c = '"' then some ⟨.string false [] .none, stack, none⟩
  else if c = '{' then some ⟨.keyOrClose, .obj [] "" :: stack, none⟩
  else if c = '[' then some ⟨.valueOrClose, .arr [] :: stack, none⟩
  else if isWordChar c then some ⟨.word [c], stack, none⟩
  else none

/-- A character behind a value: `,` or the end of the innermost container. -/
def Scan.afterValue (c : Char) : List Frame → Option Scan
  | .arr items :: fs =>
    if c = ',' then some ⟨.value, .arr items :: fs, none⟩
    else if c = ']' then some (Scan.push (.arr items.reverse) fs)
    else none
  | .obj items key :: fs =>
    if c = ',' then some ⟨.key, .obj items key :: fs, none⟩
    else if c = '}' then some (Scan.push (.obj items.reverse) fs)
    else none
  | [] => none

/-- A character outside strings and words. -/
def Scan.stepOutside (s : Scan) (c : Char) : Option Scan :=
  if isJsonSpace c then some s
  else
    match s.expect with
    | .value => Scan.beginValue c s.stack
    | .valueOrClose =>
      if c = ']' then
        match s.stack with
        | .arr items :: fs => some (Scan.push (.arr items.reverse) fs)
        | _ => none
      else Scan.beginValue c s.stack
    | .keyOrClose =>
      if c = '"' then some ⟨.string true [] .none, s.stack, none⟩
      else if c = '}' then
        match s.stack with
        | .obj items _ :: fs => some (Scan.push (.obj items.reverse) fs)
        | _ => none
      else none
    | .key => if c = '"' then some ⟨.string true [] .none, s.stack, none⟩ else none
    | .colon => if c = ':' then some ⟨.value, s.stack, none⟩ else none
    | .next => Scan.afterValue c s.stack
    | .string .. => none
    | .word _ => none

/-- The end of a string literal: a key waits for its colon, a value is read. -/
def Scan.closeString (isKey : Bool) (acc : List Char) (stack : List Frame) : Option Scan :=
  if isKey then
    match stack with
    | .obj items _ :: fs => some ⟨.colon, .obj items (String.ofList acc.reverse) :: fs, none⟩
    | _ => none
  else some (Scan.push (.str (String.ofList acc.reverse)) stack)

/-- A character inside a string literal. -/
def Scan.stepString (stack : List Frame) (isKey : Bool) (acc : List Char) (esc : Escape)
    (c : Char) : Option Scan :=
  match esc with
  | .none =>
    if c = '"' then Scan.closeString isKey acc stack
    else if c = '\\' then some ⟨.string isKey acc .backslash, stack, none⟩
    else if c.toNat < 0x20 then none
    else some ⟨.string isKey (c :: acc) .none, stack, none⟩
  | .backslash =>
    if c = 'u' then some ⟨.string isKey acc (.unicode 4 0), stack, none⟩
    else (simpleEscape c).map fun d => ⟨.string isKey (d :: acc) .none, stack, none⟩
  | .unicode left code =>
    (hexValue c).map fun d =>
      if left ≤ 1 then ⟨.string isKey (charOfCode (16 * code + d) :: acc) .none, stack, none⟩
      else ⟨.string isKey acc (.unicode (left - 1) (16 * code + d)), stack, none⟩

/-- One character. -/
def Scan.step (s : Scan) (c : Char) : Option Scan :=
  match s.expect with
  | .string isKey acc esc => Scan.stepString s.stack isKey acc esc c
  | .word acc =>
    if isWordChar c then some ⟨.word (c :: acc), s.stack, none⟩
    else (wordValue acc.reverse).bind fun v => (Scan.push v s.stack).stepOutside c
  | _ => s.stepOutside c

/-- A text, character by character. -/
def Scan.run (s : Scan) (text : List Char) : Option Scan := text.foldlM Scan.step s

/-- The value, if the text ends where one has been read. -/
def Scan.finish (s : Scan) : Option Json :=
  match s.stack, s.expect with
  | [], .next => s.result
  | [], .word acc => wordValue acc.reverse
  | _, _ => none

/-- `json.loads(text)`; `none` is `JSONDecodeError`. -/
def loads (text : List Char) : Option Json := (Scan.start.run text).bind Scan.finish

/-! ### Runs

`Runs d s text s'`: reading `text` takes the scanner from `s` to `s'`, and at no point on the
way are fewer than `d` containers open. -/

/-- The number of open containers. -/
abbrev Scan.depth (s : Scan) : Nat := s.stack.length

/-- A run of the scanner that keeps at least `d` containers open. -/
inductive Runs (d : Nat) : Scan → List Char → Scan → Prop where
  | nil {s : Scan} (h : d ≤ s.depth) : Runs d s [] s
  | cons {s t u : Scan} {c : Char} {cs : List Char} (h : d ≤ s.depth)
      (hstep : s.step c = some t) (hrest : Runs d t cs u) : Runs d s (c :: cs) u

namespace Runs

variable {d e : Nat} {s s₁ s₂ s₃ : Scan} {c : Char} {xs ys : List Char}

/-- One character. -/
theorem single (h : d ≤ s.depth) (hstep : s.step c = some s₁) (h₁ : d ≤ s₁.depth) :
    Runs d s [c] s₁ :=
  .cons h hstep (.nil h₁)

/-- Runs compose. -/
theorem append (h₁ : Runs d s₁ xs s₂) (h₂ : Runs d s₂ ys s₃) : Runs d s₁ (xs ++ ys) s₃ := by
  induction h₁ with
  | nil _ => exact h₂
  | cons h hstep _ ih => exact .cons h hstep (ih h₂)

/-- A run that keeps more containers open keeps fewer open too. -/
theorem mono (hde : e ≤ d) (h : Runs d s xs s₁) : Runs e s xs s₁ := by
  induction h with
  | nil h => exact .nil (by omega)
  | cons h hstep _ ih => exact .cons (by omega) hstep ih

/-- A run reaches what `Scan.run` computes. -/
theorem run_eq (h : Runs d s xs s₁) : s.run xs = some s₁ := by
  induction h with
  | nil _ => rfl
  | cons _ hstep _ ih => simpa [Scan.run, hstep] using ih

/-- The containers are open where the run starts and where it ends. -/
theorem depth_le (h : Runs d s xs s₁) : d ≤ s.depth ∧ d ≤ s₁.depth := by
  induction h with
  | nil h => exact ⟨h, h⟩
  | cons h _ _ ih => exact ⟨h, ih.2⟩

/-- Every prefix of a run is a run. -/
theorem prefix_of_append (h : Runs d s (xs ++ ys) s₂) : ∃ s', Runs d s xs s' := by
  induction xs generalizing s with
  | nil => exact ⟨s, .nil h.depth_le.1⟩
  | cons c xs ih =>
    cases h with
    | cons hd hstep hrest =>
      obtain ⟨s', hs'⟩ := ih hrest
      exact ⟨s', .cons hd hstep hs'⟩

end Runs

/-! ### Reading what `dumps` wrote -/

/-- The scanner treats `s` and `t` alike at the end of the text and before every character that
    can follow a value: a number may still be unfinished in `s` and is a value in `t`. -/
def Scan.Settles (s t : Scan) : Prop :=
  (∀ c, isWordChar c = false → s.step c = t.step c) ∧ s.finish = t.finish ∧ s.depth = t.depth

theorem Scan.Settles.refl (s : Scan) : s.Settles s := ⟨fun _ _ => rfl, rfl, rfl⟩

@[simp] theorem Scan.depth_push (v : Json) (stack : List Frame) :
    (Scan.push v stack).depth = stack.length := by
  rcases stack with _ | ⟨_ | _, fs⟩ <;> rfl

@[simp] theorem Scan.step_push (v : Json) (stack : List Frame) (c : Char) :
    (Scan.push v stack).step c = (Scan.push v stack).stepOutside c := by
  rcases stack with _ | ⟨_ | _, fs⟩ <;> rfl

/-- An unfinished word is as good as its value. -/
theorem Scan.settles_word {acc : List Char} {v : Json} (stack : List Frame)
    (hv : wordValue acc.reverse = some v) :
    Scan.Settles ⟨.word acc, stack, none⟩ (Scan.push v stack) := by
  refine ⟨?_, ?_, (Scan.depth_push v stack).symm⟩
  · intro c hc
    simp only [Scan.step_push]
    simp [Scan.step, hc, hv]
  · rcases stack with _ | ⟨_ | _, fs⟩ <;> simp [Scan.finish, Scan.push, hv]

theorem hexValue_hexDigit : ∀ n < 16, hexValue (hexDigit n) = some n := by decide

@[simp] theorem charOfCode_toNat (c : Char) : charOfCode c.toNat = c := by
  have hvalid : c.toNat.isValidChar := c.valid
  simp [charOfCode, hvalid]

/-- The escape of a character reads back as that character. -/
theorem escapeChar_runs (isKey : Bool) (acc : List Char) (stack : List Frame) (c : Char) :
    Runs stack.length ⟨.string isKey acc .none, stack, none⟩ (escapeChar c)
      ⟨.string isKey (c :: acc) .none, stack, none⟩ := by
  have two : ∀ d, simpleEscape d = some c → d ≠ 'u' →
      Runs stack.length ⟨.string isKey acc .none, stack, none⟩ ['\\', d]
        ⟨.string isKey (c :: acc) .none, stack, none⟩ := by
    intro d hd hu
    refine .cons (Nat.le_refl _) (t := ⟨.string isKey acc .backslash, stack, none⟩) rfl
      (.single (Nat.le_refl _) ?_ (Nat.le_refl _))
    simp [Scan.step, Scan.stepString, hd, hu]
  unfold escapeChar
  split_ifs with h1 h2 h3 h4 h5 h6 h7 h8
  · exact two '"' (by subst h1; rfl) (by decide)
  · exact two '\\' (by subst h2; rfl) (by decide)
  · exact two 'n' (by subst h3; rfl) (by decide)
  · exact two 'r' (by subst h4; rfl) (by decide)
  · exact two 't' (by subst h5; rfl) (by decide)
  · exact two 'b' (by subst h6; rfl) (by decide)
  · exact two 'f' (by subst h7; rfl) (by decide)
  · have hhi := hexValue_hexDigit (c.toNat / 16) (by omega)
    have hlo := hexValue_hexDigit (c.toNat % 16) (by omega)
    have hcode : 16 * (c.toNat / 16) + c.toNat % 16 = c.toNat := Nat.div_add_mod _ _
    refine .cons (Nat.le_refl _) (t := ⟨.string isKey acc .backslash, stack, none⟩) rfl ?_
    refine .cons (Nat.le_refl _) (t := ⟨.string isKey acc (.unicode 4 0), stack, none⟩) rfl ?_
    refine .cons (Nat.le_refl _) (t := ⟨.string isKey acc (.unicode 3 0), stack, none⟩) rfl ?_
    refine .cons (Nat.le_refl _) (t := ⟨.string isKey acc (.unicode 2 0), stack, none⟩) rfl ?_
    refine .cons (Nat.le_refl _) (t := ⟨.string isKey acc (.unicode 1 (c.toNat / 16)), stack, none⟩) ?_
      (.single (Nat.le_refl _) ?_ (Nat.le_refl _))
    · simp [Scan.step, Scan.stepString, hhi]
    · simp [Scan.step, Scan.stepString, hlo, hcode]
  · refine .single (Nat.le_refl _) ?_ (Nat.le_refl _)
    simp [Scan.step, Scan.stepString, h1, h2, h8]

/-- The characters of a string literal read back one after the other. -/
theorem escapeChars_runs (isKey : Bool) (stack : List Frame) (cs acc : List Char) :
    Runs stack.length ⟨.string isKey acc .none, stack, none⟩ (cs.flatMap escapeChar)
      ⟨.string isKey (cs.reverse ++ acc) .none, stack, none⟩ := by
  induction cs generalizing acc with
  | nil => exact .nil (Nat.le_refl _)
  | cons c cs ih =>
    rw [List.flatMap_cons, List.reverse_cons, List.append_assoc]
    exact (escapeChar_runs isKey acc stack c).append (ih (c :: acc))

/-- A string literal where a value may start. -/
theorem dumpsStr_runs (s : String) {e : Expect} (he : e = .value ∨ e = .valueOrClose)
    (stack : List Frame) :
    Runs stack.length ⟨e, stack, none⟩ (dumpsStr s) (Scan.push (.str s) stack) := by
  have hopen : Scan.step ⟨e, stack, none⟩ '"' = some ⟨.string false [] .none, stack, none⟩ := by
    rcases he with rfl | rfl <;> rfl
  refine .cons (Nat.le_refl _) hopen ((escapeChars_runs false stack s.toList []).append ?_)
  refine .single (Nat.le_refl _) ?_ (by simp)
  simp [Scan.step, Scan.stepString, Scan.closeString]

/-- A string literal where a key may start. -/
theorem dumpsStr_key_runs (k : String) {e : Expect} (he : e = .key ∨ e = .keyOrClose)
    (items : List (String × Json)) (key : String) (stack : List Frame) :
    Runs (stack.length + 1) ⟨e, .obj items key :: stack, none⟩ (dumpsStr k)
      ⟨.colon, .obj items k :: stack, none⟩ := by
  have hopen : Scan.step ⟨e, .obj items key :: stack, none⟩ '"'
      = some ⟨.string true [] .none, .obj items key :: stack, none⟩ := by
    rcases he with rfl | rfl <;> rfl
  refine .cons (Nat.le_refl _) hopen
    ((escapeChars_runs true (.obj items key :: stack) k.toList []).append ?_)
  refine .single (Nat.le_refl _) ?_ (Nat.le_refl _)
  simp [Scan.step, Scan.stepString, Scan.closeString]

/-- No word starts like whitespace, a string, or the start or end of a container. -/
theorem isWordChar_ne {c : Char} (hc : isWordChar c = true) :
    isJsonSpace c = false ∧ c ≠ '"' ∧ c ≠ '{' ∧ c ≠ '[' ∧ c ≠ ']' := by
  refine ⟨?_, ?_, ?_, ?_, ?_⟩
  · by_contra h
    simp only [isJsonSpace, Bool.not_eq_false, Bool.or_eq_true, decide_eq_true_eq] at h
    rcases h with ((rfl | rfl) | rfl) | rfl <;> exact absurd hc (by decide)
  all_goals rintro rfl; exact absurd hc (by decide)

/-- A word where a value may start. -/
theorem word_runs {w : List Char} {v : Json} (hw : w.all isWordChar = true) (hne : w ≠ [])
    (hv : wordValue w = some v) {e : Expect} (he : e = .value ∨ e = .valueOrClose)
    (stack : List Frame) :
    ∃ s', Runs stack.length ⟨e, stack, none⟩ w s' ∧ s'.Settles (Scan.push v stack) := by
  have more : ∀ (cs acc : List Char), cs.all isWordChar = true →
      Runs stack.length ⟨.word acc, stack, none⟩ cs ⟨.word (cs.reverse ++ acc), stack, none⟩ := by
    intro cs
    induction cs with
    | nil => intro acc _; exact .nil (Nat.le_refl _)
    | cons c cs ih =>
      intro acc hcs
      obtain ⟨hc, hcs⟩ : isWordChar c = true ∧ cs.all isWordChar = true := by simpa using hcs
      rw [List.reverse_cons, List.append_assoc]
      exact .cons (Nat.le_refl _) (by simp [Scan.step, hc]) (ih (c :: acc) hcs)
  cases w with
  | nil => exact absurd rfl hne
  | cons c cs =>
    obtain ⟨hc, hcs⟩ : isWordChar c = true ∧ cs.all isWordChar = true := by simpa using hw
    have hfirst : Scan.step ⟨e, stack, none⟩ c = some ⟨.word [c], stack, none⟩ := by
      rcases he with rfl | rfl <;>
        simp [Scan.step, Scan.stepOutside, Scan.beginValue, hc, isWordChar_ne hc]
    refine ⟨_, .cons (Nat.le_refl _) hfirst (more cs [c] hcs), Scan.settles_word stack ?_⟩
    simpa using hv

/-! ### Numerals -/

/-- A decimal numeral starts with `0` only when it is `0`. -/
theorem isNatText_toDigits (n : Nat) : isNatText (Nat.toDigits 10 n) = true := by
  induction n using Nat.strong_induction_on with
  | _ n ih =>
    rw [Nat.toDigits_eq_if (by decide)]
    split
    · rename_i h
      exact (by decide : ∀ n < 10, isNatText [n.digitChar] = true) n h
    · rename_i h
      have hpos : 0 < n / 10 := by omega
      have hrec := ih (n / 10) (by omega)
      have hlast : (n % 10).digitChar.isDigit = true :=
        (by decide : ∀ r < 10, r.digitChar.isDigit = true) _ (Nat.mod_lt _ (by decide))
      cases hd : Nat.toDigits 10 (n / 10) with
      | nil => exact absurd hd Nat.toDigits_ne_nil
      | cons c cs =>
        rw [hd] at hrec
        have hc : c ≠ '0' := by
          rintro rfl
          have hcs : cs = [] := by simpa [isNatText] using hrec
          have hval : Nat.ofDigitChars 10 (Nat.toDigits 10 (n / 10)) 0 = n / 10 :=
            Nat.ofDigitChars_ten_toDigits
          rw [hd, hcs] at hval
          have h0 : Nat.ofDigitChars 10 ['0'] 0 = 0 := by decide
          omega
        simp only [isNatText, hc, ↓reduceIte, Bool.and_eq_true] at hrec
        simp [isNatText, hc, hrec.1, hlast]
        simpa using hrec.2

theorem toDigits_all_digit (n : Nat) : ∀ c ∈ Nat.toDigits 10 n, c.isDigit = true :=
  fun _ hc => Nat.isDigit_of_mem_toDigits (by decide) (by decide) hc

/-- Digits only are no `float`. -/
theorem isFloatText_toDigits (n : Nat) (w : List Char)
    (hw : dropMinus w = Nat.toDigits 10 n) (hne : w ≠ ['N', 'a', 'N']) :
    isFloatText w = false := by
  have htake : (Nat.toDigits 10 n).dropWhile Char.isDigit = [] :=
    List.dropWhile_eq_nil_iff.mpr (toDigits_all_digit n)
  have hinf : Nat.toDigits 10 n ≠ ['I', 'n', 'f', 'i', 'n', 'i', 't', 'y'] := by
    intro h
    have := toDigits_all_digit n 'I' (by rw [h]; simp)
    exact absurd this (by decide)
  simp [isFloatText, hw, htake, isFractionText, isExponentText, hinf, hne]

/-- A decimal numeral does not start with a minus. -/
theorem dropMinus_toDigits (n : Nat) : dropMinus (Nat.toDigits 10 n) = Nat.toDigits 10 n := by
  have hminus : '-' ∉ Nat.toDigits 10 n := fun h =>
    absurd (toDigits_all_digit n '-' h) (by decide)
  cases hd : Nat.toDigits 10 n with
  | nil => rfl
  | cons c cs =>
    have hc : c ≠ '-' := by rintro rfl; exact hminus (by simp [hd])
    simp [dropMinus, hc]

@[simp] theorem dropMinus_intText (n : Int) : dropMinus (intText n) = Nat.toDigits 10 n.natAbs := by
  cases n with
  | ofNat n => exact dropMinus_toDigits n
  | negSucc n => rfl

@[simp] theorem intOfText_intText (n : Int) : intOfText (intText n) = n := by
  cases n with
  | ofNat n =>
    have hdrop := dropMinus_toDigits n
    have hval : (Nat.ofDigitChars 10 (Nat.toDigits 10 n) 0 : Int) = n := by
      rw [Nat.ofDigitChars_ten_toDigits]
    simp only [intText]
    cases hd : Nat.toDigits 10 n with
    | nil => exact absurd hd Nat.toDigits_ne_nil
    | cons c cs =>
      have hc : c ≠ '-' := by
        rintro rfl
        exact absurd (toDigits_all_digit n '-' (by simp [hd])) (by decide)
      rw [hd] at hval
      simp [intOfText, hc, hval]
  | negSucc n =>
    simp only [intText, intOfText, Nat.ofDigitChars_ten_toDigits]
    rfl

/-- The characters of an `int` are a minus and digits. -/
theorem intText_chars (n : Int) : ∀ c ∈ intText n, c = '-' ∨ c.isDigit = true := by
  intro c hc
  cases n with
  | ofNat n => exact .inr (toDigits_all_digit n c hc)
  | negSucc n =>
    rcases List.mem_cons.mp hc with rfl | hc
    · exact .inl rfl
    · exact .inr (toDigits_all_digit (n + 1) c hc)

theorem intText_ne_nil (n : Int) : intText n ≠ [] := by
  cases n with
  | ofNat n => exact Nat.toDigits_ne_nil
  | negSucc n => simp [intText]

theorem intText_word (n : Int) : (intText n).all isWordChar = true := by
  rw [List.all_eq_true]
  intro c hc
  rcases intText_chars n c hc with rfl | hd
  · decide
  · simp [isWordChar, Char.isAlphanum, hd]

/-- `int.__repr__` reads back as the `int`. -/
theorem wordValue_intText (n : Int) : wordValue (intText n) = some (.int n) := by
  have hnan : intText n ≠ ['N', 'a', 'N'] := by
    intro h
    rcases intText_chars n 'N' (by simp [h]) with h | h <;> exact absurd h (by decide)
  have hfloat : isFloatText (intText n) = false :=
    isFloatText_toDigits n.natAbs _ (dropMinus_intText n) hnan
  have hint : isIntText (intText n) = true := by
    rw [isIntText, dropMinus_intText]; exact isNatText_toDigits _
  simp [wordValue, hfloat, hint]

theorem wordValue_float (x : FloatLit) : wordValue x.text = some (.float x) := by
  simp [wordValue, x.valid]

theorem FloatLit.text_ne_nil (x : FloatLit) : x.text ≠ [] := by
  intro h
  exact absurd x.valid (by rw [h]; decide)

theorem FloatLit.text_word (x : FloatLit) : x.text.all isWordChar = true := by
  have h := x.valid
  simp only [isFloatText, Bool.and_eq_true] at h
  exact h.1

/-! ### `loads` inverts `dumps` -/

mutual

/-- **Reading a value.** The text of `v` takes the scanner from where a value may start to where
    `v` has been read, and closes no container that was open before. -/
theorem dumps_runs (v : Json) {e : Expect} (he : e = .value ∨ e = .valueOrClose)
    (stack : List Frame) :
    ∃ s', Runs stack.length ⟨e, stack, none⟩ (dumps v) s' ∧ s'.Settles (Scan.push v stack) := by
  cases v with
  | null => exact word_runs (w := ['n', 'u', 'l', 'l']) (by decide) (by simp) rfl he stack
  | bool b =>
    cases b with
    | true => exact word_runs (w := ['t', 'r', 'u', 'e']) (by decide) (by simp) rfl he stack
    | false => exact word_runs (w := ['f', 'a', 'l', 's', 'e']) (by decide) (by simp) rfl he stack
  | int n =>
    rw [dumps]
    exact word_runs (intText_word n) (intText_ne_nil n) (wordValue_intText n) he stack
  | float x =>
    rw [dumps]
    exact word_runs x.text_word x.text_ne_nil (wordValue_float x) he stack
  | str s => rw [dumps]; exact ⟨_, dumpsStr_runs s he stack, Scan.Settles.refl _⟩
  | arr items =>
    have hopen : Scan.step ⟨e, stack, none⟩ '['
        = some ⟨.valueOrClose, .arr [] :: stack, none⟩ := by
      rcases he with rfl | rfl <;> rfl
    cases items with
    | nil =>
      rw [dumps, dumpsItems]
      refine ⟨_, .cons (Nat.le_refl _) hopen (.single (Nat.le_succ _) rfl (by simp)), ?_⟩
      exact Scan.Settles.refl _
    | cons w ws =>
      rw [dumps]
      obtain ⟨s₁, hrun, hset⟩ := dumpsItems_runs (w :: ws) (by simp) (.inr rfl) [] stack
      have hclose : s₁.step ']' = some (Scan.push (.arr (w :: ws)) stack) := by
        rw [hset.1 ']' (by decide)]
        simp [Scan.step, Scan.stepOutside, Scan.afterValue, isJsonSpace]
      have hdepth : stack.length ≤ s₁.depth := by
        have := hrun.depth_le.2; omega
      refine ⟨_, .cons (Nat.le_refl _) hopen
        ((hrun.mono (by omega)).append (.single hdepth hclose (by simp))), Scan.Settles.refl _⟩
  | obj items =>
    have hopen : Scan.step ⟨e, stack, none⟩ '{'
        = some ⟨.keyOrClose, .obj [] "" :: stack, none⟩ := by
      rcases he with rfl | rfl <;> rfl
    cases items with
    | nil =>
      rw [dumps, dumpsMembers]
      refine ⟨_, .cons (Nat.le_refl _) hopen (.single (Nat.le_succ _) rfl (by simp)), ?_⟩
      exact Scan.Settles.refl _
    | cons m ms =>
      rw [dumps]
      obtain ⟨s₁, hrun, hset⟩ := dumpsMembers_runs (m :: ms) (by simp) (.inr rfl) [] "" stack
      have hclose : s₁.step '}' = some (Scan.push (.obj (m :: ms)) stack) := by
        rw [hset.1 '}' (by decide)]
        simp [Scan.step, Scan.stepOutside, Scan.afterValue, isJsonSpace]
      have hdepth : stack.length ≤ s₁.depth := by
        have := hrun.depth_le.2; omega
      refine ⟨_, .cons (Nat.le_refl _) hopen
        ((hrun.mono (by omega)).append (.single hdepth hclose (by simp))), Scan.Settles.refl _⟩

/-- Reading the items of an open list. -/
theorem dumpsItems_runs (vs : List Json) (hvs : vs ≠ []) {e : Expect}
    (he : e = .value ∨ e = .valueOrClose) (items : List Json) (stack : List Frame) :
    ∃ s', Runs (stack.length + 1) ⟨e, .arr items :: stack, none⟩ (dumpsItems vs) s' ∧
      s'.Settles ⟨.next, .arr (vs.reverse ++ items) :: stack, none⟩ := by
  cases vs with
  | nil => exact absurd rfl hvs
  | cons v vs =>
    cases vs with
    | nil =>
      rw [dumpsItems]
      exact dumps_runs v he (.arr items :: stack)
    | cons w ws =>
      rw [dumpsItems]
      obtain ⟨s₁, hrun, hset⟩ := dumps_runs v he (.arr items :: stack)
      obtain ⟨s₂, hrun', hset'⟩ :=
        dumpsItems_runs (w :: ws) (by simp) (.inl rfl) (v :: items) stack
      have hcomma : s₁.step ',' = some ⟨.value, .arr (v :: items) :: stack, none⟩ := by
        rw [hset.1 ',' (by decide)]; rfl
      have hdepth := hrun.depth_le.2
      refine ⟨s₂, hrun.append (.cons hdepth hcomma hrun'), ?_⟩
      simpa using hset'

/-- Reading the items of an open `dict`. -/
theorem dumpsMembers_runs (ms : List (String × Json)) (hms : ms ≠ []) {e : Expect}
    (he : e = .key ∨ e = .keyOrClose) (items : List (String × Json)) (key : String)
    (stack : List Frame) :
    ∃ s', Runs (stack.length + 1) ⟨e, .obj items key :: stack, none⟩ (dumpsMembers ms) s' ∧
      s'.Settles ⟨.next, .obj (ms.reverse ++ items) "" :: stack, none⟩ := by
  cases ms with
  | nil => exact absurd rfl hms
  | cons m ms =>
    obtain ⟨k, v⟩ := m
    -- The key and its colon are read alike in front of the last item and of any other.
    have hkey := dumpsStr_key_runs k he items key stack
    have hcolon : Scan.step ⟨.colon, .obj items k :: stack, none⟩ ':'
        = some ⟨.value, .obj items k :: stack, none⟩ := rfl
    obtain ⟨s₁, hrun, hset⟩ := dumps_runs v (.inl rfl) (.obj items k :: stack)
    have hitem := hkey.append (.cons (Nat.le_refl _) hcolon hrun)
    cases ms with
    | nil =>
      rw [dumpsMembers]
      exact ⟨s₁, hitem, hset⟩
    | cons m ms =>
      rw [dumpsMembers]
      obtain ⟨s₂, hrun', hset'⟩ :=
        dumpsMembers_runs (m :: ms) (by simp) (.inl rfl) ((k, v) :: items) "" stack
      have hcomma : s₁.step ',' = some ⟨.key, .obj ((k, v) :: items) "" :: stack, none⟩ := by
        rw [hset.1 ',' (by decide)]; rfl
      have hdepth := hrun.depth_le.2
      refine ⟨s₂, ?_, by simpa using hset'⟩
      simpa using hitem.append (.cons hdepth hcomma hrun')

end

/-- **`loads` inverts `dumps`.** -/
@[simp] theorem loads_dumps (v : Json) : loads (dumps v) = some v := by
  obtain ⟨s', hrun, hset⟩ := dumps_runs v (.inl rfl) []
  have hstart : Scan.start.run (dumps v) = some s' := hrun.run_eq
  rw [loads, hstart, Option.bind_some, hset.2.1]
  rfl

/-- Two values with the same text are the same value. -/
theorem dumps_injective : Function.Injective dumps := by
  intro v w h
  have hv := loads_dumps v
  rw [h, loads_dumps] at hv
  exact (Option.some.inj hv).symm

instance : DecidableEq Json := fun v w =>
  decidable_of_iff (dumps v = dumps w) ⟨fun h => dumps_injective h, congrArg dumps⟩

/-! ### Torn texts -/

/-- No value ends inside a container. -/
theorem Scan.finish_of_depth {s : Scan} (h : 0 < s.depth) : s.finish = none := by
  rcases s with ⟨e, stack, r⟩
  cases stack with
  | nil => exact absurd h (by simp)
  | cons f fs => rfl

/-- The text of a container, as the scanner reads it: an opening character and a run that leaves
    the container open until the closing one. -/
theorem dumps_obj_runs (items : List (String × Json)) :
    ∃ body s', dumps (.obj items) = '{' :: body ++ ['}'] ∧
      Runs 1 ⟨.keyOrClose, [.obj [] ""], none⟩ body s' := by
  cases items with
  | nil => exact ⟨[], _, rfl, .nil (Nat.le_refl _)⟩
  | cons m ms =>
    obtain ⟨s₁, hrun, -⟩ := dumpsMembers_runs (m :: ms) (by simp) (.inr rfl) [] "" []
    exact ⟨_, s₁, rfl, hrun⟩

/-- **Torn record.** After a proper non-empty prefix of the text of a `dict`, the scanner is
    inside that `dict`. -/
theorem run_of_torn {items : List (String × Json)} {torn rest : List Char}
    (htext : dumps (.obj items) = torn ++ rest) (htorn : torn ≠ []) (hrest : rest ≠ []) :
    ∃ s', Scan.start.run torn = some s' ∧ 0 < s'.depth := by
  obtain ⟨body, s', hbody, hrun⟩ := dumps_obj_runs items
  cases torn with
  | nil => exact absurd rfl htorn
  | cons c torn =>
    rw [hbody] at htext
    obtain ⟨rfl, htail⟩ : '{' = c ∧ body ++ ['}'] = torn ++ rest := by simpa using htext
    have hprefix : torn <+: body := by
      rcases List.eq_nil_or_concat rest with rfl | ⟨rest, d, rfl⟩
      · exact absurd rfl hrest
      · rw [List.concat_eq_append, ← List.append_assoc] at htail
        exact ⟨rest, (List.append_inj_left' htail rfl).symm⟩
    obtain ⟨tail, rfl⟩ := hprefix
    obtain ⟨s₂, hs₂⟩ := hrun.prefix_of_append
    refine ⟨s₂, ?_, hs₂.depth_le.2⟩
    have hopen : Scan.start.step '{' = some ⟨.keyOrClose, [.obj [] ""], none⟩ := rfl
    simpa [Scan.run, hopen] using hs₂.run_eq

/-- A torn record is not JSON. -/
theorem loads_of_torn {items : List (String × Json)} {torn rest : List Char}
    (htext : dumps (.obj items) = torn ++ rest) (htorn : torn ≠ []) (hrest : rest ≠ []) :
    loads torn = none := by
  obtain ⟨s', hrun, hdepth⟩ := run_of_torn htext htorn hrest
  rw [loads, hrun, Option.bind_some, Scan.finish_of_depth hdepth]

end Py
