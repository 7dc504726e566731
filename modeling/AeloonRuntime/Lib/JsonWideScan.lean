import AeloonRuntime.Lib.JsonWide

namespace Py

/-!
# `json.loads` with code points, as a scanner

One step per character, as in `Lib.JsonScan`, over strings of code points and `dict`s that are built item by item.  A
blank behind the text, which `loads` allows, ends a number that stands last.

* `WideScan.step`, `wideLoads` — the scanner;
* `WideScan.run_dumps` — the text of a value is read to its end;
* `wideLoads_dumps` — what has no surrogate is read back;
* `readable_of_wideLoads` — the numbers of what is read are short, and the keys of a `dict` are distinct.
-/

/-! ### The scanner -/

/-- What `float.__repr__` writes for the `float` that a text stands for. -/
structure FloatRepr where
  repr : FloatLit → FloatLit
  /-- It stands for that `float` itself. -/
  stable : ∀ x, repr (repr x) = repr x

/-- A number of not more digits than `int` converts from and to a text. -/
def isShortInt (n : Int) : Bool := (Nat.toDigits 10 n.natAbs).length ≤ 4300

/-- What the scanner expects of the next character, as `Expect`. -/
inductive WideExpect where
  | value
  | valueOrClose
  | keyOrClose
  | key
  | colon
  | next
  | string (isKey : Bool) (acc : List CodePoint) (esc : Escape)
  | word (acc : List Char)

/-- An open container: a list with its items reversed, a `dict` with the key that waits for its value. -/
inductive WideFrame where
  | arr (items : List WideJson)
  | obj (items : List (List CodePoint × WideJson)) (key : List CodePoint)

/-- A scanner state, as `Scan`. -/
structure WideScan where
  expect : WideExpect
  stack : List WideFrame
  result : Option WideJson

/-- The value of a bare word. -/
def wideValue (floats : FloatRepr) (w : List Char) : Option WideJson :=
  match wordValue w with
  | some .null => some .null
  | some (.bool b) => some (.bool b)
  | some (.int n) => if isShortInt n then some (.int n) else none
  | some (.float x) => some (.float (floats.repr x))
  | _ => none

namespace WideScan

/-- Before the first character. -/
def start : WideScan := ⟨.value, [], none⟩

/-- A value has been read: it goes into the innermost container. -/
def push (v : WideJson) : List WideFrame → WideScan
  | [] => ⟨.next, [], some v⟩
  | .arr items :: fs => ⟨.next, .arr (v :: items) :: fs, none⟩
  | .obj items key :: fs => ⟨.next, .obj (setWideItem items key v) [] :: fs, none⟩

/-- The first character of a value. -/
def beginValue (c : Char) (stack : List WideFrame) : Option WideScan :=
  if c = '"' then some ⟨.string false [] .none, stack, none⟩
  else if c = '{' then some ⟨.keyOrClose, .obj [] [] :: stack, none⟩
  else if c = '[' then some ⟨.valueOrClose, .arr [] :: stack, none⟩
  else if isWordChar c then some ⟨.word [c], stack, none⟩
  else none

/-- The end of a list. -/
def closeList : List WideFrame → Option WideScan
  | .arr items :: fs => some (push (.arr items.reverse) fs)
  | _ => none

/-- The end of a `dict`. -/
def closeDict : List WideFrame → Option WideScan
  | .obj items _ :: fs => some (push (.obj items) fs)
  | _ => none

/-- A character behind a value: `,` or the end of the innermost container. -/
def afterValue (c : Char) : List WideFrame → Option WideScan
  | .arr items :: fs =>
    if c = ',' then some ⟨.value, .arr items :: fs, none⟩
    else if c = ']' then closeList (.arr items :: fs)
    else none
  | .obj items key :: fs =>
    if c = ',' then some ⟨.key, .obj items key :: fs, none⟩
    else if c = '}' then closeDict (.obj items key :: fs)
    else none
  | [] => none

/-- A character outside strings and words. -/
def stepOutside (s : WideScan) (c : Char) : Option WideScan :=
  if isJsonSpace c then some s
  else
    match s.expect with
    | .value => beginValue c s.stack
    | .valueOrClose => if c = ']' then closeList s.stack else beginValue c s.stack
    | .keyOrClose =>
      if c = '"' then some ⟨.string true [] .none, s.stack, none⟩ else if c = '}' then closeDict s.stack else none
    | .key => if c = '"' then some ⟨.string true [] .none, s.stack, none⟩ else none
    | .colon => if c = ':' then some ⟨.value, s.stack, none⟩ else none
    | .next => afterValue c s.stack
    | .string .. => none
    | .word _ => none

/-- The end of a string literal: a key waits for its colon, a value is read. -/
def closeString (isKey : Bool) (acc : List CodePoint) (stack : List WideFrame) : Option WideScan :=
  if isKey then
    match stack with
    | .obj items _ :: fs => some ⟨.colon, .obj items acc.reverse :: fs, none⟩
    | _ => none
  else some (push (.str acc.reverse) stack)

/-- A character inside a string literal. -/
def stepString (stack : List WideFrame) (isKey : Bool) (acc : List CodePoint) (esc : Escape) (c : Char) :
    Option WideScan :=
  match esc with
  | .none =>
    if c = '"' then closeString isKey acc stack
    else if c = '\\' then some ⟨.string isKey acc .backslash, stack, none⟩
    else if c.toNat < 0x20 then none
    else some ⟨.string isKey (.char c :: acc) .none, stack, none⟩
  | .backslash =>
    if c = 'u' then some ⟨.string isKey acc (.unicode 4 0), stack, none⟩
    else (simpleEscape c).map fun d => ⟨.string isKey (.char d :: acc) .none, stack, none⟩
  | .unicode left code =>
    (hexValue c).map fun d =>
      if left ≤ 1 then ⟨.string isKey (CodePoint.join (.ofCode (16 * code + d)) acc) .none, stack, none⟩
      else ⟨.string isKey acc (.unicode (left - 1) (16 * code + d)), stack, none⟩

/-- One character. -/
def step (floats : FloatRepr) (s : WideScan) (c : Char) : Option WideScan :=
  match s.expect with
  | .string isKey acc esc => stepString s.stack isKey acc esc c
  | .word acc =>
    if isWordChar c then some ⟨.word (c :: acc), s.stack, none⟩
    else (wideValue floats acc.reverse).bind fun v => (push v s.stack).stepOutside c
  | _ => s.stepOutside c

/-- A text, character by character. -/
def run (floats : FloatRepr) (s : WideScan) (text : List Char) : Option WideScan := text.foldlM (step floats) s

/-- The value, if one has been read. -/
def finish (s : WideScan) : Option WideJson :=
  match s.stack, s.expect with
  | [], .next => s.result
  | _, _ => none

end WideScan

/-- `json.loads(text)`; `none` is `JSONDecodeError`, or `ValueError` for a number that is too long. -/
def wideLoads (floats : FloatRepr) (text : List Char) : Option WideJson :=
  (WideScan.start.run floats (text ++ [' '])).bind WideScan.finish

/-! ### Values that are read -/

namespace WideJson

mutual

/-- Numbers as they are read, and `dict`s with distinct keys. -/
def Readable (floats : FloatRepr) : WideJson → Prop
  | .int n => isShortInt n = true
  | .float x => floats.repr x = x
  | .arr items => ReadableItems floats items
  | .obj items => (items.map Prod.fst).Nodup ∧ ReadableMembers floats items
  | _ => True

/-- The items of a list. -/
def ReadableItems (floats : FloatRepr) : List WideJson → Prop
  | [] => True
  | item :: items => item.Readable floats ∧ ReadableItems floats items

/-- The items of a `dict`. -/
def ReadableMembers (floats : FloatRepr) : List (List CodePoint × WideJson) → Prop
  | [] => True
  | (_, item) :: items => item.Readable floats ∧ ReadableMembers floats items

end

end WideJson

/-! ### Reading what was written -/

namespace CodePoint

theorem ofCode_toNat (c : Char) : ofCode c.toNat = .char c := by
  have hvalid : c.toNat.isValidChar := c.valid
  simp [ofCode, hvalid]

theorem join_char (c : Char) (points : List CodePoint) : join (.char c) points = .char c :: points := by
  cases points <;> rfl

end CodePoint

namespace WideScan

variable {floats : FloatRepr} {stack : List WideFrame}

theorem run_cons (s : WideScan) (c : Char) (text : List Char) :
    s.run floats (c :: text) = (s.step floats c).bind fun s' => s'.run floats text := rfl

theorem run_of_step {s s' : WideScan} {c : Char} (h : s.step floats c = some s') (text : List Char) :
    s.run floats (c :: text) = s'.run floats text := by
  rw [run_cons, h]
  rfl

theorem step_push (v : WideJson) (c : Char) : (push v stack).step floats c = (push v stack).stepOutside c := by
  rcases stack with _ | ⟨_ | _, fs⟩ <;> rfl

/-- A bare word is read where the next character ends it. -/
theorem run_word {w : List Char} {v : WideJson} (hw : w.all isWordChar = true) (hne : w ≠ [])
    (hv : wideValue floats w = some v) {e : WideExpect} (he : e = .value ∨ e = .valueOrClose) {c : Char}
    (hc : isWordChar c = false) (rest : List Char) :
    run floats ⟨e, stack, none⟩ (w ++ c :: rest) = run floats (push v stack) (c :: rest) := by
  have hmore (text acc : List Char) (htext : text.all isWordChar = true) :
      run floats ⟨.word acc, stack, none⟩ (text ++ c :: rest)
        = run floats ⟨.word (text.reverse ++ acc), stack, none⟩ (c :: rest) := by
    induction text generalizing acc with
    | nil => rfl
    | cons d text ih =>
      obtain ⟨hd, htext⟩ := Bool.and_eq_true_iff.mp htext
      have hstep : step floats ⟨.word acc, stack, none⟩ d = some ⟨.word (d :: acc), stack, none⟩ := by
        simp [step, hd]
      rw [List.cons_append, run_of_step hstep, ih (d :: acc) htext, List.reverse_cons, List.append_assoc]
      rfl
  cases w with
  | nil => exact absurd rfl hne
  | cons d w =>
    obtain ⟨hd, hrest⟩ := Bool.and_eq_true_iff.mp hw
    obtain ⟨hspace, hquote, hbrace, hbracket, hclose⟩ := isWordChar_ne hd
    have hstep : step floats ⟨e, stack, none⟩ d = some ⟨.word [d], stack, none⟩ := by
      rcases he with rfl | rfl
      · simp [step, stepOutside, beginValue, hspace, hquote, hbrace, hbracket, hd]
      · simp [step, stepOutside, beginValue, hspace, hquote, hbrace, hbracket, hclose, hd]
    have hend : step floats ⟨.word (w.reverse ++ [d]), stack, none⟩ c = (push v stack).step floats c := by
      rw [step_push]
      simp [step, hc, hv]
    rw [List.cons_append, run_of_step hstep, hmore w [d] hrest, run_cons, run_cons, hend]

/-- An escaped character is read. -/
theorem run_escapeChar (isKey : Bool) (acc : List CodePoint) (c : Char) (rest : List Char) :
    run floats ⟨.string isKey acc .none, stack, none⟩ (escapeChar c ++ rest)
      = run floats ⟨.string isKey (.char c :: acc) .none, stack, none⟩ rest := by
  have two (d : Char) (hd : simpleEscape d = some c) (hu : d ≠ 'u') :
      run floats ⟨.string isKey acc .none, stack, none⟩ ('\\' :: d :: rest)
        = run floats ⟨.string isKey (.char c :: acc) .none, stack, none⟩ rest := by
    have hstep : step floats ⟨.string isKey acc .backslash, stack, none⟩ d
        = some ⟨.string isKey (.char c :: acc) .none, stack, none⟩ := by
      simp [step, stepString, hd, hu]
    have hopen : step floats ⟨.string isKey acc .none, stack, none⟩ '\\'
        = some ⟨.string isKey acc .backslash, stack, none⟩ := rfl
    rw [run_of_step hopen, run_of_step hstep]
  unfold escapeChar
  split_ifs with h1 h2 h3 h4 h5 h6 h7 h8
  · exact two '"' (by subst h1; rfl) (by decide)
  · exact two '\\' (by subst h2; rfl) (by decide)
  · exact two 'n' (by subst h3; rfl) (by decide)
  · exact two 'r' (by subst h4; rfl) (by decide)
  · exact two 't' (by subst h5; rfl) (by decide)
  · exact two 'b' (by subst h6; rfl) (by decide)
  · exact two 'f' (by subst h7; rfl) (by decide)
  · have hhi := hexValue_hexDigit (c.toNat / 16) (by omega)
    have hlo := hexValue_hexDigit (c.toNat % 16) (by omega)
    have hcode : 16 * (c.toNat / 16) + c.toNat % 16 = c.toNat := Nat.div_add_mod _ _
    have hzeros (rest : List Char) : run floats ⟨.string isKey acc .none, stack, none⟩ ('\\' :: 'u' :: '0' :: '0' :: rest)
        = run floats ⟨.string isKey acc (.unicode 2 0), stack, none⟩ rest := rfl
    have hfirst : step floats ⟨.string isKey acc (.unicode 2 0), stack, none⟩ (hexDigit (c.toNat / 16))
        = some ⟨.string isKey acc (.unicode 1 (c.toNat / 16)), stack, none⟩ := by
      simp [step, stepString, hhi]
    have hsecond : step floats ⟨.string isKey acc (.unicode 1 (c.toNat / 16)), stack, none⟩ (hexDigit (c.toNat % 16))
        = some ⟨.string isKey (.char c :: acc) .none, stack, none⟩ := by
      simp [step, stepString, hlo, hcode, CodePoint.ofCode_toNat, CodePoint.join_char]
    show run floats _ ('\\' :: 'u' :: '0' :: '0' :: hexDigit (c.toNat / 16) :: hexDigit (c.toNat % 16) :: rest) = _
    rw [hzeros, run_of_step hfirst, run_of_step hsecond]
  · have hstep : step floats ⟨.string isKey acc .none, stack, none⟩ c
        = some ⟨.string isKey (.char c :: acc) .none, stack, none⟩ := by
      simp [step, stepString, h1, h2, h8]
    exact run_of_step hstep rest

variable (floats stack) in
/-- The characters of a string literal are read one after the other. -/
theorem run_escapeChars (isKey : Bool) (cs : List Char) (acc : List CodePoint) (rest : List Char) :
    run floats ⟨.string isKey acc .none, stack, none⟩ (cs.flatMap escapeChar ++ rest)
      = run floats ⟨.string isKey ((cs.map .char).reverse ++ acc) .none, stack, none⟩ rest := by
  induction cs generalizing acc with
  | nil => rfl
  | cons c cs ih =>
    rw [List.flatMap_cons, List.append_assoc, run_escapeChar, ih, List.map_cons, List.reverse_cons, List.append_assoc]
    rfl

/-- A string literal where a value may start. -/
theorem run_dumpsStr (s : String) {e : WideExpect} (he : e = .value ∨ e = .valueOrClose) (rest : List Char) :
    run floats ⟨e, stack, none⟩ (dumpsStr s ++ rest) = run floats (push (.str (widePoints s)) stack) rest := by
  have hopen : step floats ⟨e, stack, none⟩ '"' = some ⟨.string false [] .none, stack, none⟩ := by
    rcases he with rfl | rfl <;> rfl
  have hclose : step floats ⟨.string false ((widePoints s).reverse ++ []) .none, stack, none⟩ '"'
      = some (push (.str (widePoints s)) stack) := by
    simp [step, stepString, closeString]
  have hbody := run_escapeChars floats stack false s.toList [] ('"' :: rest)
  rw [dumpsStr, List.cons_append, List.cons_append, run_of_step hopen, List.append_assoc]
  exact hbody.trans (run_of_step hclose rest)

/-- A string literal where a key may start. -/
theorem run_dumpsKey (k : String) {e : WideExpect} (he : e = .key ∨ e = .keyOrClose)
    (items : List (List CodePoint × WideJson)) (key : List CodePoint) (rest : List Char) :
    run floats ⟨e, .obj items key :: stack, none⟩ (dumpsStr k ++ rest)
      = run floats ⟨.colon, .obj items (widePoints k) :: stack, none⟩ rest := by
  have hopen : step floats ⟨e, .obj items key :: stack, none⟩ '"'
      = some ⟨.string true [] .none, .obj items key :: stack, none⟩ := by
    rcases he with rfl | rfl <;> rfl
  have hclose : step floats ⟨.string true ((widePoints k).reverse ++ []) .none, .obj items key :: stack, none⟩ '"'
      = some ⟨.colon, .obj items (widePoints k) :: stack, none⟩ := by
    simp [step, stepString, closeString]
  have hbody := run_escapeChars floats (.obj items key :: stack) true k.toList [] ('"' :: rest)
  rw [dumpsStr, List.cons_append, List.cons_append, run_of_step hopen, List.append_assoc]
  exact hbody.trans (run_of_step hclose rest)

/-- A new key comes last. -/
theorem setWideItem_of_notMem {items : List (List CodePoint × WideJson)} {key : List CodePoint}
    (h : key ∉ items.map Prod.fst) (v : WideJson) : setWideItem items key v = items ++ [(key, v)] := if_neg h

mutual

/-- **Reading a value.** Its text takes the scanner from where a value may start to where it has been read. -/
theorem run_dumps (v : Json) (hread : (WideJson.ofJson v).Readable floats) {e : WideExpect}
    (he : e = .value ∨ e = .valueOrClose) (stack : List WideFrame) {c : Char} (hc : isWordChar c = false)
    (rest : List Char) :
    run floats ⟨e, stack, none⟩ (dumps v ++ c :: rest) = run floats (push (WideJson.ofJson v) stack) (c :: rest) := by
  cases v with
  | null => exact run_word (w := ['n', 'u', 'l', 'l']) (by decide) (by simp) rfl he hc rest
  | bool b =>
    cases b with
    | true => exact run_word (w := ['t', 'r', 'u', 'e']) (by decide) (by simp) rfl he hc rest
    | false => exact run_word (w := ['f', 'a', 'l', 's', 'e']) (by decide) (by simp) rfl he hc rest
  | int n =>
    have hvalue : wideValue floats (intText n) = some (.int n) := by
      rw [wideValue, wordValue_intText]
      exact if_pos hread
    exact run_word (intText_word n) (intText_ne_nil n) hvalue he hc rest
  | float x =>
    have hvalue : wideValue floats x.text = some (.float x) := by
      rw [wideValue, wordValue_float]
      exact congrArg (fun y => some (WideJson.float y)) hread
    exact run_word x.text_word x.text_ne_nil hvalue he hc rest
  | str s => exact run_dumpsStr s he (c :: rest)
  | arr items =>
    have hopen : step floats ⟨e, stack, none⟩ '[' = some ⟨.valueOrClose, .arr [] :: stack, none⟩ := by
      rcases he with rfl | rfl <;> rfl
    rw [dumps, List.cons_append, List.cons_append, run_of_step hopen, List.append_assoc]
    cases items with
    | nil => rfl
    | cons w ws => exact run_dumpsItems (w :: ws) (List.cons_ne_nil _ _) hread (.inr rfl) [] stack (c :: rest)
  | obj items =>
    have hopen : step floats ⟨e, stack, none⟩ '{' = some ⟨.keyOrClose, .obj [] [] :: stack, none⟩ := by
      rcases he with rfl | rfl <;> rfl
    rw [dumps, List.cons_append, List.cons_append, run_of_step hopen, List.append_assoc]
    cases items with
    | nil => rfl
    | cons m ms =>
      exact run_dumpsMembers (m :: ms) (List.cons_ne_nil _ _) hread.2 (.inr rfl) [] hread.1 [] stack (c :: rest)

/-- The items of a list. -/
theorem run_dumpsItems (vs : List Json) (hvs : vs ≠ [])
    (hread : WideJson.ReadableItems floats (WideJson.ofJsonItems vs)) {e : WideExpect} (he : e = .value ∨ e = .valueOrClose) (items : List WideJson) (stack : List WideFrame)
    (rest : List Char) :
    run floats ⟨e, .arr items :: stack, none⟩ (dumpsItems vs ++ ']' :: rest)
      = run floats (push (.arr (items.reverse ++ WideJson.ofJsonItems vs)) stack) rest := by
  cases vs with
  | nil => exact absurd rfl hvs
  | cons v vs =>
    obtain ⟨hv, hrest⟩ := hread
    have hitems : items.reverse ++ WideJson.ofJsonItems (v :: vs)
        = (WideJson.ofJson v :: items).reverse ++ WideJson.ofJsonItems vs := by
      rw [List.reverse_cons, List.append_assoc]
      rfl
    have hvalue {d : Char} (hd : isWordChar d = false) (text : List Char) :=
      run_dumps v hv he (.arr items :: stack) hd text
    rw [hitems]
    cases vs with
    | nil =>
      rw [dumpsItems, hvalue (by decide), WideJson.ofJsonItems, List.append_nil]
      rfl
    | cons w ws =>
      have hmore := run_dumpsItems (w :: ws) (List.cons_ne_nil _ _) hrest (.inl rfl) (WideJson.ofJson v :: items) stack
        rest
      rw [dumpsItems, List.append_assoc, List.cons_append, hvalue (by decide), ← hmore]
      rfl

/-- The items of a `dict`. -/
theorem run_dumpsMembers (ms : List (String × Json)) (hms : ms ≠ [])
    (hread : WideJson.ReadableMembers floats (WideJson.ofJsonMembers ms)) {e : WideExpect}
    (he : e = .key ∨ e = .keyOrClose) (items : List (List CodePoint × WideJson)) (hkeys : ((items ++ WideJson.ofJsonMembers ms).map Prod.fst).Nodup)
    (key : List CodePoint) (stack : List WideFrame) (rest : List Char) :
    run floats ⟨e, .obj items key :: stack, none⟩ (dumpsMembers ms ++ '}' :: rest)
      = run floats (push (.obj (items ++ WideJson.ofJsonMembers ms)) stack) rest := by
  cases ms with
  | nil => exact absurd rfl hms
  | cons m ms =>
    obtain ⟨k, v⟩ := m
    obtain ⟨hv, hrest⟩ := hread
    have hitems : items ++ WideJson.ofJsonMembers ((k, v) :: ms)
        = items ++ [(widePoints k, WideJson.ofJson v)] ++ WideJson.ofJsonMembers ms := by
      rw [List.append_assoc]
      rfl
    rw [hitems] at hkeys ⊢
    have hnew : widePoints k ∉ items.map Prod.fst := by
      rw [List.map_append, List.map_append, List.append_assoc, List.nodup_append] at hkeys
      exact fun hmem => hkeys.2.2 _ hmem _ List.mem_cons_self rfl
    have hvalue {d : Char} (hd : isWordChar d = false) (text : List Char) :
        run floats ⟨e, .obj items key :: stack, none⟩ (dumpsStr k ++ ':' :: (dumps v ++ d :: text))
          = run floats ⟨.next, .obj (items ++ [(widePoints k, WideJson.ofJson v)]) [] :: stack, none⟩ (d :: text) := by
      rw [run_dumpsKey k he]
      have hcolon : step floats ⟨.colon, .obj items (widePoints k) :: stack, none⟩ ':'
          = some ⟨.value, .obj items (widePoints k) :: stack, none⟩ := rfl
      rw [run_of_step hcolon, run_dumps v hv (.inl rfl) (.obj items (widePoints k) :: stack) hd, push,
        setWideItem_of_notMem hnew]
    cases ms with
    | nil =>
      rw [dumpsMembers, List.append_assoc, List.cons_append, hvalue (by decide), WideJson.ofJsonMembers,
        List.append_nil]
      rfl
    | cons m ms =>
      have hmore := run_dumpsMembers (m :: ms) (List.cons_ne_nil _ _) hrest (.inl rfl)
        (items ++ [(widePoints k, WideJson.ofJson v)]) hkeys [] stack rest
      have htext : dumpsMembers ((k, v) :: m :: ms) ++ '}' :: rest
          = dumpsStr k ++ ':' :: (dumps v ++ ',' :: (dumpsMembers (m :: ms) ++ '}' :: rest)) := by
        rw [dumpsMembers]
        simp
      rw [htext, hvalue (by decide), ← hmore]
      rfl

end

end WideScan

/-- **Round trip.** What has no surrogate is read back. -/
theorem wideLoads_dumps {floats : FloatRepr} (v : Json) (hread : (WideJson.ofJson v).Readable floats) :
    wideLoads floats (dumps v) = some (WideJson.ofJson v) := by
  have hblank : isWordChar ' ' = false := by decide
  rw [wideLoads, WideScan.start, WideScan.run_dumps v hread (.inl rfl) [] hblank []]
  rfl

/-! ### What is read can be written -/

namespace WideJson

variable {floats : FloatRepr}

theorem readableItems_iff {items : List WideJson} :
    ReadableItems floats items ↔ ∀ item ∈ items, item.Readable floats := by
  induction items with
  | nil => simp [ReadableItems]
  | cons item items ih => rw [ReadableItems, ih, List.forall_mem_cons]

theorem readableMembers_iff {items : List (List CodePoint × WideJson)} :
    ReadableMembers floats items ↔ ∀ item ∈ items, item.2.Readable floats := by
  induction items with
  | nil => simp [ReadableMembers]
  | cons item items ih =>
    obtain ⟨key, value⟩ := item
    rw [ReadableMembers, ih, List.forall_mem_cons]

/-- An item that is set keeps the keys distinct. -/
theorem readable_setWideItem {items : List (List CodePoint × WideJson)} (h : (WideJson.obj items).Readable floats)
    (key : List CodePoint) {v : WideJson} (hv : v.Readable floats) :
    (WideJson.obj (setWideItem items key v)).Readable floats := by
  obtain ⟨hkeys, hitems⟩ := h
  rw [readableMembers_iff] at hitems
  by_cases hmem : key ∈ items.map Prod.fst
  · have hsame : (setWideItem items key v).map Prod.fst = items.map Prod.fst := by
      rw [setWideItem, if_pos hmem, List.map_map]
      refine List.map_congr_left fun item _ => ?_
      by_cases hkey : item.1 = key
      · simp [hkey]
      · simp [hkey]
    refine ⟨hsame ▸ hkeys, readableMembers_iff.mpr fun item hitem => ?_⟩
    rw [setWideItem, if_pos hmem] at hitem
    obtain ⟨old, hold, rfl⟩ := List.mem_map.mp hitem
    by_cases hkey : old.1 = key
    · rwa [if_pos hkey]
    · rw [if_neg hkey]
      exact hitems old hold
  · rw [WideScan.setWideItem_of_notMem hmem]
    refine ⟨?_, readableMembers_iff.mpr (List.forall_mem_append.mpr ⟨hitems, by simpa using hv⟩)⟩
    rw [List.map_append, List.map_cons, List.map_nil]
    refine List.nodup_append.mpr ⟨hkeys, by simp, fun a ha b hb hab => ?_⟩
    obtain rfl := List.mem_singleton.mp hb
    exact hmem (hab ▸ ha)

end WideJson

namespace WideScan

variable {floats : FloatRepr}

/-- What has been read of an open container. -/
def FrameReadable (floats : FloatRepr) : WideFrame → Prop
  | .arr items => ∀ item ∈ items, item.Readable floats
  | .obj items _ => (WideJson.obj items).Readable floats

/-- What has been read of all values. -/
structure ReadSoFar (floats : FloatRepr) (s : WideScan) : Prop where
  stack : ∀ frame ∈ s.stack, FrameReadable floats frame
  result : ∀ v ∈ s.result, v.Readable floats

/-- The words that are read. -/
theorem readable_wideValue {w : List Char} {v : WideJson} (h : wideValue floats w = some v) : v.Readable floats := by
  rw [wideValue] at h
  split at h
  · obtain rfl := Option.some.inj h
    trivial
  · obtain rfl := Option.some.inj h
    trivial
  · split at h
    · rename_i hshort
      obtain rfl := Option.some.inj h
      exact hshort
    · cases h
  · obtain rfl := Option.some.inj h
    exact floats.stable _
  · cases h

theorem readSoFar_push {stack : List WideFrame} (hstack : ∀ frame ∈ stack, FrameReadable floats frame) {v : WideJson}
    (hv : v.Readable floats) : ReadSoFar floats (push v stack) := by
  cases stack with
  | nil => exact ⟨by simp [push], by simpa [push] using hv⟩
  | cons frame fs =>
    obtain ⟨hframe, hfs⟩ := List.forall_mem_cons.mp hstack
    cases frame with
    | arr items =>
      refine ⟨List.forall_mem_cons.mpr ⟨?_, hfs⟩, by simp [push]⟩
      exact List.forall_mem_cons.mpr ⟨hv, hframe⟩
    | obj items key =>
      refine ⟨List.forall_mem_cons.mpr ⟨?_, hfs⟩, by simp [push]⟩
      exact WideJson.readable_setWideItem hframe key hv

section Steps

variable {stack : List WideFrame} (hstack : ∀ frame ∈ stack, FrameReadable floats frame) {t : WideScan} {c : Char}

include hstack

theorem readSoFar_of_stack (e : WideExpect) : ReadSoFar floats ⟨e, stack, none⟩ := ⟨hstack, by simp⟩

theorem readSoFar_beginValue (h : beginValue c stack = some t) : ReadSoFar floats t := by
  rw [beginValue] at h
  split_ifs at h
  · obtain rfl := Option.some.inj h
    exact readSoFar_of_stack hstack _
  · obtain rfl := Option.some.inj h
    exact ⟨List.forall_mem_cons.mpr ⟨⟨List.nodup_nil, trivial⟩, hstack⟩, by simp⟩
  · obtain rfl := Option.some.inj h
    exact ⟨List.forall_mem_cons.mpr ⟨by simp [FrameReadable], hstack⟩, by simp⟩
  · obtain rfl := Option.some.inj h
    exact readSoFar_of_stack hstack _

theorem readSoFar_closeList (h : closeList stack = some t) : ReadSoFar floats t := by
  rcases stack with _ | ⟨items | ⟨items, key⟩, fs⟩
  · cases h
  · obtain rfl := Option.some.inj h
    obtain ⟨hitems, hfs⟩ := List.forall_mem_cons.mp hstack
    exact readSoFar_push hfs (WideJson.readableItems_iff.mpr fun item hitem => hitems item (List.mem_reverse.mp hitem))
  · cases h

theorem readSoFar_closeDict (h : closeDict stack = some t) : ReadSoFar floats t := by
  rcases stack with _ | ⟨items | ⟨items, key⟩, fs⟩
  · cases h
  · cases h
  · obtain rfl := Option.some.inj h
    obtain ⟨hitems, hfs⟩ := List.forall_mem_cons.mp hstack
    exact readSoFar_push hfs hitems

theorem readSoFar_afterValue (h : afterValue c stack = some t) : ReadSoFar floats t := by
  rcases stack with _ | ⟨items | ⟨items, key⟩, fs⟩
  · cases h
  · rw [afterValue] at h
    split_ifs at h
    · obtain rfl := Option.some.inj h
      exact readSoFar_of_stack hstack _
    · exact readSoFar_closeList hstack h
  · rw [afterValue] at h
    split_ifs at h
    · obtain rfl := Option.some.inj h
      exact readSoFar_of_stack hstack _
    · exact readSoFar_closeDict hstack h

theorem readSoFar_closeString {isKey : Bool} {acc : List CodePoint} (h : closeString isKey acc stack = some t) :
    ReadSoFar floats t := by
  cases isKey with
  | false =>
    obtain rfl := Option.some.inj h
    exact readSoFar_push hstack trivial
  | true =>
    rcases stack with _ | ⟨items | ⟨items, key⟩, fs⟩
    · cases h
    · cases h
    · obtain rfl := Option.some.inj h
      obtain ⟨hitems, hfs⟩ := List.forall_mem_cons.mp hstack
      exact ⟨List.forall_mem_cons.mpr ⟨hitems, hfs⟩, by simp⟩

theorem readSoFar_stepString {isKey : Bool} {acc : List CodePoint} {esc : Escape}
    (h : stepString stack isKey acc esc c = some t) : ReadSoFar floats t := by
  cases esc with
  | none =>
    rw [stepString] at h
    split_ifs at h
    · exact readSoFar_closeString hstack h
    · obtain rfl := Option.some.inj h
      exact readSoFar_of_stack hstack _
    · obtain rfl := Option.some.inj h
      exact readSoFar_of_stack hstack _
  | backslash =>
    rw [stepString] at h
    split_ifs at h
    · obtain rfl := Option.some.inj h
      exact readSoFar_of_stack hstack _
    · obtain ⟨d, -, rfl⟩ := Option.map_eq_some_iff.mp h
      exact readSoFar_of_stack hstack _
  | unicode left code =>
    obtain ⟨d, -, rfl⟩ := Option.map_eq_some_iff.mp h
    split_ifs
    · exact readSoFar_of_stack hstack _
    · exact readSoFar_of_stack hstack _

end Steps

/-- A character outside strings and words. -/
theorem ReadSoFar.stepOutside {s t : WideScan} {c : Char} (hs : ReadSoFar floats s) (h : s.stepOutside c = some t) :
    ReadSoFar floats t := by
  rw [WideScan.stepOutside] at h
  split at h
  · obtain rfl := Option.some.inj h
    exact hs
  · split at h
    · exact readSoFar_beginValue hs.stack h
    · split at h
      · exact readSoFar_closeList hs.stack h
      · exact readSoFar_beginValue hs.stack h
    · split_ifs at h
      · obtain rfl := Option.some.inj h
        exact readSoFar_of_stack hs.stack _
      · exact readSoFar_closeDict hs.stack h
    · split_ifs at h
      obtain rfl := Option.some.inj h
      exact readSoFar_of_stack hs.stack _
    · split_ifs at h
      obtain rfl := Option.some.inj h
      exact readSoFar_of_stack hs.stack _
    · exact readSoFar_afterValue hs.stack h
    · cases h
    · cases h

/-- One character keeps what has been read as it is. -/
theorem ReadSoFar.step {s t : WideScan} {c : Char} (hs : ReadSoFar floats s) (h : s.step floats c = some t) :
    ReadSoFar floats t := by
  rw [WideScan.step] at h
  split at h
  · exact readSoFar_stepString hs.stack h
  · split at h
    · obtain rfl := Option.some.inj h
      exact readSoFar_of_stack hs.stack _
    · obtain ⟨v, hv, h⟩ := Option.bind_eq_some_iff.mp h
      exact (readSoFar_push hs.stack (readable_wideValue hv)).stepOutside h
  · exact hs.stepOutside h

theorem ReadSoFar.run {s t : WideScan} {text : List Char} (hs : ReadSoFar floats s) (h : s.run floats text = some t) :
    ReadSoFar floats t := by
  induction text generalizing s with
  | nil =>
    obtain rfl := Option.some.inj h
    exact hs
  | cons c text ih =>
    rw [run_cons] at h
    obtain ⟨s', hstep, h⟩ := Option.bind_eq_some_iff.mp h
    exact ih (hs.step hstep) h

end WideScan

/-- **What is read.** Its numbers are short, and the keys of a `dict` are distinct. -/
theorem readable_of_wideLoads {floats : FloatRepr} {text : List Char} {v : WideJson} (h : wideLoads floats text = some v) :
    v.Readable floats := by
  obtain ⟨s, hrun, hfinish⟩ := Option.bind_eq_some_iff.mp h
  have hstart : WideScan.ReadSoFar floats WideScan.start := ⟨by simp [WideScan.start], by simp [WideScan.start]⟩
  rw [WideScan.finish] at hfinish
  split at hfinish
  · exact (hstart.run hrun).result v hfinish
  · cases hfinish

end Py
