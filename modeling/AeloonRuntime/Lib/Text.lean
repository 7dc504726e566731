import Mathlib.Algebra.Ring.Nat
import Mathlib.Data.List.Basic
import Mathlib.Tactic.Common

namespace Py

/-!
# Python text — lines, blanks and strict UTF-8

The parts of `str` and of text files that a line-oriented reader rests on:

* `splitlines` — `str.splitlines` with its documented boundary set;
* `isBlank` — `not s.strip()`;
* `universalNewlines` — the newline translation of a text-mode read;
* `decodeUtf8` — strict decoding, `none` where Python raises `UnicodeDecodeError`.

A text is a `List Char`; a file is a `ByteArray`.
-/

/-! ### Letters of ASCII -/

section Letters

variable {c : Char}

theorem isUpper_iff : c.isUpper = true ↔ 65 ≤ c.toNat ∧ c.toNat ≤ 90 :=
  decide_eq_true_iff.trans (and_congr UInt32.le_iff_toNat_le UInt32.le_iff_toNat_le)

theorem isLower_iff : c.isLower = true ↔ 97 ≤ c.toNat ∧ c.toNat ≤ 122 :=
  Bool.and_eq_true_iff.trans
    (and_congr (decide_eq_true_iff.trans UInt32.le_iff_toNat_le) (decide_eq_true_iff.trans UInt32.le_iff_toNat_le))

theorem isAlpha_iff : c.isAlpha = true ↔ c.isUpper = true ∨ c.isLower = true :=
  Bool.or_eq_true_iff

theorem isAlphanum_iff : c.isAlphanum = true ↔
    ((65 ≤ c.toNat ∧ c.toNat ≤ 90) ∨ (97 ≤ c.toNat ∧ c.toNat ≤ 122)) ∨ (48 ≤ c.toNat ∧ c.toNat ≤ 57) :=
  Bool.or_eq_true_iff.trans
    (or_congr (isAlpha_iff.trans (or_congr isUpper_iff isLower_iff)) Char.isDigit_iff_toNat)

/-- Only a capital has another small letter. -/
theorem toLower_of_not_upper (h : ¬(65 ≤ c.toNat ∧ c.toNat ≤ 90)) : c.toLower = c :=
  dif_neg fun hupper => h (isUpper_iff.mp (decide_eq_true hupper))

end Letters

/-! ### Line boundaries -/

/-- The characters at which `str.splitlines` ends a line. -/
def isLineBoundary (c : Char) : Bool :=
  c = '\n' || c = '\r' || c = '\x0b' || c = '\x0c' || c = '\x1c' || c = '\x1d' || c = '\x1e'
    || c = '\u0085' || c = '\u2028' || c = '\u2029'

/-- The boundaries above the ASCII range: NEL, LINE SEPARATOR and PARAGRAPH SEPARATOR. -/
def isUnicodeSeparator (c : Char) : Bool :=
  c = '\u0085' || c = '\u2028' || c = '\u2029'

/-- A boundary is a control character below U+0020 or one of the three separators above ASCII. -/
theorem isLineBoundary_cases {c : Char} (h : isLineBoundary c = true) :
    c.toNat < 0x20 ∨ isUnicodeSeparator c = true := by
  simp only [isLineBoundary, isUnicodeSeparator, Bool.or_eq_true, decide_eq_true_eq] at h ⊢
  rcases h with ((((((((h | h) | h) | h) | h) | h) | h) | h) | h) | h <;> subst h <;> decide

theorem isLineBoundary_of_separator {c : Char} (h : isUnicodeSeparator c = true) :
    isLineBoundary c = true := by
  simp only [isLineBoundary, isUnicodeSeparator, Bool.or_eq_true, decide_eq_true_eq] at h ⊢
  tauto

/-- `str.splitlines()`: `\r\n` is one boundary, and a boundary at the very end opens no line. -/
def splitlines : List Char → List (List Char)
  | [] => []
  | c :: cs =>
    if c = '\r' then
      match cs with
      | '\n' :: cs' => [] :: splitlines cs'
      | cs => [] :: splitlines cs
    else if isLineBoundary c then [] :: splitlines cs
    else
      match splitlines cs with
      | [] => [[c]]
      | line :: lines => (c :: line) :: lines

@[simp] theorem splitlines_nil : splitlines [] = [] := rfl

/-- The lines of a text with a character in it. -/
theorem splitlines_cons_eq (c : Char) (cs : List Char) :
    splitlines (c :: cs)
      = if c = '\r' then
          match cs with
          | '\n' :: cs' => [] :: splitlines cs'
          | cs => [] :: splitlines cs
        else if isLineBoundary c then [] :: splitlines cs
        else
          match splitlines cs with
          | [] => [[c]]
          | line :: lines => (c :: line) :: lines := by
  rw [splitlines.eq_def]

/-- A boundary other than `\r` at the front closes an empty line. -/
theorem splitlines_boundary {c : Char} (cs : List Char) (hc : isLineBoundary c = true)
    (hr : c ≠ '\r') : splitlines (c :: cs) = [] :: splitlines cs := by
  rw [splitlines_cons_eq]
  simp [hr, hc]

/-- Any other character joins the first line of the rest. -/
theorem splitlines_cons {c : Char} (cs : List Char) (hc : isLineBoundary c = false) :
    splitlines (c :: cs)
      = match splitlines cs with
        | [] => [[c]]
        | line :: lines => (c :: line) :: lines := by
  have hr : c ≠ '\r' := by rintro rfl; exact absurd hc (by decide)
  rw [splitlines_cons_eq]
  simp [hr, hc]

/-- A line free of boundaries, its boundary, and the rest. -/
theorem splitlines_line (line : List Char) {b : Char} (rest : List Char)
    (hline : ∀ c ∈ line, isLineBoundary c = false) (hb : isLineBoundary b = true)
    (hr : b ≠ '\r') : splitlines (line ++ b :: rest) = line :: splitlines rest := by
  induction line with
  | nil => exact splitlines_boundary rest hb hr
  | cons c line ih =>
    have hc : isLineBoundary c = false := hline c (by simp)
    have ih' := ih (fun d hd => hline d (by simp [hd]))
    rw [List.cons_append, splitlines_cons _ hc, ih']

/-- A last line without a boundary at its end. -/
theorem splitlines_last (line : List Char) (hline : ∀ c ∈ line, isLineBoundary c = false)
    (hne : line ≠ []) : splitlines line = [line] := by
  induction line with
  | nil => exact absurd rfl hne
  | cons c line ih =>
    have hc : isLineBoundary c = false := hline c (by simp)
    rw [splitlines_cons _ hc]
    rcases eq_or_ne line [] with rfl | hl
    · simp
    · rw [ih (fun d hd => hline d (by simp [hd])) hl]

/-- Splitting a text at its first boundary: no line holds one. -/
theorem exists_boundary_split (text : List Char) (h : ∃ c ∈ text, isLineBoundary c = true) :
    ∃ line b rest, text = line ++ b :: rest ∧ isLineBoundary b = true ∧
      ∀ c ∈ line, isLineBoundary c = false := by
  induction text with
  | nil => obtain ⟨c, hc, _⟩ := h; simp at hc
  | cons c cs ih =>
    by_cases hc : isLineBoundary c = true
    · exact ⟨[], c, cs, rfl, hc, by simp⟩
    · have hcs : ∃ d ∈ cs, isLineBoundary d = true := by
        obtain ⟨d, hd, hb⟩ := h
        rcases List.mem_cons.mp hd with rfl | hd
        · exact absurd hb hc
        · exact ⟨d, hd, hb⟩
      obtain ⟨line, b, rest, rfl, hb, hline⟩ := ih hcs
      refine ⟨c :: line, b, rest, rfl, hb, ?_⟩
      intro d hd
      rcases List.mem_cons.mp hd with rfl | hd
      · simpa using hc
      · exact hline d hd

/-- No line holds a boundary. -/
theorem not_boundary_of_mem_splitlines (text : List Char) :
    ∀ line ∈ splitlines text, ∀ c ∈ line, isLineBoundary c = false := by
  fun_induction splitlines text with
  | case1 => simp
  | case2 cs ih => simpa using ih
  | case3 cs hn ih => simpa using ih
  | case4 c cs hr hc ih => simpa using ih
  | case5 c cs hr hc hnil ih => simpa using hc
  | case6 c cs hr hc line lines hcons ih =>
    rw [hcons] at ih
    intro l hl d hd
    rcases List.mem_cons.mp hl with rfl | hl
    · rcases List.mem_cons.mp hd with rfl | hd
      · simpa using hc
      · exact ih line (by simp) d hd
    · exact ih l (by simp [hl]) d hd

/-! ### Text appended behind other text

What a second writer adds behind an unfinished last line continues that line; behind a finished
one it starts a line of its own. -/

/-- A text with a character in it has a line. -/
theorem splitlines_ne_nil {text : List Char} (h : text ≠ []) : splitlines text ≠ [] := by
  cases text with
  | nil => exact absurd rfl h
  | cons c cs =>
    rw [splitlines_cons_eq]
    grind

/-- `\r\n` is one boundary. -/
theorem splitlines_crlf (cs : List Char) : splitlines ('\r' :: '\n' :: cs) = [] :: splitlines cs := by
  rw [splitlines_cons_eq]; simp

/-- A `\r` that no `\n` follows is a boundary of its own. -/
theorem splitlines_cr (cs : List Char) (hcs : cs.head? ≠ some '\n') :
    splitlines ('\r' :: cs) = [] :: splitlines cs := by
  rw [splitlines_cons_eq]
  cases cs with
  | nil => simp
  | cons d cs =>
    have hd : d ≠ '\n' := by simpa using hcs
    simp [hd]

/-- Splitting off the head of a list that ends with `last` and goes on behind its head. -/
private theorem cons_eq_append_last {α : Type} {a last : α} {xs lines : List α} (hxs : xs ≠ [])
    (h : a :: xs = lines ++ [last]) : ∃ ls, lines = a :: ls ∧ xs = ls ++ [last] := by
  cases lines with
  | nil => simp_all
  | cons b ls =>
    simp only [List.cons_append, List.cons.injEq] at h
    exact ⟨ls, by rw [h.1], h.2⟩

/-- An unfinished text stays unfinished without its first character. -/
private theorem open_tail {c : Char} {cs : List Char} (hcs : cs ≠ [])
    (hopen : ∀ d, (c :: cs).getLast? = some d → isLineBoundary d = false) :
    ∀ d, cs.getLast? = some d → isLineBoundary d = false := by
  intro d hd
  apply hopen d
  rw [List.getLast?_cons]
  cases hl : cs.getLast? with
  | none => exact absurd (List.getLast?_eq_none_iff.mp hl) hcs
  | some e => rw [hl] at hd; simpa using hd

/-- Behind an unfinished last line, the new text continues it and leaves the others alone. -/
theorem splitlines_append_open (text rest : List Char) (lines : List (List Char))
    (last : List Char) (h : splitlines text = lines ++ [last])
    (hopen : ∀ c, text.getLast? = some c → isLineBoundary c = false) :
    splitlines (text ++ rest) = lines ++ splitlines (last ++ rest) := by
  fun_induction splitlines text generalizing lines last with
  | case1 => simp at h
  | case2 cs ih =>
    have hcs : cs ≠ [] := by rintro rfl; exact absurd (hopen '\n' (by simp)) (by decide)
    obtain ⟨ls, rfl, hls⟩ := cons_eq_append_last (splitlines_ne_nil hcs) h
    have hih := ih ls _ hls (open_tail hcs (open_tail (by simp) hopen))
    rw [List.cons_append, List.cons_append, splitlines_crlf, hih, List.cons_append]
  | case3 cs hn ih =>
    have hcs : cs ≠ [] := by rintro rfl; exact absurd (hopen '\r' (by simp)) (by decide)
    obtain ⟨ls, rfl, hls⟩ := cons_eq_append_last (splitlines_ne_nil hcs) h
    have hhead : (cs ++ rest).head? ≠ some '\n' := by
      cases cs with
      | nil => exact absurd rfl hcs
      | cons d cs => rintro hd; exact hn cs (by simpa using hd)
    rw [List.cons_append, splitlines_cr _ hhead, ih ls _ hls (open_tail hcs hopen), List.cons_append]
  | case4 c cs hr hc ih =>
    have hcs : cs ≠ [] := by
      rintro rfl
      exact absurd (hopen c (by simp)) (by simp [hc])
    obtain ⟨ls, rfl, hls⟩ := cons_eq_append_last (splitlines_ne_nil hcs) h
    rw [List.cons_append, splitlines_boundary _ hc hr, ih ls _ hls (open_tail hcs hopen),
      List.cons_append]
  | case5 c cs hr hc hnil ih =>
    have hcs : cs = [] := by by_contra hcs; exact splitlines_ne_nil hcs hnil
    obtain ⟨rfl, rfl⟩ : lines = [] ∧ last = [c] := by cases lines <;> simp_all
    simp [hcs]
  | case6 c cs hr hc line lines' hcons ih =>
    have hcs : cs ≠ [] := by rintro rfl; simp at hcons
    have hc' : isLineBoundary c = false := by simpa using hc
    rw [List.cons_append, splitlines_cons _ hc']
    cases lines with
    | nil =>
      obtain ⟨rfl, rfl⟩ : c :: line = last ∧ lines' = [] := by simpa using h
      rw [ih [] line hcons (open_tail hcs hopen), List.nil_append, List.nil_append,
        List.cons_append, splitlines_cons _ hc']
    | cons l ls =>
      obtain ⟨rfl, rfl⟩ : c :: line = l ∧ lines' = ls ++ [last] := by simpa using h
      rw [ih (line :: ls) _ hcons (open_tail hcs hopen)]
      rfl

/-- Behind a finished last line, a text that does not start with `\n` starts a line of its own. -/
theorem splitlines_append_closed (text rest : List Char) (hrest : rest.head? ≠ some '\n')
    (hclosed : ∀ c, text.getLast? = some c → isLineBoundary c = true) :
    splitlines (text ++ rest) = splitlines text ++ splitlines rest := by
  have tail : ∀ {c : Char} {cs : List Char},
      (∀ d, (c :: cs).getLast? = some d → isLineBoundary d = true) →
      ∀ d, cs.getLast? = some d → isLineBoundary d = true := by
    intro c cs hlast d hd
    apply hlast d
    rw [List.getLast?_cons, hd]; rfl
  fun_induction splitlines text with
  | case1 => simp
  | case2 cs ih =>
    rw [List.cons_append, List.cons_append, splitlines_crlf, ih (tail (tail hclosed)),
      List.cons_append]
  | case3 cs hn ih =>
    have hhead : (cs ++ rest).head? ≠ some '\n' := by
      cases cs with
      | nil => exact hrest
      | cons d cs => rintro hd; exact hn cs (by simpa using hd)
    rw [List.cons_append, splitlines_cr _ hhead, ih (tail hclosed), List.cons_append]
  | case4 c cs hr hc ih =>
    rw [List.cons_append, splitlines_boundary _ hc hr, ih (tail hclosed), List.cons_append]
  | case5 c cs hr hc hnil ih =>
    have hcs : cs = [] := by by_contra hcs; exact splitlines_ne_nil hcs hnil
    subst hcs
    exact absurd (hclosed c (by simp)) hc
  | case6 c cs hr hc line lines hcons ih =>
    have hc' : isLineBoundary c = false := by simpa using hc
    rw [List.cons_append, splitlines_cons _ hc', ih (tail hclosed), hcons]
    rfl

/-! ### Blank lines -/

/-- The characters `str.strip` removes. -/
def isSpace (c : Char) : Bool :=
  (9 ≤ c.toNat && c.toNat ≤ 13) || (0x1c ≤ c.toNat && c.toNat ≤ 0x20) || c.toNat = 0x85
    || c.toNat = 0xa0 || c.toNat = 0x1680 || (0x2000 ≤ c.toNat && c.toNat ≤ 0x200a)
    || c.toNat = 0x2028 || c.toNat = 0x2029 || c.toNat = 0x202f || c.toNat = 0x205f
    || c.toNat = 0x3000

/-- `not line.strip()`. -/
def isBlank (line : List Char) : Bool := line.all isSpace

/-! ### Reading a file as text -/

/-- Universal newlines: a text-mode read turns `\r\n` and `\r` into `\n`. -/
def universalNewlines : List Char → List Char
  | [] => []
  | c :: cs =>
    if c = '\r' then
      match cs with
      | '\n' :: cs' => '\n' :: universalNewlines cs'
      | cs => '\n' :: universalNewlines cs
    else c :: universalNewlines cs

/-- A text without `\r` reads back as it was written. -/
theorem universalNewlines_of_no_cr (text : List Char) (h : '\r' ∉ text) :
    universalNewlines text = text := by
  induction text with
  | nil => simp [universalNewlines]
  | cons c cs ih =>
    obtain ⟨hc, hcs⟩ : '\r' ≠ c ∧ '\r' ∉ cs := by simpa using h
    rw [universalNewlines.eq_def]
    simp [hc.symm, ih hcs]

/-- Newline translation goes piece by piece, unless the cut falls inside `\r\n`. -/
theorem universalNewlines_append (text rest : List Char) (h : rest.head? ≠ some '\n') :
    universalNewlines (text ++ rest) = universalNewlines text ++ universalNewlines rest := by
  fun_induction universalNewlines text with
  | case1 => simp
  | case2 cs ih =>
    rw [List.cons_append, List.cons_append, universalNewlines.eq_def]
    simp [ih]
  | case3 cs hn ih =>
    have hhead : ∀ cs', cs ++ rest = '\n' :: cs' → False := by
      intro cs' heq
      cases cs with
      | nil => exact h (by simp_all)
      | cons d cs => exact hn cs (by simp_all)
    rw [List.cons_append, universalNewlines.eq_def]
    simp only [↓reduceIte, List.cons_append, ← ih]
  | case4 c cs hc ih =>
    rw [List.cons_append, universalNewlines.eq_def]
    simp [hc, ih]

/-- UTF-8 encoding. -/
def encodeUtf8 (text : List Char) : ByteArray := (String.ofList text).toByteArray

theorem encodeUtf8_eq (text : List Char) : encodeUtf8 text = text.utf8Encode :=
  String.toByteArray_ofList

/-- Encoding goes piece by piece. -/
theorem encodeUtf8_append (text more : List Char) :
    encodeUtf8 (text ++ more) = encodeUtf8 text ++ encodeUtf8 more := by
  simp only [encodeUtf8_eq, List.utf8Encode_append]

theorem size_encodeUtf8_append (text more : List Char) :
    (encodeUtf8 (text ++ more)).size = (encodeUtf8 text).size + (encodeUtf8 more).size := by
  rw [encodeUtf8_append, ByteArray.size_append]

@[simp] theorem size_encodeUtf8_singleton (c : Char) : (encodeUtf8 [c]).size = c.utf8Size := by
  simp [encodeUtf8_eq, List.utf8Encode_singleton]

/-- The bytes of a text are those of its characters. -/
theorem size_encodeUtf8 (text : List Char) : (encodeUtf8 text).size = (text.map Char.utf8Size).sum := by
  induction text with
  | nil => simp [encodeUtf8_eq]
  | cons c text ih =>
    rw [← List.singleton_append, size_encodeUtf8_append, size_encodeUtf8_singleton, ih]
    rfl

/-- Every character takes a byte. -/
theorem size_encodeUtf8_pos {text : List Char} (h : text ≠ []) : 0 < (encodeUtf8 text).size := by
  cases text with
  | nil => exact absurd rfl h
  | cons c cs =>
    have hpos := c.utf8Size_pos
    rw [← List.singleton_append, size_encodeUtf8_append, size_encodeUtf8_singleton]
    omega

/-- Strict UTF-8 decoding; `none` is `UnicodeDecodeError`. -/
def decodeUtf8 (bytes : ByteArray) : Option (List Char) :=
  bytes.utf8Decode?.map Array.toList

@[simp] theorem decodeUtf8_encode (text : List Char) : decodeUtf8 (encodeUtf8 text) = some text := by
  simp [decodeUtf8, encodeUtf8_eq]

/-- What decodes is the encoding of what it decodes to. -/
theorem encode_of_decodeUtf8 {bytes : ByteArray} {text : List Char}
    (h : decodeUtf8 bytes = some text) : encodeUtf8 text = bytes := by
  simp only [decodeUtf8, Option.map_eq_some_iff] at h
  obtain ⟨chars, hchars, rfl⟩ := h
  have hsome : bytes.utf8Decode?.isSome := by simp [hchars]
  have hget := ByteArray.utf8Encode_get_utf8Decode? (h := hsome)
  simpa [hchars, encodeUtf8_eq] using hget

/-- A text behind decodable bytes decodes behind them. -/
theorem decodeUtf8_append {bytes : ByteArray} {text : List Char} (more : List Char)
    (h : decodeUtf8 bytes = some text) :
    decodeUtf8 (bytes ++ encodeUtf8 more) = some (text ++ more) := by
  rw [← encode_of_decodeUtf8 h, ← encodeUtf8_append, decodeUtf8_encode]

/-- **Truncation.** The first `n` bytes of an encoded text decode exactly when the cut falls
    between two characters, and then to the characters before the cut. -/
theorem decodeUtf8_extract (text pre : List Char) (n : Nat) (hn : n ≤ (encodeUtf8 text).size) :
    decodeUtf8 ((encodeUtf8 text).extract 0 n) = some pre
      ↔ ∃ suf, text = pre ++ suf ∧ (encodeUtf8 pre).size = n := by
  constructor
  · intro h
    have henc := encode_of_decodeUtf8 h
    have hsplit : encodeUtf8 pre ++ (encodeUtf8 text).extract n (encodeUtf8 text).size
        = encodeUtf8 text := by
      rw [henc, ← ByteArray.extract_eq_extract_append_extract n (by omega) hn,
        ByteArray.extract_zero_size]
    rw [encodeUtf8_eq pre, encodeUtf8_eq text] at hsplit
    obtain ⟨suf, rfl⟩ := List.isPrefix_of_utf8Encode_append_eq_utf8Encode _ hsplit
    refine ⟨suf, rfl, ?_⟩
    rw [henc, ByteArray.size_extract]
    omega
  · rintro ⟨suf, rfl, rfl⟩
    rw [encodeUtf8_append, ByteArray.extract_append_eq_left rfl, decodeUtf8_encode]

end Py
