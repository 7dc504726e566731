import AeloonRuntime.Lib.JsonScan
import AeloonRuntime.Lib.Utf8Replace

namespace Py

/-!
# Percent coding — a query that is written and read again

`urllib.parse`: a name or a value is written with its UTF-8 bytes, the unsafe ones as `%XX` and a blank as `+`; the
pairs are joined with `&` and `=`.  The reader turns `+` back before it looks for escapes.

* `quotePlus`, `urlencode` — what is written;
* `unquotePlus`, `parseQsl` — what is read;
* `unquotePlus_quotePlus` — a text comes back;
* `parseQsl_urlencode` — and so do the pairs of a query.
-/

/-! ### Writing -/

/-- `_ALWAYS_SAFE`. -/
def alwaysSafe (c : Char) : Bool := c.isAlphanum || ['_', '.', '-', '~'].contains c

/-- A byte as a character. -/
def charOf (b : UInt8) : Char := Char.ofNat b.toNat

/-- `"%{:02X}".format(b)`. -/
def percentByte (b : UInt8) : List Char :=
  ['%', (hexDigit (b.toNat / 16)).toUpper, (hexDigit (b.toNat % 16)).toUpper]

/-- A byte in `quote`. -/
def quoteByte (safe : List Char) (b : UInt8) : List Char :=
  if b.toNat < 0x80 ∧ (alwaysSafe (charOf b) ∨ charOf b ∈ safe) then [charOf b] else percentByte b

/-- `quote`. -/
def quote (safe text : List Char) : List Char := (encodeUtf8 text).data.toList.flatMap (quoteByte safe)

/-- `quote_plus`. -/
def quotePlus (safe text : List Char) : List Char :=
  if ' ' ∈ text then (quote (safe ++ [' ']) text).map fun c => if c = ' ' then '+' else c else quote safe text

/-- `urlencode`. -/
def urlencode (safe : List Char) (query : List (List Char × List Char)) : List Char :=
  ['&'].intercalate (query.map fun item => quotePlus safe item.1 ++ '=' :: quotePlus safe item.2)

/-! ### Reading -/

/-- `unquote_to_bytes`. -/
def unquoteToBytes : List UInt8 → List UInt8
  | b :: high :: low :: bytes =>
    match if b = 0x25 then (hexValue (charOf high)).bind fun h => (hexValue (charOf low)).map (16 * h + ·) else none with
    | some value => UInt8.ofNat value :: unquoteToBytes bytes
    | none => b :: unquoteToBytes (high :: low :: bytes)
  | b :: bytes => b :: unquoteToBytes bytes
  | [] => []

/-- `unquote` behind a run of ASCII characters; the runs are read as bytes. -/
def unquoteRun (run : List UInt8) : List Char → List Char
  | [] => decodeReplace (unquoteToBytes run)
  | c :: text =>
    if c.toNat < 0x80 then unquoteRun (run ++ [UInt8.ofNat c.toNat]) text
    else decodeReplace (unquoteToBytes run) ++ c :: unquoteRun [] text

/-- `unquote`. -/
def unquote (text : List Char) : List Char := unquoteRun [] text

/-- `unquote_plus`. -/
def unquotePlus (text : List Char) : List Char := unquote (text.map fun c => if c = '+' then ' ' else c)

/-- `str.partition`: what stands before the first separator, and what behind it if there is one. -/
def partition (separator : Char) (text : List Char) : List Char × Option (List Char) :=
  (text.takeWhile (· ≠ separator), (text.dropWhile (· ≠ separator)).tail?)

/-- `parse_qsl`; a pair without a value is left out. -/
def parseQsl (qs : List Char) : List (List Char × List Char) :=
  (qs.splitOn '&').filterMap fun nameValue =>
    match partition '=' nameValue with
    | (name, some value) => if value = [] then none else some (unquotePlus name, unquotePlus value)
    | (_, none) => none

/-! ### Separators -/

theorem partition_append {separator : Char} {front : List Char} (h : separator ∉ front) (back : List Char) :
    partition separator (front ++ separator :: back) = (front, some back) := by
  have hfront : ∀ c ∈ front, decide (c ≠ separator) = true := fun c hc =>
    decide_eq_true fun heq => h (heq ▸ hc)
  rw [partition, List.takeWhile_append_of_pos hfront, List.dropWhile_append_of_pos hfront]
  simp

theorem partition_of_not_mem {separator : Char} {text : List Char} (h : separator ∉ text) :
    partition separator text = (text, none) := by
  have htext : ∀ c ∈ text, decide (c ≠ separator) = true := fun c hc =>
    decide_eq_true fun heq => h (heq ▸ hc)
  rw [partition, List.takeWhile_eq_self_iff.mpr htext, List.dropWhile_eq_nil_iff.mpr htext]
  rfl

theorem not_mem_partition_fst (separator : Char) (text : List Char) : separator ∉ (partition separator text).1 :=
  fun h => by simpa using List.mem_takeWhile_imp h

/-- What is partitioned, put together again. -/
theorem partition_eq (separator : Char) (text : List Char) :
    (separator ∉ text ∧ partition separator text = (text, none))
      ∨ ∃ front back, text = front ++ separator :: back ∧ separator ∉ front
        ∧ partition separator text = (front, some back) := by
  by_cases h : separator ∈ text
  · obtain ⟨front, back, rfl, hfront⟩ := List.eq_append_cons_of_mem h
    exact .inr ⟨front, back, rfl, hfront, partition_append hfront back⟩
  · exact .inl ⟨h, partition_of_not_mem h⟩

/-- A character of a text that is joined is a separator, or stands in a piece. -/
theorem mem_of_mem_intercalate {separator c : Char} {pieces : List (List Char)}
    (h : c ∈ [separator].intercalate pieces) : c = separator ∨ ∃ piece ∈ pieces, c ∈ piece := by
  induction pieces with
  | nil => simp at h
  | cons piece pieces ih =>
    cases pieces with
    | nil => exact .inr ⟨piece, List.mem_singleton_self piece, by simpa using h⟩
    | cons next pieces =>
      rw [List.intercalate_cons_cons] at h
      simp only [List.mem_append, List.mem_singleton] at h
      rcases h with (h | h) | h
      · exact .inr ⟨piece, List.mem_cons_self, h⟩
      · exact .inl h
      · exact (ih h).imp_right fun ⟨piece, hpiece, hc⟩ => ⟨piece, List.mem_cons_of_mem _ hpiece, hc⟩

/-! ### One byte -/

/-- A written text as bytes, `+` turned back. -/
def readBytes (text : List Char) : List UInt8 :=
  (text.map fun c => if c = '+' then ' ' else c).map fun c => UInt8.ofNat c.toNat

theorem readBytes_append (text more : List Char) : readBytes (text ++ more) = readBytes text ++ readBytes more := by
  rw [readBytes, List.map_append, List.map_append, ← readBytes, ← readBytes]

theorem charOf_toNat {b : UInt8} (h : b.toNat < 0x80) : (charOf b).toNat = b.toNat :=
  (by decide : ∀ n < 0x80, (Char.ofNat n).toNat = n) b.toNat h

theorem ofNat_charOf {b : UInt8} (h : b.toNat < 0x80) : UInt8.ofNat (charOf b).toNat = b := by
  rw [charOf_toNat h, UInt8.ofNat_toNat]

/-- The digits of an escape are read as they are meant. -/
theorem hexDigit_upper : ∀ n < 16, (hexDigit n).toUpper ≠ '+' ∧ (hexDigit n).toUpper.isAlphanum = true
    ∧ hexValue (charOf (UInt8.ofNat (hexDigit n).toUpper.toNat)) = some n := by decide

theorem unquoteToBytes_cons {b : UInt8} (h : b ≠ 0x25) (bytes : List UInt8) :
    unquoteToBytes (b :: bytes) = b :: unquoteToBytes bytes := by
  match bytes with
  | [] => rfl
  | [_] => rfl
  | high :: low :: bytes => rw [unquoteToBytes, if_neg h]

theorem unquoteToBytes_percentByte (b : UInt8) (bytes : List UInt8) :
    unquoteToBytes (readBytes (percentByte b) ++ bytes) = b :: unquoteToBytes bytes := by
  have hb := b.toNat_lt
  obtain ⟨hhigh, -, hhighValue⟩ := hexDigit_upper (b.toNat / 16) (by omega)
  obtain ⟨hlow, -, hlowValue⟩ := hexDigit_upper (b.toNat % 16) (by omega)
  have hread : readBytes (percentByte b) = [0x25, UInt8.ofNat (hexDigit (b.toNat / 16)).toUpper.toNat,
      UInt8.ofNat (hexDigit (b.toNat % 16)).toUpper.toNat] := by
    simp only [readBytes, percentByte, List.map_cons, List.map_nil, if_neg hhigh, if_neg hlow]
    rfl
  have hvalue : 16 * (b.toNat / 16) + b.toNat % 16 = b.toNat := Nat.div_add_mod b.toNat 16
  simp only [hread, List.cons_append, List.nil_append, unquoteToBytes, if_pos, hhighValue, hlowValue,
    Option.bind_some, Option.map_some, hvalue, UInt8.ofNat_toNat]

section Safe

variable {safe : List Char} (hsafe : ∀ c ∈ safe, c ≠ '+' ∧ c ≠ '%')
include hsafe

/-- A byte is read back. -/
theorem unquoteToBytes_quoteByte (b : UInt8) (bytes : List UInt8) :
    unquoteToBytes (readBytes (quoteByte safe b) ++ bytes) = b :: unquoteToBytes bytes := by
  by_cases h : b.toNat < 0x80 ∧ (alwaysSafe (charOf b) ∨ charOf b ∈ safe)
  · have hplain : charOf b ≠ '+' ∧ charOf b ≠ '%' := by
      rcases h.2 with halways | hmem
      · constructor <;> intro heq <;> rw [heq] at halways <;> exact absurd halways (by decide)
      · exact hsafe _ hmem
    have hread : readBytes [charOf b] = [b] := by
      simp only [readBytes, List.map_cons, List.map_nil, if_neg hplain.1, ofNat_charOf h.1]
    have hpercent : b ≠ 0x25 := by
      rintro rfl
      exact hplain.2 (by decide)
    rw [quoteByte, if_pos h, hread, List.singleton_append, unquoteToBytes_cons hpercent]
  · rw [quoteByte, if_neg h, unquoteToBytes_percentByte]

theorem unquoteToBytes_quoteBytes (bytes : List UInt8) :
    unquoteToBytes (readBytes (bytes.flatMap (quoteByte safe))) = bytes := by
  induction bytes with
  | nil => rfl
  | cons b bytes ih => rw [List.flatMap_cons, readBytes_append, unquoteToBytes_quoteByte hsafe, ih]

end Safe

/-! ### A text -/

/-- The characters that are written. -/
def isWritten (safe : List Char) (c : Char) : Prop := alwaysSafe c = true ∨ c ∈ safe ∨ c = '%' ∨ c = '+'

theorem isWritten_percentByte (safe : List Char) (b : UInt8) : ∀ c ∈ percentByte b, isWritten safe c := by
  have hb := b.toNat_lt
  have hdigit (n : Nat) (h : n < 16) : isWritten safe (hexDigit n).toUpper :=
    .inl (by rw [alwaysSafe, (hexDigit_upper n h).2.1, Bool.true_or])
  intro c hc
  simp only [percentByte, List.mem_cons, List.not_mem_nil, or_false] at hc
  rcases hc with rfl | rfl | rfl
  · exact .inr (.inr (.inl rfl))
  · exact hdigit _ (by omega)
  · exact hdigit _ (by omega)

theorem isWritten_quote (safe text : List Char) : ∀ c ∈ quote safe text, isWritten safe c := by
  intro c hc
  obtain ⟨b, -, hc⟩ := List.mem_flatMap.mp hc
  by_cases h : b.toNat < 0x80 ∧ (alwaysSafe (charOf b) ∨ charOf b ∈ safe)
  · rw [quoteByte, if_pos h, List.mem_singleton] at hc
    subst hc
    exact h.2.imp_right .inl
  · rw [quoteByte, if_neg h] at hc
    exact isWritten_percentByte safe b c hc

theorem isWritten_quotePlus (safe text : List Char) : ∀ c ∈ quotePlus safe text, isWritten safe c := by
  intro c hc
  by_cases h : ' ' ∈ text
  · rw [quotePlus, if_pos h] at hc
    obtain ⟨a, ha, rfl⟩ := List.mem_map.mp hc
    by_cases hspace : a = ' '
    · rw [if_pos hspace]
      exact .inr (.inr (.inr rfl))
    · rw [if_neg hspace]
      rcases isWritten_quote _ text a ha with halways | hmem | hother
      · exact .inl halways
      · rcases List.mem_append.mp hmem with hmem | hmem
        · exact .inr (.inl hmem)
        · exact absurd (List.mem_singleton.mp hmem) hspace
      · exact .inr (.inr hother)
  · rw [quotePlus, if_neg h] at hc
    exact isWritten_quote safe text c hc

theorem quoteByte_ne_nil (safe : List Char) (b : UInt8) : quoteByte safe b ≠ [] := by
  rw [quoteByte]
  split
  · exact List.cons_ne_nil _ _
  · exact List.cons_ne_nil _ _

theorem quote_ne_nil (safe : List Char) {text : List Char} (h : text ≠ []) : quote safe text ≠ [] := by
  intro hnil
  have hpos := size_encodeUtf8_pos h
  rw [quote, List.flatMap_eq_nil_iff] at hnil
  obtain ⟨b, hb⟩ := List.exists_mem_of_length_pos (l := (encodeUtf8 text).data.toList) (by simpa using hpos)
  exact quoteByte_ne_nil safe b (hnil b hb)

theorem quotePlus_ne_nil (safe : List Char) {text : List Char} (h : text ≠ []) : quotePlus safe text ≠ [] := by
  rw [quotePlus]
  split
  · exact fun hnil => quote_ne_nil _ h (List.map_eq_nil_iff.mp hnil)
  · exact quote_ne_nil safe h

/-- A text of ASCII characters is one run. -/
theorem unquoteRun_ascii (run : List UInt8) {text : List Char} (h : ∀ c ∈ text, c.toNat < 0x80) :
    unquoteRun run text = decodeReplace (unquoteToBytes (run ++ text.map fun c => UInt8.ofNat c.toNat)) := by
  induction text generalizing run with
  | nil => rw [unquoteRun, List.map_nil, List.append_nil]
  | cons c text ih =>
    obtain ⟨hc, htext⟩ := List.forall_mem_cons.mp h
    rw [unquoteRun, if_pos hc, ih _ htext, List.map_cons, List.append_assoc, List.singleton_append]

/-- What is written is printed, when the safe characters are. -/
theorem printed_of_isWritten {safe : List Char} (hsafe : ∀ c ∈ safe, 0x21 ≤ c.toNat ∧ c.toNat < 0x80) {c : Char}
    (h : isWritten safe c) : 0x21 ≤ c.toNat ∧ c.toNat < 0x80 := by
  rcases h with halways | hmem | rfl | rfl
  · rw [alwaysSafe, Bool.or_eq_true] at halways
    rcases halways with hletter | hmem
    · have hrange := isAlphanum_iff.mp hletter
      omega
    · simp only [List.contains_iff_mem, List.mem_cons, List.not_mem_nil, or_false] at hmem
      rcases hmem with rfl | rfl | rfl | rfl <;> decide
  · exact hsafe c hmem
  · decide
  · decide

/-- **A text comes back.** -/
theorem unquotePlus_quotePlus {safe : List Char}
    (hsafe : ∀ c ∈ safe, (0x21 ≤ c.toNat ∧ c.toNat < 0x80) ∧ c ≠ '+' ∧ c ≠ '%')
    (text : List Char) : unquotePlus (quotePlus safe text) = text := by
  have hascii : ∀ c ∈ quotePlus safe text, c.toNat < 0x80 := fun c hc =>
    (printed_of_isWritten (fun c hc => (hsafe c hc).1) (isWritten_quotePlus safe text c hc)).2
  have hplus : ∀ c ∈ (quotePlus safe text).map fun c => if c = '+' then ' ' else c, c.toNat < 0x80 := by
    intro c hc
    obtain ⟨a, ha, rfl⟩ := List.mem_map.mp hc
    split
    · decide
    · exact hascii a ha
  have hbytes : unquoteToBytes (readBytes (quotePlus safe text)) = (encodeUtf8 text).data.toList := by
    by_cases h : ' ' ∈ text
    · have hsame (cs : List Char) : readBytes (cs.map fun c => if c = ' ' then '+' else c) = readBytes cs := by
        simp only [readBytes, List.map_map]
        refine List.map_congr_left fun c _ => ?_
        by_cases hc : c = ' '
        · simp [hc]
        · simp [hc]
      have hspace : ∀ c ∈ safe ++ [' '], c ≠ '+' ∧ c ≠ '%' := by
        intro c hc
        rcases List.mem_append.mp hc with hc | hc
        · exact (hsafe c hc).2
        · rw [List.mem_singleton.mp hc]
          decide
      rw [quotePlus, if_pos h, hsame, quote, unquoteToBytes_quoteBytes hspace]
    · rw [quotePlus, if_neg h, quote, unquoteToBytes_quoteBytes fun c hc => (hsafe c hc).2]
  rw [unquotePlus, unquote, unquoteRun_ascii _ hplus, List.nil_append, ← readBytes, hbytes, decodeReplace_encode]

/-! ### A query -/

theorem isWritten_urlencode (safe : List Char) (query : List (List Char × List Char)) :
    ∀ c ∈ urlencode safe query, isWritten safe c ∨ c = '&' ∨ c = '=' := by
  intro c hc
  rcases mem_of_mem_intercalate hc with heq | ⟨piece, hpiece, hc⟩
  · exact .inr (.inl heq)
  · obtain ⟨item, -, rfl⟩ := List.mem_map.mp hpiece
    rw [List.mem_append, List.mem_cons] at hc
    rcases hc with hc | heq | hc
    · exact .inl (isWritten_quotePlus safe item.1 c hc)
    · exact .inr (.inr heq)
    · exact .inl (isWritten_quotePlus safe item.2 c hc)

/-- **The pairs of a query come back** when each has a value. -/
theorem parseQsl_urlencode {safe : List Char}
    (hsafe : ∀ c ∈ safe, (0x21 ≤ c.toNat ∧ c.toNat < 0x80) ∧ c ≠ '+' ∧ c ≠ '%' ∧ c ≠ '&' ∧ c ≠ '=')
    {query : List (List Char × List Char)} (h : ∀ item ∈ query, item.2 ≠ []) :
    parseQsl (urlencode safe query) = query := by
  have hread (text : List Char) : unquotePlus (quotePlus safe text) = text :=
    unquotePlus_quotePlus (fun c hc => ⟨(hsafe c hc).1, (hsafe c hc).2.1, (hsafe c hc).2.2.1⟩) text
  have hseparator {c : Char} (hplain : alwaysSafe c = false ∧ c ≠ '%' ∧ c ≠ '+') (hc : c ∉ safe) (text : List Char) :
      c ∉ quotePlus safe text := by
    intro hmem
    rcases isWritten_quotePlus safe text c hmem with h | h | h | h
    · exact absurd h (by simp [hplain.1])
    · exact hc h
    · exact hplain.2.1 h
    · exact hplain.2.2 h
  have hamp : '&' ∉ safe := fun hmem => (hsafe _ hmem).2.2.2.1 rfl
  have heq : '=' ∉ safe := fun hmem => (hsafe _ hmem).2.2.2.2 rfl
  cases query with
  | nil => rfl
  | cons item items =>
    have hpieces : ∀ piece ∈ (item :: items).map fun item => quotePlus safe item.1 ++ '=' :: quotePlus safe item.2,
        '&' ∉ piece := by
      intro piece hpiece
      obtain ⟨item, -, rfl⟩ := List.mem_map.mp hpiece
      simp [hseparator (by decide) hamp]
    rw [parseQsl, urlencode, List.splitOn_intercalate _ hpieces (by simp), List.filterMap_map]
    refine (List.filterMap_congr fun item hitem => ?_).trans List.filterMap_some
    rw [Function.comp_apply, partition_append (hseparator (by decide) heq item.1)]
    simp only [if_neg (quotePlus_ne_nil safe (h item hitem)), hread]

end Py
