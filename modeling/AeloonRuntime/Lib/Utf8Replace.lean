import AeloonRuntime.Lib.Text
import Mathlib.Data.List.Chain

namespace Py

/-!
# `bytes.decode("utf-8", errors="replace")`

Decoding that never fails: every maximal part of an ill-formed sequence is one U+FFFD.

* `utf8Step` — one byte behind the bytes of an unfinished character;
* `decodeReplace` — a whole text; what is unfinished at its end is one U+FFFD;
* `decodeReplace_encode` — an encoded text is decoded as it was;
* `newline_mem_of_mem_decodeReplace`, `forall_newline_of_decodeReplace` — a line break is decoded from its byte
  only;
* `pending` — the unfinished character at the end of some bytes;
* `decodeReplace_flatten_iff` — chunks that are decoded one by one are the decoded whole exactly if no chunk
  goes on with the unfinished character of the one before.
-/

/-- U+FFFD. -/
def replacementChar : Char := '\uFFFD'

/-- How many bytes the character of a first byte has. -/
def utf8Length (lead : UInt8) : Nat :=
  if lead.toNat < 0xE0 then 2 else if lead.toNat < 0xF0 then 3 else 4

/-- The least byte that may stand second. -/
def utf8Low (lead : UInt8) : Nat := if lead.toNat = 0xE0 then 0xA0 else if lead.toNat = 0xF0 then 0x90 else 0x80

/-- The greatest byte that may stand second. -/
def utf8High (lead : UInt8) : Nat := if lead.toNat = 0xED then 0x9F else if lead.toNat = 0xF4 then 0x8F else 0xBF

/-- A byte goes on with an unfinished character. -/
def continues : List UInt8 → UInt8 → Bool
  | [], _ => false
  | [lead], b => utf8Low lead ≤ b.toNat && b.toNat ≤ utf8High lead
  | _ :: _ :: _, b => 0x80 ≤ b.toNat && b.toNat ≤ 0xBF

/-- The code point of the bytes of a character. -/
def codePoint : List UInt8 → Nat
  | [a, b] => (a.toNat - 0xC0) * 64 + (b.toNat - 0x80)
  | [a, b, c] => (a.toNat - 0xE0) * 4096 + (b.toNat - 0x80) * 64 + (c.toNat - 0x80)
  | [a, b, c, d] =>
    (a.toNat - 0xF0) * 262144 + (b.toNat - 0x80) * 4096 + (c.toNat - 0x80) * 64 + (d.toNat - 0x80)
  | _ => 0

/-- A byte where a character begins: what it is decoded to, and what is unfinished behind it. -/
def utf8Start (b : UInt8) : List Char × List UInt8 :=
  if b.toNat < 0x80 then ([Char.ofNat b.toNat], [])
  else if 0xC2 ≤ b.toNat ∧ b.toNat ≤ 0xF4 then ([], [b])
  else ([replacementChar], [])

/-- What is left of an unfinished character that does not go on. -/
def utf8Flush (unfinished : List UInt8) : List Char := if unfinished = [] then [] else [replacementChar]

/-- One byte behind an unfinished character. -/
def utf8Step (unfinished : List UInt8) (b : UInt8) : List Char × List UInt8 :=
  if continues unfinished b then
    if unfinished.length + 1 = utf8Length (unfinished.headD 0) then
      ([Char.ofNat (codePoint (unfinished ++ [b]))], [])
    else ([], unfinished ++ [b])
  else (utf8Flush unfinished ++ (utf8Start b).1, (utf8Start b).2)

/-- What bytes behind an unfinished character are decoded to, but for what they leave unfinished. -/
def decoded : List UInt8 → List UInt8 → List Char
  | _, [] => []
  | unfinished, b :: bytes => (utf8Step unfinished b).1 ++ decoded (utf8Step unfinished b).2 bytes

/-- What bytes behind an unfinished character leave unfinished. -/
def pending : List UInt8 → List UInt8 → List UInt8
  | unfinished, [] => unfinished
  | unfinished, b :: bytes => pending (utf8Step unfinished b).2 bytes

/-- Decoding behind an unfinished character. -/
def decodeBehind (unfinished bytes : List UInt8) : List Char :=
  decoded unfinished bytes ++ utf8Flush (pending unfinished bytes)

/-- `bytes.decode("utf-8", errors="replace")`. -/
def decodeReplace (bytes : List UInt8) : List Char := decodeBehind [] bytes

example : decodeReplace [0xC3, 0xA9, 0xE2, 0x82, 0x41, 0xFF] = ['é', '\uFFFD', 'A', '\uFFFD'] := by decide

/-! ### One byte after the other -/

@[simp] theorem decodeReplace_nil : decodeReplace [] = [] := rfl

theorem decodeBehind_cons (unfinished : List UInt8) (b : UInt8) (bytes : List UInt8) :
    decodeBehind unfinished (b :: bytes)
      = (utf8Step unfinished b).1 ++ decodeBehind (utf8Step unfinished b).2 bytes :=
  List.append_assoc _ _ _

theorem decodeBehind_append (unfinished bytes more : List UInt8) :
    decodeBehind unfinished (bytes ++ more)
      = decoded unfinished bytes ++ decodeBehind (pending unfinished bytes) more := by
  induction bytes generalizing unfinished with
  | nil => rfl
  | cons b bytes ih => rw [List.cons_append, decodeBehind_cons, ih, decoded, pending, List.append_assoc]

theorem decodeReplace_append (bytes more : List UInt8) :
    decodeReplace (bytes ++ more) = decoded [] bytes ++ decodeBehind (pending [] bytes) more :=
  decodeBehind_append [] bytes more

/-- A byte that does not go on with the unfinished character. -/
theorem utf8Step_of_not_continues {unfinished : List UInt8} {b : UInt8} (h : continues unfinished b = false) :
    utf8Step unfinished b = (utf8Flush unfinished ++ (utf8Step [] b).1, (utf8Step [] b).2) := by
  have hnil : utf8Step [] b = utf8Start b := rfl
  rw [utf8Step, h, hnil]
  rfl

/-- Behind it the decoding begins anew. -/
theorem decodeBehind_of_not_continues {unfinished : List UInt8} {b : UInt8} (h : continues unfinished b = false)
    (bytes : List UInt8) :
    decodeBehind unfinished (b :: bytes) = utf8Flush unfinished ++ decodeReplace (b :: bytes) := by
  rw [decodeReplace, decodeBehind_cons, decodeBehind_cons, utf8Step_of_not_continues h, List.append_assoc]

/-! ### Bytes below 0x80 -/

theorem utf8Low_ge (lead : UInt8) : 0x80 ≤ utf8Low lead := by
  unfold utf8Low
  split <;> (try split) <;> omega

theorem utf8High_le (lead : UInt8) : utf8High lead ≤ 0xBF := by
  unfold utf8High
  split <;> (try split) <;> omega

/-- A byte that goes on with a character is one of 0x80 to 0xBF. -/
theorem range_of_continues {unfinished : List UInt8} {b : UInt8} (h : continues unfinished b = true) :
    0x80 ≤ b.toNat ∧ b.toNat ≤ 0xBF := by
  rcases unfinished with _ | ⟨lead, _ | ⟨second, rest⟩⟩
  · cases h
  · simp only [continues, Bool.and_eq_true, decide_eq_true_eq] at h
    have hlow := utf8Low_ge lead
    have hhigh := utf8High_le lead
    omega
  · simpa only [continues, Bool.and_eq_true, decide_eq_true_eq] using h

theorem utf8Step_ascii (unfinished : List UInt8) {b : UInt8} (h : b.toNat < 0x80) :
    utf8Step unfinished b = (utf8Flush unfinished ++ [Char.ofNat b.toNat], []) := by
  have hno : continues unfinished b = false := by
    rw [Bool.eq_false_iff]
    intro hyes
    have hrange := range_of_continues hyes
    omega
  rw [utf8Step, hno, utf8Start, if_pos h]
  rfl

/-- A byte of ASCII is a character of its own, whatever stands before it and behind it. -/
theorem decodeReplace_ascii {b : UInt8} (h : b.toNat < 0x80) (bytes more : List UInt8) :
    decodeReplace (bytes ++ b :: more) = decodeReplace bytes ++ Char.ofNat b.toNat :: decodeReplace more := by
  rw [decodeReplace_append, decodeBehind_cons, utf8Step_ascii _ h]
  simp [decodeReplace, decodeBehind]

/-! ### Encoded texts -/

theorem utf8Start_lead {b : UInt8} (hlow : 0xC2 ≤ b.toNat) (hhigh : b.toNat ≤ 0xF4) : utf8Start b = ([], [b]) := by
  rw [utf8Start, if_neg (by omega), if_pos ⟨hlow, hhigh⟩]

/-- A byte that goes on with a character and does not end it. -/
theorem decodeBehind_inside {unfinished : List UInt8} {b : UInt8} (h : continues unfinished b = true)
    (hlength : unfinished.length + 1 ≠ utf8Length (unfinished.headD 0)) (bytes : List UInt8) :
    decodeBehind unfinished (b :: bytes) = decodeBehind (unfinished ++ [b]) bytes := by
  rw [decodeBehind_cons, utf8Step, h, if_pos rfl, if_neg hlength, List.nil_append]

/-- A byte that ends a character. -/
theorem decodeBehind_last {unfinished : List UInt8} {b : UInt8} (h : continues unfinished b = true)
    (hlength : unfinished.length + 1 = utf8Length (unfinished.headD 0)) (bytes : List UInt8) :
    decodeBehind unfinished (b :: bytes) = Char.ofNat (codePoint (unfinished ++ [b])) :: decodeReplace bytes := by
  rw [decodeBehind_cons, utf8Step, h, if_pos rfl, if_pos hlength]
  rfl

theorem decodeReplace_lead {b : UInt8} (hlow : 0xC2 ≤ b.toNat) (hhigh : b.toNat ≤ 0xF4) (bytes : List UInt8) :
    decodeReplace (b :: bytes) = decodeBehind [b] bytes := by
  have hstep : utf8Step [] b = ([], [b]) := utf8Start_lead hlow hhigh
  rw [decodeReplace, decodeBehind_cons, hstep, List.nil_append]

theorem continues_second {lead b : UInt8} (hlow : utf8Low lead ≤ b.toNat) (hhigh : b.toNat ≤ utf8High lead) :
    continues [lead] b = true := by
  simp [continues, hlow, hhigh]

theorem continues_later {lead second b : UInt8} {more : List UInt8} (hlow : 0x80 ≤ b.toNat)
    (hhigh : b.toNat ≤ 0xBF) : continues (lead :: second :: more) b = true := by
  simp [continues, hlow, hhigh]

theorem utf8Low_of_ne {lead : UInt8} (h : lead.toNat ≠ 0xE0) (h' : lead.toNat ≠ 0xF0) : utf8Low lead = 0x80 := by
  rw [utf8Low, if_neg h, if_neg h']

theorem utf8High_of_ne {lead : UInt8} (h : lead.toNat ≠ 0xED) (h' : lead.toNat ≠ 0xF4) : utf8High lead = 0xBF := by
  rw [utf8High, if_neg h, if_neg h']

/-- The byte of a number below 256. -/
theorem toNat_ofNat_lt {n : Nat} (h : n < 256) : (UInt8.ofNat n).toNat = n := by
  rw [UInt8.toNat_ofNat', Nat.mod_eq_of_lt h]

section Encoded

variable {a b c d : UInt8}

theorem decodeReplace_two (ha : 0xC2 ≤ a.toNat ∧ a.toNat < 0xE0) (hb : 0x80 ≤ b.toNat ∧ b.toNat ≤ 0xBF)
    (bytes : List UInt8) :
    decodeReplace (a :: b :: bytes)
      = Char.ofNat ((a.toNat - 0xC0) * 64 + (b.toNat - 0x80)) :: decodeReplace bytes := by
  have hlow : utf8Low a = 0x80 := utf8Low_of_ne (by omega) (by omega)
  have hhigh : utf8High a = 0xBF := utf8High_of_ne (by omega) (by omega)
  have hlength : utf8Length a = 2 := if_pos ha.2
  rw [decodeReplace_lead ha.1 (by omega), decodeBehind_last (continues_second (by omega) (by omega)) hlength.symm]
  rfl

theorem decodeReplace_three (ha : 0xE0 ≤ a.toNat ∧ a.toNat < 0xF0) (hb : utf8Low a ≤ b.toNat ∧ b.toNat ≤ utf8High a)
    (hc : 0x80 ≤ c.toNat ∧ c.toNat ≤ 0xBF) (bytes : List UInt8) :
    decodeReplace (a :: b :: c :: bytes)
      = Char.ofNat ((a.toNat - 0xE0) * 4096 + (b.toNat - 0x80) * 64 + (c.toNat - 0x80)) :: decodeReplace bytes := by
  have hlength : utf8Length a = 3 := by rw [utf8Length, if_neg (by omega), if_pos ha.2]
  rw [decodeReplace_lead (by omega) (by omega), decodeBehind_inside (continues_second hb.1 hb.2) (by simp [hlength])]
  have hlast : [a, b].length + 1 = utf8Length ([a, b].headD 0) := hlength.symm
  exact decodeBehind_last (continues_later hc.1 hc.2) hlast bytes

theorem decodeReplace_four (ha : 0xF0 ≤ a.toNat ∧ a.toNat ≤ 0xF4) (hb : utf8Low a ≤ b.toNat ∧ b.toNat ≤ utf8High a)
    (hc : 0x80 ≤ c.toNat ∧ c.toNat ≤ 0xBF) (hd : 0x80 ≤ d.toNat ∧ d.toNat ≤ 0xBF) (bytes : List UInt8) :
    decodeReplace (a :: b :: c :: d :: bytes)
      = Char.ofNat ((a.toNat - 0xF0) * 262144 + (b.toNat - 0x80) * 4096 + (c.toNat - 0x80) * 64 + (d.toNat - 0x80))
        :: decodeReplace bytes := by
  have hlength : utf8Length a = 4 := by rw [utf8Length, if_neg (by omega), if_neg (by omega)]
  rw [decodeReplace_lead (by omega) ha.2, decodeBehind_inside (continues_second hb.1 hb.2) (by simp [hlength])]
  show decodeBehind [a, b] (c :: d :: bytes) = _
  rw [decodeBehind_inside (continues_later hc.1 hc.2) (by simp [hlength])]
  have hlast : [a, b, c].length + 1 = utf8Length ([a, b, c].headD 0) := hlength.symm
  exact decodeBehind_last (continues_later hd.1 hd.2) hlast bytes

end Encoded

/-- The bytes of a character are decoded to it. -/
theorem decodeReplace_utf8EncodeChar (c : Char) (bytes : List UInt8) :
    decodeReplace (String.utf8EncodeChar c ++ bytes) = c :: decodeReplace bytes := by
  have hvalid : c.val.toNat < 0xD800 ∨ 0xDFFF < c.val.toNat ∧ c.val.toNat < 0x110000 := c.valid
  have hchar : Char.ofNat c.val.toNat = c := Char.ofNat_toNat c
  unfold String.utf8EncodeChar
  generalize c.val.toNat = v at hvalid hchar
  dsimp only
  have hmod : ∀ n, (UInt8.ofNat (n % 0x40 + 0x80)).toNat = n % 0x40 + 0x80 := fun n => toNat_ofNat_lt (by omega)
  split
  · rename_i hle
    have hbyte := toNat_ofNat_lt (n := v) (by omega)
    have hascii := decodeReplace_ascii (b := UInt8.ofNat v) (by omega) [] bytes
    rw [hbyte, hchar] at hascii
    exact hascii
  split
  · rename_i hgt hle
    have hlead := toNat_ofNat_lt (n := v / 64 % 0x20 + 0xc0) (by omega)
    have htwo := decodeReplace_two (a := UInt8.ofNat (v / 64 % 0x20 + 0xc0)) (b := UInt8.ofNat (v % 0x40 + 0x80))
      (by omega) (by rw [hmod]; omega) bytes
    rw [hlead, hmod, show (v / 64 % 0x20 + 0xc0 - 0xC0) * 64 + (v % 0x40 + 0x80 - 0x80) = v by omega, hchar] at htwo
    exact htwo
  split
  · rename_i hle
    have hlead := toNat_ofNat_lt (n := v / 4096 % 0x10 + 0xe0) (by omega)
    have hlow : utf8Low (UInt8.ofNat (v / 4096 % 0x10 + 0xe0)) ≤ v / 64 % 0x40 + 0x80 := by
      rw [utf8Low, hlead]
      split <;> (try split) <;> omega
    have hhigh : v / 64 % 0x40 + 0x80 ≤ utf8High (UInt8.ofNat (v / 4096 % 0x10 + 0xe0)) := by
      rw [utf8High, hlead]
      split <;> (try split) <;> omega
    have hthree := decodeReplace_three (a := UInt8.ofNat (v / 4096 % 0x10 + 0xe0))
      (b := UInt8.ofNat (v / 64 % 0x40 + 0x80)) (c := UInt8.ofNat (v % 0x40 + 0x80))
      (by omega) (by rw [hmod]; exact ⟨hlow, hhigh⟩) (by rw [hmod]; omega) bytes
    rw [hlead, hmod, hmod, show (v / 4096 % 0x10 + 0xe0 - 0xE0) * 4096 + (v / 64 % 0x40 + 0x80 - 0x80) * 64
      + (v % 0x40 + 0x80 - 0x80) = v by omega, hchar] at hthree
    exact hthree
  · have hlead := toNat_ofNat_lt (n := v / 262144 % 0x08 + 0xf0) (by omega)
    have hlow : utf8Low (UInt8.ofNat (v / 262144 % 0x08 + 0xf0)) ≤ v / 4096 % 0x40 + 0x80 := by
      rw [utf8Low, hlead]
      split <;> (try split) <;> omega
    have hhigh : v / 4096 % 0x40 + 0x80 ≤ utf8High (UInt8.ofNat (v / 262144 % 0x08 + 0xf0)) := by
      rw [utf8High, hlead]
      split <;> (try split) <;> omega
    have hfour := decodeReplace_four (a := UInt8.ofNat (v / 262144 % 0x08 + 0xf0))
      (b := UInt8.ofNat (v / 4096 % 0x40 + 0x80)) (c := UInt8.ofNat (v / 64 % 0x40 + 0x80))
      (d := UInt8.ofNat (v % 0x40 + 0x80))
      (by omega) (by rw [hmod]; exact ⟨hlow, hhigh⟩) (by rw [hmod]; omega) (by rw [hmod]; omega) bytes
    rw [hlead, hmod, hmod, hmod, show (v / 262144 % 0x08 + 0xf0 - 0xF0) * 262144
      + (v / 4096 % 0x40 + 0x80 - 0x80) * 4096 + (v / 64 % 0x40 + 0x80 - 0x80) * 64 + (v % 0x40 + 0x80 - 0x80) = v
      by omega, hchar] at hfour
    exact hfour

/-- **Encoded texts.** What was encoded is decoded as it was. -/
theorem decodeReplace_encode (text : List Char) : decodeReplace (encodeUtf8 text).data.toList = text := by
  have hbytes : (encodeUtf8 text).data.toList = text.flatMap String.utf8EncodeChar := by
    rw [encodeUtf8_eq]
    simp [List.utf8Encode]
  rw [hbytes]
  induction text with
  | nil => rfl
  | cons c text ih =>
    have hrest : (encodeUtf8 text).data.toList = text.flatMap String.utf8EncodeChar := by
      rw [encodeUtf8_eq]
      simp [List.utf8Encode]
    rw [List.flatMap_cons, decodeReplace_utf8EncodeChar, ih hrest]

/-! ### Line breaks -/

/-- The bytes of an unfinished character. -/
structure Unfinished (unfinished : List UInt8) : Prop where
  lead : 0xC2 ≤ (unfinished.headD 0).toNat ∧ (unfinished.headD 0).toNat ≤ 0xF4
  length_lt : unfinished.length < utf8Length (unfinished.headD 0)
  second : ∀ b ∈ unfinished[1]?, utf8Low (unfinished.headD 0) ≤ b.toNat

theorem Unfinished.start {b : UInt8} (h : 0xC2 ≤ b.toNat ∧ b.toNat ≤ 0xF4) : Unfinished [b] where
  lead := h
  length_lt := by
    show 1 < utf8Length b
    unfold utf8Length
    split <;> (try split) <;> omega
  second := by simp

/-- What an unfinished character goes on with. -/
theorem Unfinished.grow {unfinished : List UInt8} {b : UInt8} (h : Unfinished unfinished)
    (hcontinues : continues unfinished b = true)
    (hlength : unfinished.length + 1 ≠ utf8Length (unfinished.headD 0)) : Unfinished (unfinished ++ [b]) := by
  obtain ⟨hlead, hlt, hsecond⟩ := h
  rcases unfinished with _ | ⟨lead, rest⟩
  · cases hcontinues
  · refine ⟨hlead, ?_, ?_⟩
    · rw [List.length_append, List.length_singleton]
      show (lead :: rest).length + 1 < utf8Length lead
      have hne : (lead :: rest).length + 1 ≠ utf8Length lead := hlength
      have hlt : (lead :: rest).length < utf8Length lead := hlt
      omega
    · rcases rest with _ | ⟨second, rest⟩
      · simp only [continues, Bool.and_eq_true, decide_eq_true_eq] at hcontinues
        simpa using hcontinues.1
      · simpa using hsecond

theorem utf8Length_cases (lead : UInt8) :
    utf8Length lead = 2 ∧ lead.toNat < 0xE0 ∨ utf8Length lead = 3 ∧ 0xE0 ≤ lead.toNat ∧ lead.toNat < 0xF0
      ∨ utf8Length lead = 4 ∧ 0xF0 ≤ lead.toNat := by
  unfold utf8Length
  split
  · exact .inl ⟨rfl, by assumption⟩
  · split
    · exact .inr (.inl ⟨rfl, by omega, by assumption⟩)
    · exact .inr (.inr ⟨rfl, by omega⟩)

/-- The second byte of a character that the first one does not make large. -/
theorem utf8Low_cases (lead : UInt8) :
    lead.toNat = 0xE0 ∧ utf8Low lead = 0xA0 ∨ lead.toNat = 0xF0 ∧ utf8Low lead = 0x90
      ∨ lead.toNat ≠ 0xE0 ∧ lead.toNat ≠ 0xF0 := by
  unfold utf8Low
  split
  · exact .inl ⟨by assumption, rfl⟩
  · split
    · exact .inr (.inl ⟨by assumption, rfl⟩)
    · exact .inr (.inr ⟨by assumption, by assumption⟩)

/-- An unfinished character is none of ASCII. -/
theorem Unfinished.codePoint_ge {unfinished : List UInt8} {b : UInt8} (h : Unfinished unfinished)
    (hlength : unfinished.length + 1 = utf8Length (unfinished.headD 0)) (hb : continues unfinished b = true) :
    0x80 ≤ codePoint (unfinished ++ [b]) := by
  obtain ⟨hlead, hlt, hsecond⟩ := h
  have hrange := range_of_continues hb
  rcases unfinished with _ | ⟨lead, _ | ⟨second, _ | ⟨third, _ | ⟨fourth, rest⟩⟩⟩⟩
  · cases hb
  · have hlength : 2 = utf8Length lead := hlength
    have hlead : 0xC2 ≤ lead.toNat := hlead.1
    show 0x80 ≤ (lead.toNat - 0xC0) * 64 + (b.toNat - 0x80)
    omega
  · have hlength : 3 = utf8Length lead := hlength
    have hcases := utf8Length_cases lead
    have hlow := utf8Low_cases lead
    have hsecond : utf8Low lead ≤ second.toNat := hsecond second rfl
    show 0x80 ≤ (lead.toNat - 0xE0) * 4096 + (second.toNat - 0x80) * 64 + (b.toNat - 0x80)
    omega
  · have hlength : 4 = utf8Length lead := hlength
    have hcases := utf8Length_cases lead
    have hlow := utf8Low_cases lead
    have hsecond : utf8Low lead ≤ second.toNat := hsecond second rfl
    show 0x80 ≤ (lead.toNat - 0xF0) * 262144 + (second.toNat - 0x80) * 4096 + (third.toNat - 0x80) * 64
      + (b.toNat - 0x80)
    omega
  · have hlength : rest.length + 5 = utf8Length lead := hlength
    have hcases := utf8Length_cases lead
    omega

theorem ofNat_eq_newline {n : Nat} (h : Char.ofNat n = '\n') : n = 0x0A := by
  by_cases hvalid : n.isValidChar
  · rw [Char.ofNat, dif_pos hvalid] at h
    have hval : (Char.ofNatAux n hvalid).toNat = n := rfl
    rw [← hval, h]
    rfl
  · rw [Char.ofNat, dif_neg hvalid] at h
    exact absurd h (by decide)

/-- A line break is decoded from its byte, or it is not decoded. -/
theorem newline_mem_of_mem_decodeBehind {unfinished bytes : List UInt8} (h : unfinished = [] ∨ Unfinished unfinished)
    (hmem : '\n' ∈ decodeBehind unfinished bytes) : 0x0A ∈ bytes := by
  have hflush : ∀ u : List UInt8, '\n' ∉ utf8Flush u := by
    intro u hu
    unfold utf8Flush at hu
    split at hu
    · cases hu
    · exact absurd (List.mem_singleton.mp hu) (by decide)
  induction bytes generalizing unfinished with
  | nil => exact absurd hmem (hflush unfinished)
  | cons b bytes ih =>
    rw [decodeBehind_cons, utf8Step] at hmem
    split at hmem
    · rename_i hcontinues
      have hunfinished : Unfinished unfinished := h.resolve_left (by rintro rfl; cases hcontinues)
      split at hmem
      · rename_i hlength
        rcases List.mem_append.mp hmem with hchar | hrest
        · have hpoint := ofNat_eq_newline (List.mem_singleton.mp hchar).symm
          have hge := hunfinished.codePoint_ge hlength hcontinues
          omega
        · exact List.mem_cons_of_mem _ (ih (.inl rfl) hrest)
      · rename_i hlength
        exact List.mem_cons_of_mem _ (ih (.inr (hunfinished.grow hcontinues hlength)) hmem)
    · rcases List.mem_append.mp hmem with hfront | hrest
      · rcases List.mem_append.mp hfront with hold | hstart
        · exact absurd hold (hflush unfinished)
        · unfold utf8Start at hstart
          split at hstart
          · have hpoint := ofNat_eq_newline (List.mem_singleton.mp hstart).symm
            exact List.mem_cons.mpr (.inl (UInt8.toNat_inj.mp hpoint.symm))
          · split at hstart
            · cases hstart
            · exact absurd (List.mem_singleton.mp hstart) (by decide)
      · refine List.mem_cons_of_mem _ (ih ?_ hrest)
        unfold utf8Start
        split
        · exact .inl rfl
        · split
          · rename_i hrange
            exact .inr (.start hrange)
          · exact .inl rfl

theorem newline_mem_of_mem_decodeReplace {bytes : List UInt8} (h : '\n' ∈ decodeReplace bytes) : 0x0A ∈ bytes :=
  newline_mem_of_mem_decodeBehind (.inl rfl) h

/-- Bytes are decoded to something. -/
theorem decodeBehind_eq_nil {unfinished bytes : List UInt8} (h : decodeBehind unfinished bytes = []) :
    unfinished = [] ∧ bytes = [] := by
  have hflush : ∀ {u : List UInt8}, utf8Flush u = [] → u = [] := by
    intro u hu
    unfold utf8Flush at hu
    split at hu
    · assumption
    · cases hu
  induction bytes generalizing unfinished with
  | nil => exact ⟨hflush h, rfl⟩
  | cons b bytes ih =>
    rw [decodeBehind_cons] at h
    obtain ⟨hstep, hrest⟩ := List.append_eq_nil_iff.mp h
    obtain ⟨hpending, -⟩ := ih hrest
    unfold utf8Step at hstep hpending
    split at hstep
    · rename_i hcontinues
      rw [if_pos hcontinues] at hpending
      split at hstep
      · cases hstep
      · rename_i hlength
        rw [if_neg hlength] at hpending
        simp at hpending
    · rename_i hcontinues
      rw [if_neg hcontinues] at hpending
      have hstart := (List.append_eq_nil_iff.mp hstep).2
      unfold utf8Start at hstart hpending
      split at hstart
      · cases hstart
      · split at hstart
        · rename_i hascii hrange
          rw [if_neg hascii, if_pos hrange] at hpending
          cases hpending
        · cases hstart

theorem decodeReplace_ne_nil {bytes : List UInt8} (h : bytes ≠ []) : decodeReplace bytes ≠ [] := fun hnil =>
  h (decodeBehind_eq_nil hnil).2

/-- Bytes that are decoded to line breaks only are line breaks. -/
theorem forall_newline_of_decodeReplace {bytes : List UInt8} (h : ∀ c ∈ decodeReplace bytes, c = '\n') :
    ∀ b ∈ bytes, b = 0x0A := by
  generalize hn : bytes.length = n
  induction n using Nat.strong_induction_on generalizing bytes with
  | _ n ih =>
    by_cases hmem : (0x0A : UInt8) ∈ bytes
    · obtain ⟨front, back, rfl⟩ := List.append_of_mem hmem
      have hsplit := decodeReplace_ascii (b := 0x0A) (by decide) front back
      rw [hsplit] at h
      rw [List.length_append, List.length_cons] at hn
      have hfront := ih front.length (by omega) (fun c hc => h c (List.mem_append_left _ hc)) rfl
      have hback := ih back.length (by omega)
        (fun c hc => h c (List.mem_append_right _ (List.mem_cons_of_mem _ hc))) rfl
      intro b hb
      rcases List.mem_append.mp hb with hb | hb
      · exact hfront b hb
      · rcases List.mem_cons.mp hb with rfl | hb
        · rfl
        · exact hback b hb
    · by_cases hnil : bytes = []
      · subst hnil
        exact fun b hb => absurd hb List.not_mem_nil
      · obtain ⟨c, text, htext⟩ := List.exists_cons_of_ne_nil (decodeReplace_ne_nil hnil)
        have hc : c = '\n' := h c (by rw [htext]; exact List.mem_cons_self)
        have hline : '\n' ∈ decodeReplace bytes := by
          rw [htext, hc]
          exact List.mem_cons_self
        exact absurd (newline_mem_of_mem_decodeReplace hline) hmem

/-! ### Chunks -/

theorem length_utf8Flush_le (unfinished : List UInt8) : (utf8Flush unfinished).length ≤ 1 := by
  unfold utf8Flush
  split <;> simp

/-- A byte from 0x80 to 0xBF begins no character. -/
theorem decodeReplace_of_range {b : UInt8} (h : 0x80 ≤ b.toNat ∧ b.toNat ≤ 0xBF) (bytes : List UInt8) :
    decodeReplace (b :: bytes) = replacementChar :: decodeReplace bytes := by
  have hstep : utf8Step [] b = ([replacementChar], []) := by
    show utf8Start b = _
    rw [utf8Start, if_neg (by omega), if_neg (by omega)]
  rw [decodeReplace, decodeBehind_cons, hstep]
  rfl

/-- An unfinished character is at most one character more. -/
theorem length_decodeBehind_le (unfinished bytes : List UInt8) :
    (decodeBehind unfinished bytes).length ≤ 1 + (decodeReplace bytes).length := by
  induction bytes generalizing unfinished with
  | nil => exact length_utf8Flush_le unfinished
  | cons b bytes ih =>
    cases hcontinues : continues unfinished b with
    | false =>
      rw [decodeBehind_of_not_continues hcontinues, List.length_append]
      have hflush := length_utf8Flush_le unfinished
      omega
    | true =>
      rw [decodeReplace_of_range (range_of_continues hcontinues)]
      by_cases hlength : unfinished.length + 1 = utf8Length (unfinished.headD 0)
      · rw [decodeBehind_last hcontinues hlength, List.length_cons, List.length_cons]
        omega
      · rw [decodeBehind_inside hcontinues hlength, List.length_cons]
        have hrest := ih (unfinished ++ [b])
        omega

/-- A byte that goes on with an unfinished character makes it and the rest shorter. -/
theorem length_decodeBehind_lt {unfinished : List UInt8} {b : UInt8} (h : continues unfinished b = true)
    (bytes : List UInt8) : (decodeBehind unfinished (b :: bytes)).length < 1 + (decodeReplace (b :: bytes)).length := by
  rw [decodeReplace_of_range (range_of_continues h)]
  by_cases hlength : unfinished.length + 1 = utf8Length (unfinished.headD 0)
  · rw [decodeBehind_last h hlength, List.length_cons, List.length_cons]
    omega
  · rw [decodeBehind_inside h hlength, List.length_cons]
    have hrest := length_decodeBehind_le (unfinished ++ [b]) bytes
    omega

/-- A chunk goes on with the unfinished character of the one before. -/
def Severs (chunk next : List UInt8) : Prop := continues (pending [] chunk) (next.headD 0) = true

instance (chunk next : List UInt8) : Decidable (Severs chunk next) :=
  inferInstanceAs (Decidable (continues (pending [] chunk) (next.headD 0) = true))

/-- Chunks of which none goes on with the unfinished character of the one before. -/
def Whole (chunks : List (List UInt8)) : Prop := chunks.IsChain fun chunk next => ¬Severs chunk next

instance (chunks : List (List UInt8)) : Decidable (Whole chunks) :=
  inferInstanceAs (Decidable (chunks.IsChain fun chunk next => ¬Severs chunk next))

theorem decodeReplace_eq_flush (chunk : List UInt8) :
    decodeReplace chunk = decoded [] chunk ++ utf8Flush (pending [] chunk) := rfl

/-- What stands behind an unfinished character is at most one character longer without it. -/
theorem length_decodeBehind_pending_le (chunk bytes : List UInt8) :
    (decodeBehind (pending [] chunk) bytes).length
      ≤ (utf8Flush (pending [] chunk)).length + (decodeReplace bytes).length := by
  by_cases hnone : pending [] chunk = []
  · rw [hnone]
    exact Nat.le_add_left _ _
  · have hflush : (utf8Flush (pending [] chunk)).length = 1 := by
      rw [utf8Flush, if_neg hnone]
      rfl
    rw [hflush]
    exact length_decodeBehind_le _ _

/-- The chunks, decoded one by one, are at least as long as the decoded whole. -/
theorem length_decodeReplace_flatten_le (chunks : List (List UInt8)) :
    (decodeReplace chunks.flatten).length ≤ (chunks.flatMap decodeReplace).length := by
  induction chunks with
  | nil => exact le_rfl
  | cons chunk chunks ih =>
    have hrest := length_decodeBehind_pending_le chunk chunks.flatten
    rw [List.flatten_cons, List.flatMap_cons, decodeReplace_append, decodeReplace_eq_flush, List.length_append,
      List.length_append, List.length_append]
    omega

/-- The chunks of a severed character, decoded one by one, are longer. -/
theorem length_decodeReplace_flatten_lt {chunk next : List UInt8} (h : Severs chunk next) (hne : next ≠ [])
    (chunks : List (List UInt8)) :
    (decodeReplace (chunk :: next :: chunks).flatten).length
      < ((chunk :: next :: chunks).flatMap decodeReplace).length := by
  obtain ⟨b, bytes, rfl⟩ := List.exists_cons_of_ne_nil hne
  have hpending : pending [] chunk ≠ [] := by
    intro hnone
    rw [Severs, hnone] at h
    cases h
  have hflush : (utf8Flush (pending [] chunk)).length = 1 := by
    rw [utf8Flush, if_neg hpending]
    rfl
  have hshort : (decodeBehind (pending [] chunk) (b :: (bytes ++ chunks.flatten))).length
      < 1 + (decodeReplace (b :: (bytes ++ chunks.flatten))).length := length_decodeBehind_lt h _
  have hrest : (decodeReplace (b :: (bytes ++ chunks.flatten))).length
      ≤ (((b :: bytes) :: chunks).flatMap decodeReplace).length :=
    length_decodeReplace_flatten_le ((b :: bytes) :: chunks)
  rw [List.flatten_cons, List.flatMap_cons, decodeReplace_append, decodeReplace_eq_flush, List.length_append,
    List.length_append, List.length_append, List.flatten_cons, List.cons_append]
  omega

/-- **Chunks.** Chunks that are decoded one by one are the decoded whole exactly if no chunk goes on with the
    unfinished character of the one before. -/
theorem decodeReplace_flatten_iff (chunks : List (List UInt8)) (h : ∀ chunk ∈ chunks, chunk ≠ []) :
    chunks.flatMap decodeReplace = decodeReplace chunks.flatten ↔ Whole chunks := by
  induction chunks with
  | nil => exact ⟨fun _ => .nil, fun _ => rfl⟩
  | cons chunk chunks ih =>
    have ih := ih fun next hnext => h next (List.mem_cons_of_mem _ hnext)
    cases chunks with
    | nil =>
      refine ⟨fun _ => .singleton _, fun _ => ?_⟩
      rw [List.flatMap_cons, List.flatMap_nil, List.flatten_cons, List.flatten_nil]
      simp
    | cons next chunks =>
      have hne : next ≠ [] := h next (by simp)
      rw [Whole, List.isChain_cons_cons, ← Whole, ← ih]
      by_cases hsevers : Severs chunk next
      · refine ⟨fun heq => ?_, fun hwhole => absurd hsevers hwhole.1⟩
        have hlt := length_decodeReplace_flatten_lt hsevers hne chunks
        rw [heq] at hlt
        exact absurd hlt (lt_irrefl _)
      · obtain ⟨b, bytes, rfl⟩ := List.exists_cons_of_ne_nil hne
        have hcut : decodeReplace (chunk :: (b :: bytes) :: chunks).flatten
            = decodeReplace chunk ++ decodeReplace ((b :: bytes) :: chunks).flatten := by
          have hbegin := decodeBehind_of_not_continues (Bool.eq_false_iff.mpr hsevers) (bytes ++ chunks.flatten)
          rw [List.flatten_cons, decodeReplace_append, decodeReplace_eq_flush chunk, List.append_assoc]
          exact congrArg (decoded [] chunk ++ ·) hbegin
        rw [List.flatMap_cons, hcut, List.append_cancel_left_eq]
        exact ⟨fun heq => ⟨hsevers, heq⟩, And.right⟩

end Py
