import Mathlib.Data.List.Basic
import Mathlib.Tactic.Common

/-!
# Base64 — bytes as text

* `encode` — groups of three bytes as four characters, the last group padded with `=`;
* `decode` — the bytes of such a text; the bits behind the last byte are ignored;
* `decode_encode` — what was encoded comes back.
-/

namespace Base64

/-- The character of a number below 64. -/
def character (n : Nat) : Char :=
  if n < 26 then Char.ofNat ('A'.toNat + n)
  else if n < 52 then Char.ofNat ('a'.toNat + (n - 26))
  else if n < 62 then Char.ofNat ('0'.toNat + (n - 52))
  else if n = 62 then '+' else '/'

/-- The number of a character. -/
def number (c : Char) : Option Nat :=
  if 'A' ≤ c ∧ c ≤ 'Z' then some (c.toNat - 'A'.toNat)
  else if 'a' ≤ c ∧ c ≤ 'z' then some (c.toNat - 'a'.toNat + 26)
  else if '0' ≤ c ∧ c ≤ '9' then some (c.toNat - '0'.toNat + 52)
  else if c = '+' then some 62
  else if c = '/' then some 63
  else none

/-- The text of some bytes. -/
def encode : List UInt8 → List Char
  | [] => []
  | [a] => [character (a.toNat / 4), character (a.toNat % 4 * 16), '=', '=']
  | [a, b] => [character (a.toNat / 4), character (a.toNat % 4 * 16 + b.toNat / 16),
      character (b.toNat % 16 * 4), '=']
  | a :: b :: c :: rest => character (a.toNat / 4) :: character (a.toNat % 4 * 16 + b.toNat / 16)
      :: character (b.toNat % 16 * 4 + c.toNat / 64) :: character (c.toNat % 64) :: encode rest

/-- The bytes of a text.  Padding stands at the end only. -/
def decode : List Char → Option (List UInt8)
  | [] => some []
  | c₁ :: c₂ :: c₃ :: c₄ :: rest => do
    let n₁ ← number c₁
    let n₂ ← number c₂
    let a := UInt8.ofNat (n₁ * 4 + n₂ / 16)
    if c₃ = '=' then
      if c₄ = '=' ∧ rest = [] then some [a] else none
    else
      let n₃ ← number c₃
      let b := UInt8.ofNat (n₂ % 16 * 16 + n₃ / 4)
      if c₄ = '=' then
        if rest = [] then some [a, b] else none
      else
        let n₄ ← number c₄
        let bytes ← decode rest
        return a :: b :: UInt8.ofNat (n₃ % 4 * 64 + n₄) :: bytes
  | _ => none

/-- A character stands for its number, and is no padding. -/
theorem number_character {n : Nat} (h : n < 64) : number (character n) = some n ∧ character n ≠ '=' := by
  have hall : ∀ n < 64, number (character n) = some n ∧ character n ≠ '=' := by decide
  exact hall n h

theorem byte_eq {n : Nat} {a : UInt8} (h : n = a.toNat) : UInt8.ofNat n = a := by
  subst h
  exact UInt8.ofNat_toNat

/-- **Round trip.** -/
theorem decode_encode (bytes : List UInt8) : decode (encode bytes) = some bytes := by
  induction bytes using encode.induct with
  | case1 => rfl
  | case2 a =>
    have ha := a.toNat_lt
    obtain ⟨h₁, -⟩ := number_character (n := a.toNat / 4) (by omega)
    obtain ⟨h₂, -⟩ := number_character (n := a.toNat % 4 * 16) (by omega)
    have hA : UInt8.ofNat (a.toNat / 4 * 4 + a.toNat % 4 * 16 / 16) = a := byte_eq (by omega)
    simp only [encode, decode, h₁, h₂, Option.bind_eq_bind, Option.bind_some, hA, and_self, if_true]
  | case3 a b =>
    have ha := a.toNat_lt
    have hb := b.toNat_lt
    obtain ⟨h₁, -⟩ := number_character (n := a.toNat / 4) (by omega)
    obtain ⟨h₂, -⟩ := number_character (n := a.toNat % 4 * 16 + b.toNat / 16) (by omega)
    obtain ⟨h₃, hne₃⟩ := number_character (n := b.toNat % 16 * 4) (by omega)
    have hA : UInt8.ofNat (a.toNat / 4 * 4 + (a.toNat % 4 * 16 + b.toNat / 16) / 16) = a := byte_eq (by omega)
    have hB : UInt8.ofNat ((a.toNat % 4 * 16 + b.toNat / 16) % 16 * 16 + b.toNat % 16 * 4 / 4) = b :=
      byte_eq (by omega)
    simp only [encode, decode, h₁, h₂, h₃, hne₃, Option.bind_eq_bind, Option.bind_some, hA, hB, if_true, if_false]
  | case4 a b c rest ih =>
    have ha := a.toNat_lt
    have hb := b.toNat_lt
    have hc := c.toNat_lt
    obtain ⟨h₁, -⟩ := number_character (n := a.toNat / 4) (by omega)
    obtain ⟨h₂, -⟩ := number_character (n := a.toNat % 4 * 16 + b.toNat / 16) (by omega)
    obtain ⟨h₃, hne₃⟩ := number_character (n := b.toNat % 16 * 4 + c.toNat / 64) (by omega)
    obtain ⟨h₄, hne₄⟩ := number_character (n := c.toNat % 64) (by omega)
    have hA : UInt8.ofNat (a.toNat / 4 * 4 + (a.toNat % 4 * 16 + b.toNat / 16) / 16) = a := byte_eq (by omega)
    have hB : UInt8.ofNat ((a.toNat % 4 * 16 + b.toNat / 16) % 16 * 16 + (b.toNat % 16 * 4 + c.toNat / 64) / 4)
        = b := byte_eq (by omega)
    have hC : UInt8.ofNat ((b.toNat % 16 * 4 + c.toNat / 64) % 4 * 64 + c.toNat % 64) = c := byte_eq (by omega)
    simp only [encode, decode, h₁, h₂, h₃, hne₃, h₄, hne₄, ih, Option.bind_eq_bind, Option.bind_some, hA, hB, hC,
      if_false]
    rfl

end Base64
