import Mathlib.Data.Nat.Bitwise

/-!
# Doubles — products of an integer with a constant

A `float` that is an integer over `2 ^ 53` is kept as that integer; a product is rounded to 53
significant bits, half to even, as IEEE 754 doubles are.
-/

namespace Py

/-- A natural number to its nearest one with 53 significant bits, half to even. -/
def roundDouble (n : Nat) : Nat :=
  let extra := Nat.log2 n + 1 - 53
  let quotient := n / 2 ^ extra
  let rest := n % 2 ^ extra
  let up := 2 ^ extra < 2 * rest || (2 ^ extra = 2 * rest && quotient % 2 = 1)
  (if up then quotient + 1 else quotient) * 2 ^ extra

/-- `0.99`, times `2 ^ 53`. -/
def double99 : Nat := 8917127262193582

/-- `n >= window * 0.99`, for a positive window. -/
def geTimes99 (n : Int) (window : Nat) : Bool :=
  decide ((roundDouble (roundDouble window * double99) : Int) ≤ n * 2 ^ 53)

example : geTimes99 99 100 = true := by decide
example : geTimes99 98 100 = false := by decide

end Py
