import Mathlib.Algebra.Order.Ring.Nat
import Mathlib.Data.Nat.Log
import Mathlib.Tactic.Ring

/-!
# Rounding to binary floats

A float with `m` bits of mantissa, without its sign, is a number whose upper bits are the exponent;
these numbers have the order of the values. Values are counted in units of the smallest one, and a
fraction `n / 2 ^ k` of such units is rounded.
-/

namespace SparcV8.Word

/-- `n / 2 ^ k` to the nearest integer, half to even. -/
def roundEven (n k : Nat) : Nat :=
  let twice := 2 * (n % 2 ^ k)
  if twice < 2 ^ k ∨ twice = 2 ^ k ∧ n / 2 ^ k % 2 = 0 then n / 2 ^ k else n / 2 ^ k + 1

/-- The value of a float: with exponent 0 a subnormal. -/
def floatValue (m code : Nat) : Nat :=
  if code / 2 ^ m = 0 then code else (2 ^ m + code % 2 ^ m) * 2 ^ (code / 2 ^ m - 1)

/-- The float nearest to `n / 2 ^ k`. A mantissa rounded up to a power of two carries into the
exponent. -/
def nearestFloat (m n k : Nat) : Nat :=
  let shift := (n / 2 ^ k).log2 - m
  shift * 2 ^ m + roundEven n (k + shift)

variable {m n k : Nat}

end SparcV8.Word
