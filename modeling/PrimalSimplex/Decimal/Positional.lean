/-
  `Decimal.Positional`: digits with a point, never with an exponent.

  A decimal `digits * 10 ^ exponent` is written out in full: zeros are appended
  for a positive exponent, and a negative one places the point.
-/
set_option autoImplicit false

namespace PrimalSimplex.Decimal

/-- Decimal digits, most significant first; the digit `0` for zero. -/
def digits (n : Nat) : List Char := Nat.toDigits 10 n

/-- Zeros in front of a digit string, up to a length. -/
def padLeft (length : Nat) (text : List Char) : List Char :=
  List.replicate (length - text.length) '0' ++ text

/-- A digit string with a point before its last `places` digits and at least
one digit before the point. -/
def withPoint (places : Nat) (text : List Char) : List Char × List Char :=
  let padded := padLeft (places + 1) text
  padded.splitAt (padded.length - places)

/-- Joins the parts around the point; without a fraction there is no point. -/
def joinParts (parts : List Char × List Char) : List Char :=
  if parts.2.isEmpty then parts.1 else parts.1 ++ '.' :: parts.2

/-- Drops the zeros at the end of a fraction. -/
def trimZeros (fraction : List Char) : List Char :=
  (fraction.reverse.dropWhile (· == '0')).reverse

/-- The decimal `n * 10 ^ exponent` in full, without zeros at the end of a fraction. -/
def positional (n : Nat) (exponent : Int) : List Char :=
  let parts := withPoint (-exponent).toNat (digits n ++ List.replicate exponent.toNat '0')
  joinParts (parts.1, trimZeros parts.2)

example : positional 15 3 = "15000".toList := by decide
example : positional 15 (-1) = "1.5".toList := by decide
example : positional 10 (-3) = "0.01".toList := by decide
example : positional 0 0 = "0".toList := by decide

end PrimalSimplex.Decimal
