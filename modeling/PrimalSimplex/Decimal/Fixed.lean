/-
  `Decimal.Fixed`: a magnitude rounded to a fixed number of decimal places.

  The exact value is rounded, not a shorter decimal that stands for it, and a
  value exactly between two neighbours goes to the even one.
-/
import PrimalSimplex.Binary.Basic
import PrimalSimplex.Decimal.Positional

set_option autoImplicit false

namespace PrimalSimplex.Decimal

open Binary

/-- The quotient rounded to the nearest natural number, a half to the even
neighbour. -/
def roundHalfEven (numerator denominator : Nat) : Nat :=
  let quotient := numerator / denominator
  let twice := 2 * (numerator % denominator)
  if denominator < twice then quotient + 1
  else if twice = denominator then quotient + quotient % 2
  else quotient

/-- A magnitude with exactly `places` digits after the point. -/
def fixed (places : Nat) (m : Magnitude) : List Char :=
  joinParts (withPoint places
    (digits (roundHalfEven (m.numerator * Nat.pow 10 places) m.denominator)))

example : roundHalfEven 5 2 = 2 := by decide
example : roundHalfEven 7 2 = 4 := by decide
example : fixed 4 ⟨1, -1, false⟩ = "0.5000".toList := by decide
example : fixed 4 ⟨0, 0, false⟩ = "0.0000".toList := by decide

end PrimalSimplex.Decimal
