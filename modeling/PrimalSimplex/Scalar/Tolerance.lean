/-
  `Scalar.Tolerance`: comparing numbers up to an absolute tolerance.

  Numbers whose distance is at most the tolerance count as equal, so a number
  is positive or negative only when it is further from zero than that.  Only
  "near" and "less" are asked for: whatever is neither near nor less counts as
  greater.  A NaN therefore counts as positive, and so does the difference of
  two infinities.
-/
import PrimalSimplex.Scalar.Basic

set_option autoImplicit false

namespace PrimalSimplex.Scalar

variable {F : Type} [Scalar F]

/-- Whether two numbers differ by at most `tolerance`. -/
def near (a b tolerance : F) : Bool :=
  isLe (abs (a - b)) tolerance

/-- The order of two numbers, where near numbers are equal. -/
def compareWithin (a b tolerance : F) : Ordering :=
  if near a b tolerance then .eq
  else if isLt a b then .lt
  else .gt

/-- Whether a number is above zero by more than `tolerance`. -/
def isPositive (a tolerance : F) : Bool :=
  compareWithin a 0 tolerance == .gt

/-- Whether a number is below zero by more than `tolerance`. -/
def isNegative (a tolerance : F) : Bool :=
  compareWithin a 0 tolerance == .lt

theorem isPositive_iff {a tolerance : F} :
    isPositive a tolerance = true ↔ near a 0 tolerance = false ∧ isLt a 0 = false := by
  simp only [isPositive, compareWithin]
  cases near a 0 tolerance <;> cases isLt a 0 <;> decide

theorem isNegative_iff {a tolerance : F} :
    isNegative a tolerance = true ↔ near a 0 tolerance = false ∧ isLt a 0 = true := by
  simp only [isNegative, compareWithin]
  cases near a 0 tolerance <;> cases isLt a 0 <;> decide

end PrimalSimplex.Scalar
