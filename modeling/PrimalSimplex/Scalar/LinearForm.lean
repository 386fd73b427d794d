/-
  `Scalar.LinearForm`: sums of coefficients, with and without a point.

  Floating-point addition is not associative, so the order of a sum is part of
  its meaning: terms are added from left to right, onto a given start.
-/
import PrimalSimplex.Scalar.Basic

set_option autoImplicit false

namespace PrimalSimplex.LinearForm

variable {F : Type} [Scalar F]

/-- The value `start + c₀ x₀ + c₁ x₁ + …`, added from the left.  Surplus entries
of the longer list are ignored. -/
def eval (start : F) : (coefficients point : List F) → F
  | c :: coefficients, x :: point => eval (start + c * x) coefficients point
  | _, _ => start

/-- The negated sum `-(0 + c₀ + c₁ + …)`: the coefficient of a variable that is
subtracted from every variable of the form at once. -/
def negatedSum (coefficients : List F) : F :=
  -coefficients.foldl (· + ·) 0

/-- The coefficients of the difference of two forms.  Where one of them has no
coefficient, that of the other form stays alone: nothing is added to zero or
taken from it, so the sign of a zero is kept. -/
def difference : (minuend subtrahend : List F) → List F
  | l :: left, r :: right => (l - r) :: difference left right
  | left, [] => left
  | [], right => right.map fun r => -r

@[simp] theorem eval_nil (start : F) (point : List F) : eval start [] point = start := by
  simp [eval]

@[simp] theorem eval_cons_cons (start c x : F) (coefficients point : List F) :
    eval start (c :: coefficients) (x :: point) = eval (start + c * x) coefficients point := rfl

/-- A difference is as long as the longer form. -/
theorem length_difference (left right : List F) :
    (difference left right).length = max left.length right.length := by
  induction left generalizing right with
  | nil => cases right <;> simp [difference]
  | cons l left ih =>
    cases right with
    | nil => simp [difference]
    | cons r right => simp [difference, ih, Nat.succ_max_succ]

end PrimalSimplex.LinearForm
