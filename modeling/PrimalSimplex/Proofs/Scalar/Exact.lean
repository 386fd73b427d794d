/-
  `Proofs.Scalar.Exact`: the numbers of an ordered field as scalars.

  Over an ordered field nothing is rounded and nothing overflows, comparisons are
  a linear order, and the order of a sum does not matter.  The instance below
  makes every definition of the library one over exact numbers; the lemmas after
  it say what the comparisons and the linear forms are there.
-/
import Mathlib.Algebra.Order.Field.Basic
import Mathlib.Algebra.BigOperators.Group.List.Basic
import Mathlib.Tactic.Linarith
import Mathlib.Tactic.Ring
import PrimalSimplex.Scalar.LinearForm
import PrimalSimplex.Scalar.Tolerance

set_option autoImplicit false

namespace PrimalSimplex

namespace Scalar

/-- Exact numbers: the operations and the order of the field, and every number
is finite. -/
instance (priority := low) exact {F : Type} [Field F] [LinearOrder F] : Scalar F where
  zero := 0
  one := 1
  neg a := -a
  add a b := a + b
  sub a b := a - b
  mul a b := a * b
  div a b := a / b
  abs a := |a|
  isLt a b := decide (a < b)
  isLe a b := decide (a ≤ b)
  isEq a b := decide (a = b)
  isFinite _ := true

variable {F : Type} [Field F] [LinearOrder F]

/-! ## Comparisons -/

@[simp] theorem isLt_iff {a b : F} : isLt a b = true ↔ a < b := decide_eq_true_iff

@[simp] theorem isLe_iff {a b : F} : isLe a b = true ↔ a ≤ b := decide_eq_true_iff

@[simp] theorem isEq_iff {a b : F} : isEq a b = true ↔ a = b := decide_eq_true_iff

@[simp] theorem isFinite_eq_true (a : F) : isFinite a = true := rfl

theorem near_iff {a b tolerance : F} : near a b tolerance = true ↔ |a - b| ≤ tolerance :=
  decide_eq_true_iff

/-- A number is far from zero when its absolute value is above the tolerance. -/
theorem near_eq_false_iff {a tolerance : F} : near a 0 tolerance = false ↔ tolerance < |a| := by
  rw [← Bool.not_eq_true, near_iff, not_le]
  show tolerance < |a - 0| ↔ tolerance < |a|
  rw [sub_zero]

variable [IsStrictOrderedRing F]

/-- Numbers are near without a tolerance exactly when they are equal. -/
theorem near_zero_iff {a b : F} : near a b 0 = true ↔ a = b := by
  rw [near_iff, abs_nonpos_iff, sub_eq_zero]

/-- A number is positive when it is above the tolerance. -/
theorem isPositive_iff_lt {a tolerance : F} (h : 0 ≤ tolerance) :
    isPositive a tolerance = true ↔ tolerance < a := by
  rw [isPositive_iff, near_eq_false_iff, ← Bool.not_eq_true, isLt_iff, not_lt]
  constructor
  · rintro ⟨hfar, hpos⟩
    rwa [abs_of_nonneg hpos] at hfar
  · intro hlarge
    have hpos : 0 ≤ a := h.trans hlarge.le
    exact ⟨by rwa [abs_of_nonneg hpos], hpos⟩

/-- A number is negative when it is below the negated tolerance. -/
theorem isNegative_iff_lt {a tolerance : F} (h : 0 ≤ tolerance) :
    isNegative a tolerance = true ↔ a < -tolerance := by
  rw [isNegative_iff, near_eq_false_iff, isLt_iff]
  constructor
  · rintro ⟨hfar, hneg⟩
    rw [abs_of_neg hneg] at hfar
    linarith
  · intro hsmall
    have hneg : a < 0 := by linarith
    exact ⟨by rw [abs_of_neg hneg]; linarith, hneg⟩

end Scalar

/-! ## Linear forms -/

namespace LinearForm

variable {F : Type} [Field F]

/-- The sum of the products of two lists, position by position. -/
def dot (coefficients point : List F) : F := (List.zipWith (· * ·) coefficients point).sum

@[simp] theorem dot_nil (point : List F) : dot [] point = 0 := rfl

@[simp] theorem dot_cons_cons (c x : F) (coefficients point : List F) :
    dot (c :: coefficients) (x :: point) = c * x + dot coefficients point := by
  simp [dot]

/-- Negating the coefficients negates the form. -/
theorem dot_map_neg (coefficients point : List F) :
    dot (coefficients.map fun c => -c) point = -dot coefficients point := by
  induction coefficients generalizing point with
  | nil => simp
  | cons c coefficients ih =>
    cases point with
    | nil => simp [dot]
    | cons x point =>
      rw [List.map_cons, dot_cons_cons, dot_cons_cons, ih]
      ring

variable [LinearOrder F]

/-- The value of a form is its start and the sum of the products. -/
theorem eval_eq_add_dot (start : F) (coefficients point : List F) :
    eval start coefficients point = start + dot coefficients point := by
  induction coefficients generalizing start point with
  | nil => simp
  | cons c coefficients ih =>
    cases point with
    | nil => simp [eval, dot]
    | cons x point =>
      rw [eval_cons_cons, ih, dot_cons_cons]
      exact add_assoc start (c * x) (dot coefficients point)

/-- The negated sum is that of all coefficients. -/
theorem negatedSum_eq_neg_sum (coefficients : List F) :
    negatedSum coefficients = -coefficients.sum := by
  have hfold (start : F) (cs : List F) : cs.foldl (· + ·) start = start + cs.sum := by
    induction cs generalizing start with
    | nil => simp
    | cons c cs ih => rw [List.foldl_cons, ih, List.sum_cons, add_assoc]
  show -(coefficients.foldl (· + ·) (0 : F)) = -coefficients.sum
  rw [hfold, zero_add]

end LinearForm

end PrimalSimplex
