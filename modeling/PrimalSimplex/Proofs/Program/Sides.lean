/-
  `Proofs.Program.Sides`: what a constraint with variables on both sides says.

  A constraint is stored with its variables on the left and one number on the right.
  Over exact numbers nothing is lost by that: the stored constraint compares the values
  of the two sides that it was made of, also when one side names fewer variables than
  the other, and it may be missed by the same tolerance.
-/
import Mathlib.Algebra.BigOperators.Group.Finset.Basic
import PrimalSimplex.Proofs.Program.Feasible

set_option autoImplicit false

namespace PrimalSimplex

open LinearForm (dot difference)

variable {F : Type} [Field F] [LinearOrder F]

/-! ## Linear forms with fewer coefficients -/

namespace LinearForm

omit [LinearOrder F] in
/-- A form as a sum over the variables.  A missing coefficient is read as zero. -/
theorem dot_eq_sum (coefficients point : List F) :
    dot coefficients point =
      ∑ i ∈ Finset.range point.length, coefficients.getD i 0 * point.getD i 0 := by
  induction point generalizing coefficients with
  | nil => simp [dot]
  | cons x point ih =>
    rw [List.length_cons, Finset.sum_range_succ']
    cases coefficients with
    | nil => simp
    | cons c coefficients => simp [ih, add_comm]

/-- A coefficient of a difference is the difference of the coefficients, of which either
may be missing. -/
theorem getD_difference (left right : List F) (i : Nat) :
    (difference left right).getD i 0 = left.getD i 0 - right.getD i 0 := by
  induction left generalizing right i with
  | nil =>
    have hright : difference [] right = right.map fun r => -r := by cases right <;> rfl
    rw [hright, List.getD_eq_getElem?_getD, List.getD_eq_getElem?_getD, List.getElem?_map]
    cases hr : right[i]? with
    | none => simp [hr]
    | some r => simp [hr]
  | cons l left ih =>
    cases right with
    | nil => simp [difference]
    | cons r right =>
      cases i with
      | zero => rfl
      | succ i => simpa [difference] using ih right i

theorem dot_difference (left right point : List F) :
    dot (difference left right) point = dot left point - dot right point := by
  simp only [dot_eq_sum, ← Finset.sum_sub_distrib, getD_difference, sub_mul]

/-- The difference the other way around, coefficient by coefficient. -/
theorem difference_swap (left right : List F) :
    difference right left = (difference left right).map fun a => -a := by
  induction left generalizing right with
  | nil => cases right <;> simp [difference]
  | cons l left ih =>
    cases right with
    | nil => rfl
    | cons r right => simp [difference, ih]

end LinearForm

/-! ## Sides -/

/-- The value of one side of a constraint: a constant, and for each variable the product
with its coefficient, which is zero where the side has none. -/
def sideValue (coefficients : List F) (constant : F) (point : List F) : F :=
  ∑ i ∈ Finset.range point.length, coefficients.getD i 0 * point.getD i 0 + constant

/-- The left value is related to the right one, or misses that by the tolerance at most. -/
def Relation.HoldsWithin (tolerance : F) : Relation → (left right : F) → Prop
  | equal, left, right => |left - right| ≤ tolerance
  | atLeast, left, right => right - tolerance ≤ left
  | atMost, left, right => left ≤ right + tolerance

namespace Constraint

variable [IsStrictOrderedRing F] {left right point : List F} {p q tolerance : F}
  {relation : Relation}

/-- Moving variables to the left and constants to the right takes the same off both
sides. -/
theorem isSatisfiedBy_ofSides_iff :
    (ofSides left p relation right q).isSatisfiedBy point tolerance = true ↔
      relation.HoldsWithin tolerance (sideValue left p point) (sideValue right q point) := by
  rw [isSatisfiedBy_iff, sideValue, sideValue, ← LinearForm.dot_eq_sum, ← LinearForm.dot_eq_sum]
  have hdot : dot (ofSides left p relation right q).coefficients point =
      dot left point - dot right point := LinearForm.dot_difference left right point
  have hbound : (ofSides left p relation right q).bound = q - p := rfl
  rw [hdot, hbound]
  cases relation with
  | equal =>
    have hmoved : dot left point - dot right point - (q - p) =
        dot left point + p - (dot right point + q) := by ring
    show |_| ≤ tolerance ↔ |_| ≤ tolerance
    rw [hmoved]
  | atLeast =>
    show q - p - tolerance ≤ _ ↔ _ - tolerance ≤ _
    constructor <;> intro h <;> linarith
  | atMost =>
    show _ ≤ q - p + tolerance ↔ _ ≤ _ + tolerance
    constructor <;> intro h <;> linarith

omit [IsStrictOrderedRing F] in
/-- With the sides exchanged and the relation turned around, every number is negated. -/
theorem ofSides_swap :
    ofSides right q relation.flip left p = (ofSides left p relation right q).negate := by
  have hbound : p - q = -(q - p) := (neg_sub q p).symm
  show Constraint.mk (difference right left) relation.flip (p - q) =
    Constraint.mk ((difference left right).map fun a => -a) relation.flip (-(q - p))
  rw [LinearForm.difference_swap, hbound]

/-! ## The result -/

/-- A constraint of two sides has a coefficient for each variable that either side names,
and is satisfied up to a tolerance where the values of the sides are related up to it.
With the sides exchanged and the relation turned around it is satisfied by the same
points at the same tolerances, and has the same standard form if the constants differ. -/
theorem isSatisfiedBy_ofSides (left right : List F) (p q : F) (relation : Relation) :
    (ofSides left p relation right q).coefficients.length = max left.length right.length ∧
    (∀ point tolerance,
      ((ofSides left p relation right q).isSatisfiedBy point tolerance = true ↔
        relation.HoldsWithin tolerance (sideValue left p point) (sideValue right q point)) ∧
      (ofSides right q relation.flip left p).isSatisfiedBy point tolerance =
        (ofSides left p relation right q).isSatisfiedBy point tolerance) ∧
    (p ≠ q →
      (ofSides right q relation.flip left p).standardize =
        (ofSides left p relation right q).standardize) := by
  refine ⟨LinearForm.length_difference left right, fun point tolerance => ⟨?_, ?_⟩, fun h => ?_⟩
  · exact isSatisfiedBy_ofSides_iff
  · rw [ofSides_swap]
    exact Bool.eq_iff_iff.mpr isSatisfiedBy_negate
  · have hbound : (ofSides left p relation right q).bound ≠ 0 := sub_ne_zero.mpr h.symm
    rw [ofSides_swap]
    exact standardize_negate hbound

/-- Of `x + 1 ≥ 2 y + 3 z - 1`, whose left side names one variable and whose right side
names three. -/
theorem isSatisfiedBy_ofSides_unequal_lengths :
    (ofSides [1] 1 .atLeast [0, 2, 3] (-1) : Constraint ℚ).isSatisfiedBy [3, 1, 1] 0 = true ∧
      (ofSides [0, 2, 3] (-1) .atMost [1] 1 : Constraint ℚ).standardize =
        (ofSides [1] 1 .atLeast [0, 2, 3] (-1)).standardize := by
  obtain ⟨-, hpoints, hstandard⟩ := isSatisfiedBy_ofSides ([1] : List ℚ) [0, 2, 3] 1 (-1) .atLeast
  refine ⟨(hpoints [3, 1, 1] 0).1.mpr ?_, hstandard (by norm_num)⟩
  show sideValue [0, 2, 3] (-1) [3, 1, 1] - 0 ≤ sideValue [1] 1 [3, 1, 1]
  norm_num [sideValue, Finset.sum_range_succ]

end Constraint

end PrimalSimplex
