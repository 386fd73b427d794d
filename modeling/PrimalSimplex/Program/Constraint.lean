/-
  `Program.Constraint`: one linear equation or inequality.

  A constraint is stored with its variables on the left and one number on the
  right.  The simplex method starts from right hand sides that are not negative,
  which `standardize` arranges by negating both sides.
-/
import PrimalSimplex.Program.Relation
import PrimalSimplex.Scalar.LinearForm
import PrimalSimplex.Scalar.Tolerance

set_option autoImplicit false

namespace PrimalSimplex

/-- The constraint `coefficients · x` *relation* `bound`. -/
structure Constraint (F : Type) where
  coefficients : List F
  relation : Relation
  bound : F

namespace Constraint

variable {F : Type} [Scalar F]

/-- The constraint `left · x + leftConstant` *relation* `right · x + rightConstant`,
with everything that has a variable moved to the left. -/
def ofSides (left : List F) (leftConstant : F) (relation : Relation) (right : List F)
    (rightConstant : F) : Constraint F where
  coefficients := LinearForm.difference left right
  relation := relation
  bound := rightConstant - leftConstant

/-- The same constraint with both sides negated. -/
def negate (c : Constraint F) : Constraint F where
  coefficients := c.coefficients.map fun a => -a
  relation := c.relation.flip
  bound := -c.bound

/-- The constraint, negated if its bound is below zero. -/
def standardize (c : Constraint F) : Constraint F :=
  if Scalar.isLt c.bound 0 then c.negate else c

/-- Whether a point meets the constraint when its bound may be missed by
`tolerance`. -/
def isSatisfiedBy (c : Constraint F) (point : List F) (tolerance : F) : Bool :=
  let left := LinearForm.eval 0 c.coefficients point
  match c.relation with
  | .equal => Scalar.near left c.bound tolerance
  | .atLeast => Scalar.isLe (c.bound - tolerance) left
  | .atMost => Scalar.isLe left (c.bound + tolerance)

/-- Coefficient of a variable that is subtracted from every variable at once. -/
def offsetCoefficient (c : Constraint F) : F :=
  LinearForm.negatedSum c.coefficients

/-- Equality of the numbers and the relation, as the scalars compare. -/
def isEq (c d : Constraint F) : Bool :=
  c.relation == d.relation && Scalar.isEq c.bound d.bound &&
    c.coefficients.isEqv d.coefficients Scalar.isEq

/-- Standardizing never changes the number of coefficients. -/
@[simp] theorem length_coefficients_standardize (c : Constraint F) :
    c.standardize.coefficients.length = c.coefficients.length := by
  unfold standardize
  split <;> simp [negate]

end Constraint

end PrimalSimplex
