/-
  `Solver.Validation`: which inputs are not solved at all.

  All that is wrong with an input is listed in a fixed order, and the first of it
  is reported: the tolerance, the objective, the constraints one after another,
  and last the sum of the objective's coefficients.
-/
import PrimalSimplex.Program.Problem
import PrimalSimplex.Solver.Failure

set_option autoImplicit false

namespace PrimalSimplex

variable {F : Type} [Scalar F]

namespace Malformation

/-- Reports something unless a condition holds. -/
def require (condition : Bool) (m : Malformation F) : List (Malformation F) :=
  if condition then [] else [m]

omit [Scalar F] in
@[simp] theorem require_eq_nil_iff {condition : Bool} {m : Malformation F} :
    Malformation.require condition m = [] ↔ condition = true := by
  cases condition <;> simp [Malformation.require]

end Malformation

open Malformation (require)

/-- What is wrong with the tolerance. -/
def toleranceDefects (tolerance : F) : List (Malformation F) :=
  require (Scalar.isFinite tolerance && !Scalar.isLt tolerance 0) (.tolerance tolerance)

/-- What is wrong with the numbers of an objective. -/
def Objective.defects (o : Objective F) : List (Malformation F) :=
  require (o.variableCount != 0) .noVariables
    ++ require (o.coefficients.all Scalar.isFinite && Scalar.isFinite o.constant)
      .objectiveNotFinite

/-- What is wrong with a constraint at a position of a problem.  Only where the
variables may be negative, the sum of the coefficients is used at all. -/
def Constraint.defects (variableCount : Nat) (nonNegative : Bool) (c : Constraint F)
    (position : Nat) : List (Malformation F) :=
  require (c.coefficients.length == variableCount)
      (.coefficientCount position c.coefficients.length variableCount)
    ++ require (c.coefficients.all Scalar.isFinite && Scalar.isFinite c.bound)
      (.constraintNotFinite position)
    ++ require (nonNegative || Scalar.isFinite c.offsetCoefficient) (.constraintSum position)

/-- All that is wrong with a problem and a tolerance, in the order of reports. -/
def Problem.defects (p : Problem F) (tolerance : F) : List (Malformation F) :=
  toleranceDefects tolerance
    ++ p.objective.defects
    ++ (p.constraints.zipIdx.flatMap fun c =>
      c.1.defects p.objective.variableCount p.nonNegative c.2)
    ++ require (p.nonNegative ||
      Scalar.isFinite (LinearForm.negatedSum p.objective.coefficients)) .objectiveSum

end PrimalSimplex
