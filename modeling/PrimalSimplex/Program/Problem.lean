/-
  `Program.Problem`: linear programs, and the points that answer them.
-/
import PrimalSimplex.Program.Constraint

set_option autoImplicit false

namespace PrimalSimplex

/-- The function `coefficients · x + constant` that is maximized or minimized. -/
structure Objective (F : Type) where
  coefficients : List F
  constant : F

namespace Objective

/-- The number of variables: one for each coefficient. -/
def variableCount {F : Type} (o : Objective F) : Nat := o.coefficients.length

/-- The objective at a point, where the constant is the first term of the sum. -/
def value {F : Type} [Scalar F] (o : Objective F) (point : List F) : F :=
  LinearForm.eval o.constant o.coefficients point

end Objective

/-- A linear program. -/
structure Problem (F : Type) where
  objective : Objective F
  constraints : List (Constraint F)
  goal : Goal
  /-- Whether every variable has to be at least zero. -/
  nonNegative : Bool

/-- The program with every bound made nonnegative. -/
def Problem.standardize {F : Type} [Scalar F] (p : Problem F) : Problem F :=
  { p with constraints := p.constraints.map Constraint.standardize }

/-- A point together with the objective there. -/
structure Solution (F : Type) where
  point : List F
  value : F

end PrimalSimplex
