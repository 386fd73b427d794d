/-
  `Tableau.BasicSolution`: the point that a tableau stands for.
-/
import PrimalSimplex.Program.Problem
import PrimalSimplex.Tableau.Basic

set_option autoImplicit false

namespace PrimalSimplex.Tableau

variable {F : Type} [Scalar F]

/-- The value of a variable: the right hand side of the row where it is basic.  A
variable that is nowhere basic, or has no column any more, is zero. -/
def value (t : Tableau F) (label : Column.Label) : Except Fault F :=
  match t.columnOf? label >>= t.basicRow? with
  | some row => t.bound row
  | none => .ok 0

/-- What is subtracted from every decision variable. -/
def offset (t : Tableau F) : Except Fault F :=
  if t.nonNegative then .ok 0 else t.value .offset

/-- The point of the current basis, and an objective there. -/
def solution (t : Tableau F) (objective : Objective F) : Except Fault (Solution F) := do
  let offset ← t.offset
  let point ← (List.range objective.variableCount).mapM fun i => do
    return (← t.value (.decision i)) - offset
  return ⟨point, objective.value point⟩

/-- The value of the auxiliary objective, zero when every artificial variable is. -/
def auxiliaryValue (t : Tableau F) : Except Fault F :=
  t.bound 0

end PrimalSimplex.Tableau
