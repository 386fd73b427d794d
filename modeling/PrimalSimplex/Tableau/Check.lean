/-
  `Tableau.Check`: whether a tableau is in the state that every step relies on.

  A tableau is used as if it showed a basis with a feasible solution.  The check
  below reads that off: sizes fit together, no column is basic twice, each basic
  column is the unit vector of its row, and no right hand side is negative.  It is
  made up to the tolerance; right hand sides may have grown large, so they are
  compared relative to their size.
-/
import PrimalSimplex.Tableau.Basic

set_option autoImplicit false

namespace PrimalSimplex.Tableau

variable {F : Type} [Scalar F]

/-- Whether a column is the unit vector of a row. -/
def isUnitColumn (t : Tableau F) (column row : Nat) : Except Fault Bool := do
  let marks ← (List.range t.height).mapM fun i => do
    return Scalar.near (← t.entry i column) (if i = row then 1 else 0) t.tolerance
  return marks.all id

/-- Whether the right hand side of a row is not negative for its size. -/
def isBoundInOrder (t : Tableau F) (row : Nat) : Except Fault Bool := do
  let value ← t.bound row
  let size := Scalar.abs value
  let scale := if Scalar.isLt 1 size then size else 1
  return !Scalar.isNegative (value / scale) t.tolerance

/-- Whether the tableau shows a basis with a feasible solution. -/
def isInOrder (t : Tableau F) : Except Fault Bool := do
  let units ← t.basis.zipIdx.mapM fun basic => t.isUnitColumn basic.1 (t.objectives + basic.2)
  let bounds ← t.constraintRows.mapM t.isBoundInOrder
  return t.labels.length == t.width && t.basis.length + t.objectives == t.height &&
    decide t.basis.Nodup && units.all id && bounds.all id

end PrimalSimplex.Tableau
