/-
  `Tableau.Reduction`: from the first phase to the second.

  The row and the column of the auxiliary objective go, and with them the columns
  of variables that have to stay zero from here on: those with a positive cost in
  the auxiliary objective, and the artificial ones that are not basic.  An
  artificial variable that is still basic keeps its column, as its row would
  otherwise have no basic variable.
-/
import PrimalSimplex.Matrix.Without
import PrimalSimplex.Tableau.Basic

set_option autoImplicit false

namespace PrimalSimplex

/-- A tableau after columns were removed, and the variables of those columns. -/
structure Reduction (F : Type) where
  tableau : Tableau F
  removed : List Column.Label

namespace Tableau

variable {F : Type} [Scalar F]

/-- Whether the variable of a column has to stay zero after the first phase. -/
def isSurplus (t : Tableau F) (column : Nat) : Except Fault Bool := do
  let cost ← t.cost column
  let label ← t.label column
  return Scalar.isPositive cost t.tolerance ||
    (label.isArtificial && (t.basicRow? column).isNone)

/-- The columns that are not needed in the second phase, in order. -/
def surplusColumns (t : Tableau F) : Except Fault (List Nat) := do
  return 0 :: (← Fault.filter t.isSurplus t.variableColumns)

/-- Leaves the first phase.  A tableau that has already left it stays the same.  A
basic column moves to the left by one for each column removed before it, that is,
to the number of columns kept before it. -/
def reduce (t : Tableau F) : Except Fault (Reduction F) := do
  match t.phase with
  | .optimality => return ⟨t, []⟩
  | .feasibility =>
    let surplus ← t.surplusColumns
    let removed ← surplus.mapM t.label
    let reduced := { t with
      matrix := ← t.matrix.without [0] surplus
      labels := dropPositions surplus t.labels
      basis := t.basis.map fun column => (keptPositions surplus column).length
      artificials := 0
      phase := .optimality }
    return ⟨reduced, removed⟩

end Tableau

end PrimalSimplex
