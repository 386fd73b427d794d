/-
  `Tableau.Basic`: the simplex tableau and what can be read off it.

  Rows of objectives come first, then one row for each constraint; the last
  column holds the right hand sides.  In the first phase there are two
  objectives, the auxiliary one in row 0 and that of the problem in row 1.
  Afterwards only the latter is left.  Row 0 is the one that is being improved,
  and its entries are kept such that nothing can be improved when none of them
  is negative.

  Each constraint row has a basic column.  The variable of that column has the
  row's right hand side as its value, and all other variables are zero.
-/
import PrimalSimplex.Column.Label
import PrimalSimplex.Matrix.Basic
import PrimalSimplex.Scalar.Tolerance

set_option autoImplicit false

namespace PrimalSimplex

/-- What a tableau is being pivoted for. -/
inductive Phase where
  /-- Driving the artificial variables to zero. -/
  | feasibility
  /-- Improving the objective of the problem. -/
  | optimality
  deriving DecidableEq, Repr

/-- The number of objectives, each of which has a row and a column. -/
def Phase.objectives : Phase → Nat
  | feasibility => 2
  | optimality => 1

/-- A simplex tableau. -/
structure Tableau (F : Type) where
  matrix : Matrix F
  /-- The variable of each column. -/
  labels : List Column.Label
  /-- The basic column of each constraint row. -/
  basis : List Nat
  /-- Numbers that differ by no more than this are taken for equal. -/
  tolerance : F
  /-- The number of decision variables, and the offset if there is one. -/
  decisions : Nat
  slacks : Nat
  /-- The number of artificial variables; zero after the first phase. -/
  artificials : Nat
  phase : Phase
  /-- Whether the decision variables themselves are at least zero. -/
  nonNegative : Bool

namespace Tableau

variable {F : Type}

/-! ## Positions -/

/-- The number of rows. -/
def height (t : Tableau F) : Nat := t.matrix.height

/-- The number of columns. -/
def width (t : Tableau F) : Nat := t.matrix.width

/-- The number of objectives. -/
def objectives (t : Tableau F) : Nat := t.phase.objectives

/-- The column of the right hand sides. -/
def boundColumn (t : Tableau F) : Nat := t.width - 1

/-- The columns of variables: all but those of objectives and right hand sides. -/
def variableColumns (t : Tableau F) : List Nat :=
  List.range' t.objectives (t.boundColumn - t.objectives)

/-- The rows of constraints: all but those of objectives. -/
def constraintRows (t : Tableau F) : List Nat :=
  List.range' t.objectives (t.height - t.objectives)

/-! ## Reading -/

/-- The entry in a row and a column. -/
def entry (t : Tableau F) (row column : Nat) : Except Fault F :=
  t.matrix.entry row column

/-- The entry of a column in the row that is being improved.  Where it is
negative, an increase of the variable is an improvement. -/
def cost (t : Tableau F) (column : Nat) : Except Fault F :=
  t.entry 0 column

/-- The right hand side of a row. -/
def bound (t : Tableau F) (row : Nat) : Except Fault F :=
  t.entry row t.boundColumn

/-- The variable of a column. -/
def label (t : Tableau F) (column : Nat) : Except Fault Column.Label :=
  Fault.fetch t.labels column

/-- The column of a variable, if it is still there. -/
def columnOf? (t : Tableau F) (label : Column.Label) : Option Nat :=
  t.labels.idxOf? label

/-- The basic column of a constraint row. -/
def basicColumn (t : Tableau F) (row : Nat) : Except Fault Nat :=
  if row < t.objectives then .error .outOfRange
  else Fault.fetch t.basis (row - t.objectives)

/-- The row in which a column is basic. -/
def basicRow? (t : Tableau F) (column : Nat) : Option Nat :=
  (t.basis.idxOf? column).map (· + t.objectives)

/-- The variable that is basic in a constraint row. -/
def basicLabel (t : Tableau F) (row : Nat) : Except Fault Column.Label := do
  t.label (← t.basicColumn row)

variable [Scalar F]

/-- Whether every entry is finite. -/
def isFinite (t : Tableau F) : Bool := t.matrix.isFinite

/-- Equality in every respect, where numbers are equal as the scalars compare. -/
def isEq (s t : Tableau F) : Bool :=
  s.matrix.isEq t.matrix && s.labels == t.labels && s.basis == t.basis &&
    Scalar.isEq s.tolerance t.tolerance && s.decisions == t.decisions && s.slacks == t.slacks &&
    s.artificials == t.artificials && s.phase == t.phase && s.nonNegative == t.nonNegative

/-! ## Row operations -/

/-- Divides a row. -/
def divideRow (t : Tableau F) (row : Nat) (divisor : F) : Except Fault (Tableau F) := do
  return { t with matrix := ← t.matrix.divideRow row divisor }

/-- Subtracts a multiple of one row from another one. -/
def subtractRow (t : Tableau F) (minuend subtrahend : Nat) (multiple : F) :
    Except Fault (Tableau F) := do
  return { t with matrix := ← t.matrix.subtractRow minuend subtrahend multiple }

/-- Makes a column the basic one of a constraint row, in place of the column that
was. -/
def pivot (t : Tableau F) (row column : Nat) : Except Fault (Tableau F) := do
  let _ ← t.basicColumn row
  return { t with
    matrix := ← t.matrix.pivot row column
    basis := t.basis.set (row - t.objectives) column }

end Tableau

end PrimalSimplex
