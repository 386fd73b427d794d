/-
  `Tableau.Entering`: which column enters the basis next.

  A column is profitable when its entry in the row that is being improved is
  negative.  A tableau without profitable columns is optimal.  The rules differ
  only in which profitable column they take, so they all stop at the same
  tableaus.
-/
import PrimalSimplex.Tableau.Basic

set_option autoImplicit false

namespace PrimalSimplex

variable {F : Type} [Scalar F]

namespace Tableau

/-- The columns whose variables improve row 0, with their costs, in order. -/
def profitableColumns (t : Tableau F) : Except Fault (List (Nat × F)) := do
  let columns ← t.variableColumns.mapM fun column => do return (column, ← t.cost column)
  return columns.filter fun column => Scalar.isNegative column.2 t.tolerance

/-- Whether row 0 allows no improvement. -/
def isOptimal (t : Tableau F) : Except Fault Bool := do
  return (← t.profitableColumns).isEmpty

end Tableau

/-- How a column is chosen among the profitable ones. -/
inductive EnteringRule where
  /-- The least cost; the first such column on a tie. -/
  | steepest
  /-- The first one. -/
  | first
  /-- The next one after the column that was chosen last, starting over at the
  end. -/
  | roundRobin
  deriving DecidableEq, Repr

/-- The first column with the least cost. -/
def leastCost? : List (Nat × F) → Option Nat
  | [] => none
  | first :: rest =>
    some (rest.foldl (fun best next => if Scalar.isLt next.2 best.2 then next else best) first).1

/-- The first position after `last`, or else the first of all.  A position that no
longer exists lies after all others and so makes the search start over. -/
def nextAfter? (last : Option Nat) (columns : List Nat) : Option Nat :=
  match last with
  | none => columns.head?
  | some last => (columns.find? fun column => last < column).or columns.head?

omit [Scalar F] in
theorem nextAfter?_eq_none_iff {last : Option Nat} {columns : List Nat} :
    nextAfter? last columns = none ↔ columns = [] := by
  cases columns with
  | nil => cases last <;> simp [nextAfter?]
  | cons column rest => cases last <;> simp [nextAfter?]

theorem leastCost?_eq_none_iff {columns : List (Nat × F)} :
    leastCost? columns = none ↔ columns = [] := by
  cases columns <;> simp [leastCost?]

/-- A rule in use. -/
structure Selector where
  rule : EnteringRule
  /-- The column that was chosen last. -/
  last : Option Nat
  deriving DecidableEq, Repr

namespace Selector

/-- A rule that has not chosen yet. -/
def start (rule : EnteringRule) : Selector := ⟨rule, none⟩

/-- Chooses a column to enter, none if the tableau is optimal. -/
def select (s : Selector) (t : Tableau F) : Except Fault (Option Nat × Selector) := do
  let columns ← t.profitableColumns
  let chosen := match s.rule with
    | .steepest => leastCost? columns
    | .first => (columns.map (·.1)).head?
    | .roundRobin => nextAfter? s.last (columns.map (·.1))
  return (chosen, { s with last := chosen })

end Selector

end PrimalSimplex
