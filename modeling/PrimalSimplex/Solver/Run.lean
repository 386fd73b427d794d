/-
  `Solver.Run`: the two phases, from an initial tableau to an end.

  Both phases exchange basic variables until no column is profitable.  They share
  one limit: an iteration is counted as soon as its column is known, before its
  row is, so the iteration that finds the problem unbounded, or that is one too
  many, is counted too.  A run recurses on the number of iterations it is still
  allowed, and so it ends whatever the numbers do.
-/
import PrimalSimplex.Solver.Failure
import PrimalSimplex.Solver.Journal
import PrimalSimplex.Tableau.BasicSolution
import PrimalSimplex.Tableau.Entering
import PrimalSimplex.Tableau.RatioTest
import PrimalSimplex.Tableau.Reduction

set_option autoImplicit false

namespace PrimalSimplex

/-! ## Progress -/

/-- The state of a run. -/
structure Progress (F : Type) where
  tableau : Tableau F
  iterations : Nat
  /-- What happened so far, the latest event first. -/
  events : List (Event F)

namespace Progress

variable {F : Type}

/-- A run that has not iterated yet. -/
def start (t : Tableau F) (event : Event F) : Progress F := ⟨t, 0, [event]⟩

/-- Notes an event. -/
def record (p : Progress F) (e : Event F) : Progress F :=
  { p with events := e :: p.events }

/-- Counts an iteration. -/
def count (p : Progress F) : Progress F :=
  { p with iterations := p.iterations + 1 }

/-- What happened, in order. -/
def journal (p : Progress F) : List (Event F) := p.events.reverse

/-- Leaves the first phase. -/
def leaveFeasibility [Scalar F] (p : Progress F) : Except Fault (Progress F) := do
  let reduction ← p.tableau.reduce
  return { p with tableau := reduction.tableau, events := reduction.events.reverse ++ p.events }

/-- Exchanges the basic variable of a row for that of a column, as one iteration. -/
def exchange [Scalar F] (p : Progress F) (row column : Nat) : Except Fault (Progress F) := do
  let entering ← p.tableau.label column
  let leaving ← p.tableau.basicLabel row
  let next ← p.tableau.pivot row column
  let counted := p.count.record (.exchanged p.count.iterations entering row leaving)
  return { counted with tableau := next }.record (.reached next)

end Progress

/-! ## Phases -/

/-- Where a part of a run ended: without a failure if it reached its goal. -/
structure Stage (F : Type) where
  failure? : Option (Failure (Malformation F))
  progress : Progress F

variable {F : Type} [Scalar F]

/-- Exchanges basic variables until the tableau is optimal, at most `allowed`
times. -/
def pivotUntilOptimal (allowed : Nat) (selector : Selector) (p : Progress F) :
    Except Fault (Stage F) := do
  let (chosen, selector) ← selector.select p.tableau
  match chosen with
  | none => return ⟨none, p⟩
  | some column =>
    match allowed with
    | 0 => return ⟨some (.iterationLimitExceeded p.count.iterations), p.count⟩
    | allowed + 1 =>
      match ← p.tableau.leavingRow? column with
      | none => return ⟨some .unbounded, p.count⟩
      | some row => pivotUntilOptimal allowed selector (← p.exchange row column)

/-- The first phase: drives the artificial variables to zero, if that is possible. -/
def runFeasibility (rule : EnteringRule) (limit : Nat) (p : Progress F) :
    Except Fault (Stage F) := do
  let begun := p.record (.feasibilityStarted p.tableau.artificials)
  let stage ← pivotUntilOptimal (limit - p.iterations) (.start rule) begun
  match stage.failure? with
  | some _ => return stage
  | none =>
    let p := stage.progress
    let value ← p.tableau.auxiliaryValue
    if Scalar.near value 0 p.tableau.tolerance then
      return ⟨none, p.record (.feasibilityDone p.iterations)⟩
    else
      return ⟨some .infeasible, p.record (.infeasible value)⟩

/-- The second phase: improves the objective as far as that is possible. -/
def runOptimality (rule : EnteringRule) (limit : Nat) (p : Progress F) :
    Except Fault (Stage F) := do
  let begun := p.record (.optimalityStarted p.tableau)
  let stage ← pivotUntilOptimal (limit - p.iterations) (.start rule) begun
  match stage.failure? with
  | some _ => return stage
  | none =>
    let p := stage.progress
    return ⟨none, p.record (.optimalityDone p.iterations)⟩

/-- Both phases, the first one only if there are artificial variables. -/
def runPhases (rule : EnteringRule) (limit : Nat) (p : Progress F) : Except Fault (Stage F) := do
  match p.tableau.phase with
  | .optimality => runOptimality rule limit p
  | .feasibility =>
    let stage ← runFeasibility rule limit p
    match stage.failure? with
    | some _ => return stage
    | none => runOptimality rule limit (← stage.progress.leaveFeasibility)

end PrimalSimplex
