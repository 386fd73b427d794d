/-
  `Solver.Basic`: solving linear programs.

  A solver keeps its settings from one problem to the next.  Of a solved problem
  it keeps only how many iterations were counted; all else is in the report.
-/
import PrimalSimplex.Solver.Run
import PrimalSimplex.Solver.Validation
import PrimalSimplex.Tableau.Initial

set_option autoImplicit false

namespace PrimalSimplex

/-- What a solver can be told. -/
structure Settings (F : Type) where
  /-- Numbers that differ by no more than this are taken for equal. -/
  tolerance : F
  /-- The greatest number of iterations, summed over both phases. -/
  maxIterations : Nat

/-- The settings of a solver that was told nothing. -/
def Settings.standard {F : Type} [OfScientific F] : Settings F := ⟨1e-6, 1000⟩

/-- The answer to a problem. -/
structure Report (F : Type) where
  result : Except (Failure (Malformation F)) (Solution F)
  /-- The number of iterations that were counted. -/
  iterations : Nat
  /-- The tableau at the end; none if the input was malformed. -/
  tableau? : Option (Tableau F)
  journal : List (Event F)

namespace Report

variable {F : Type}

/-- The answer to an input that is not solved. -/
def malformed (m : Malformation F) : Report F :=
  ⟨.error (.malformedInput m), 0, none, []⟩

/-- The answer at the end of a run. -/
def ofProgress (result : Except (Failure (Malformation F)) (Solution F)) (p : Progress F) :
    Report F :=
  ⟨result, p.iterations, some p.tableau, p.journal⟩

end Report

variable {F : Type} [Scalar F]

/-- Solves a problem from its initial tableau on. -/
def Problem.solveFrom (p : Problem F) (initial : Tableau F) (limit : Nat) (rule : EnteringRule) :
    Except Fault (Report F) := do
  let started := Event.started p.goal p.objective.variableCount p.constraints.length initial
  let stage ← runPhases rule limit (.start initial started)
  let reached := stage.progress
  match stage.failure? with
  | some failure => return .ofProgress (.error failure) reached
  | none =>
    let solution ← reached.tableau.solution p.objective
    return .ofProgress (.ok solution) (reached.record (.optimum solution.value reached.iterations))

/-- Solves a problem, unless something is wrong with it. -/
def Problem.solve (p : Problem F) (settings : Settings F) (rule : EnteringRule) :
    Except Fault (Report F) :=
  match p.defects settings.tolerance with
  | m :: _ => .ok (.malformed m)
  | [] => do
    let initial ← Tableau.initial p.standardize settings.tolerance
    if initial.isFinite then p.solveFrom initial settings.maxIterations rule
    else return .malformed .tableauNotFinite

/-- A solver, which can be used again and again. -/
structure Solver (F : Type) where
  settings : Settings F
  rule : EnteringRule
  /-- The iterations of the last problem. -/
  iterations : Nat

namespace Solver

omit [Scalar F] in
/-- A solver that has not been used. -/
def create (settings : Settings F) (rule : EnteringRule) : Solver F := ⟨settings, rule, 0⟩

/-- The rule of a solver that was told none. -/
def standardRule : EnteringRule := .steepest

omit [Scalar F] in
/-- Changes the limit for the problems to come. -/
def setMaxIterations (s : Solver F) (limit : Nat) : Solver F :=
  { s with settings := { s.settings with maxIterations := limit } }

/-- Solves a problem, and counts its iterations. -/
def optimize (s : Solver F) (p : Problem F) : Except Fault (Report F × Solver F) := do
  let report ← p.solve s.settings s.rule
  return (report, { s with iterations := report.iterations })

end Solver

end PrimalSimplex
