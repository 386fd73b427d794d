/-
  `Solver.Journal`: what happened during a run.

  A run keeps its events as data.  An event that reaches a tableau holds that
  tableau, so the journal of a run contains every tableau the run went through,
  and the texts of the events are a view of it.
-/
import PrimalSimplex.Tableau.Reduction
import PrimalSimplex.Tableau.Rendering
import PrimalSimplex.Program.Relation

set_option autoImplicit false

namespace PrimalSimplex

open Column (Label)

/-- How much detail an event adds. -/
inductive Level where
  /-- Once or a few times in a run. -/
  | debug
  /-- Once or more in an iteration. -/
  | trace
  deriving DecidableEq, Repr

/-- The name of a level. -/
def Level.name : Level → String
  | debug => "DEBUG"
  | trace => "TRACE"

/-- Whether a log of this level shows an event of another one. -/
def Level.shows : Level → Level → Bool
  | trace, _ | debug, debug => true
  | debug, trace => false

/-- Something that happened during a run. -/
inductive Event (F : Type) where
  /-- A problem was accepted, and this is its initial tableau. -/
  | started (goal : Goal) (variableCount constraintCount : Nat) (tableau : Tableau F)
  | feasibilityStarted (artificials : Nat)
  /-- In an iteration, a variable takes the place of another one in a row. -/
  | exchanged (iteration : Nat) (entering : Label) (row : Nat) (leaving : Label)
  /-- The tableau after an exchange. -/
  | reached (tableau : Tableau F)
  | feasibilityDone (iterations : Nat)
  | infeasible (auxiliaryValue : F)
  /-- Columns were removed between the phases. -/
  | removed (labels : List Label)
  | optimalityStarted (tableau : Tableau F)
  | optimalityDone (iterations : Nat)
  | optimum (value : F) (iterations : Nat)

namespace Event

variable {F : Type}

/-- The level an event is told at. -/
def level : Event F → Level
  | exchanged .. | reached _ => .trace
  | _ => .debug

/-- The tableau an event arrives at. -/
def tableau? : Event F → Option (Tableau F)
  | started _ _ _ t | reached t | optimalityStarted t => some t
  | _ => none

variable [DecimalText F]

/-- An event in words. -/
def message : Event F → Except Fault String
  | started goal variableCount constraintCount t =>
    .ok <| s!"Solving {goal.name} over {variableCount} variables with {constraintCount} "
      ++ s!"constraints, tableau of {t.height} by {t.width}"
  | feasibilityStarted artificials => .ok s!"Phase one with {artificials} artificial variables"
  | exchanged iteration entering row leaving =>
    .ok s!"Iteration {iteration}: {entering.text} enters in row {row}, {leaving.text} leaves"
  | reached t => t.render
  | feasibilityDone iterations => .ok s!"Phase one done after {iterations} iterations"
  | infeasible auxiliaryValue =>
    let value := DecimalText.shortest auxiliaryValue
    .ok s!"Phase one ended with artificial objective value {value}, infeasible"
  | removed labels =>
    let names := String.intercalate ", " (labels.map Label.text)
    .ok s!"Dropping {labels.length} columns after phase one: {names}"
  | optimalityStarted t => .ok s!"Phase two on a tableau of {t.height} by {t.width}"
  | optimalityDone iterations => .ok s!"Phase two done, {iterations} iterations in total"
  | optimum value iterations =>
    .ok s!"Optimum {DecimalText.shortest value} found after {iterations} iterations"

/-- An event as a line of a log. -/
def line (e : Event F) : Except Fault String := do
  return e.level.name ++ " " ++ (← e.message)

end Event

/-- What is told when a tableau leaves the first phase: nothing if it had left it
before. -/
def Reduction.events {F : Type} (r : Reduction F) : List (Event F) :=
  if r.removed.isEmpty then [] else [.removed r.removed]

/-- The lines of a log, as detailed as its level. -/
def logLines {F : Type} [DecimalText F] (level : Level) (journal : List (Event F)) :
    Except Fault (List String) :=
  (journal.filter fun e => level.shows e.level).mapM Event.line

/-- The tableaus that a run went through, in order. -/
def visited {F : Type} (journal : List (Event F)) : List (Tableau F) :=
  journal.filterMap Event.tableau?

end PrimalSimplex
