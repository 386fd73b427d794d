/-
  `Solver.Failure`: why a problem has no optimum to report.
-/
import PrimalSimplex.Decimal.Text

set_option autoImplicit false

namespace PrimalSimplex

/-- What is wrong with an input.  Constraints are counted from zero. -/
inductive Malformation (F : Type) where
  /-- The tolerance is negative or not finite. -/
  | tolerance (given : F)
  | noVariables
  | objectiveNotFinite
  | coefficientCount (constraint given expected : Nat)
  | constraintNotFinite (constraint : Nat)
  /-- The coefficients of a constraint have no finite sum, which the column of the
  offset would hold. -/
  | constraintSum (constraint : Nat)
  /-- The same for the objective. -/
  | objectiveSum
  /-- All given numbers are finite, and the initial tableau still is not. -/
  | tableauNotFinite
  deriving DecidableEq, Repr

/-- What is wrong, in words. -/
def Malformation.message {F : Type} [DecimalText F] : Malformation F → String
  | tolerance given =>
    s!"epsilon should be finite and non negative, got {DecimalText.shortest given}"
  | noVariables => "the objective function has no coefficients"
  | objectiveNotFinite => "the objective function contains a non finite value"
  | coefficientCount constraint given expected =>
    s!"constraint {constraint} has {given} coefficients, expected {expected}"
  | constraintNotFinite constraint => s!"constraint {constraint} contains a non finite value"
  | constraintSum constraint => s!"the coefficients of constraint {constraint} overflow when summed"
  | objectiveSum => "the objective coefficients overflow when summed"
  | tableauNotFinite => "the values are too large to represent the problem as a tableau"

/-- Why there is no optimum, where `Cause` says what can be wrong with an input. -/
inductive Failure (Cause : Type) where
  /-- No point satisfies all constraints. -/
  | infeasible
  /-- The objective can be improved without end. -/
  | unbounded
  /-- More iterations were needed than allowed; carries the number of the first
  one that was too many. -/
  | iterationLimitExceeded (count : Nat)
  | malformedInput (cause : Cause)
  deriving DecidableEq, Repr

/-- Why there is no optimum, in words, given the words for a malformed input. -/
def Failure.message {Cause : Type} (describe : Cause → String) : Failure Cause → String
  | infeasible => "the problem is infeasible"
  | unbounded => "the problem is unbounded"
  | iterationLimitExceeded count => s!"maximal iteration count exceeded: {count}"
  | malformedInput cause => "malformed input: " ++ describe cause

end PrimalSimplex
