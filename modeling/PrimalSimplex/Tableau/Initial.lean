/-
  `Tableau.Initial`: the tableau a problem starts with.

  A row is given by the coefficient of each label, and its entries are those of
  the layout's labels in order; so a coefficient is in the column that carries
  its variable's label, wherever the layout puts that column.

  The constraints have to be standardized before.  The slack variable of an
  `atMost` row is basic in it at the start.  Every other row gets an artificial
  variable, and the auxiliary objective counts how much of these is left.
-/
import PrimalSimplex.Column.Layout
import PrimalSimplex.Program.Problem
import PrimalSimplex.Tableau.Basic

set_option autoImplicit false

namespace PrimalSimplex

open Column (Label Layout)

variable {F : Type} [Scalar F]

/-! ## Rows of constraints -/

/-- A constraint, and the number of slack and of artificial variables that the
constraints before it have. -/
structure PlacedConstraint (F : Type) where
  constraint : Constraint F
  slack : Nat
  artificial : Nat

namespace PlacedConstraint

/-- Hands out slack and artificial variables in the order of the constraints. -/
def place (slack artificial : Nat) : List (Constraint F) → List (PlacedConstraint F)
  | [] => []
  | c :: rest =>
    ⟨c, slack, artificial⟩ ::
      place (slack + if c.relation.hasSlack then 1 else 0)
        (artificial + if c.relation.needsArtificial then 1 else 0) rest

omit [Scalar F] in
/-- Placing the constraints neither changes nor reorders them. -/
theorem map_constraint_place (slack artificial : Nat) (constraints : List (Constraint F)) :
    (place slack artificial constraints).map PlacedConstraint.constraint = constraints := by
  induction constraints generalizing slack artificial with
  | nil => rfl
  | cons c rest ih => rw [place, List.map_cons, ih]

/-- The coefficient of each variable in the row of a constraint. -/
def coefficient (p : PlacedConstraint F) : Label → F
  | .decision i => p.constraint.coefficients.getD i 0
  | .offset => p.constraint.offsetCoefficient
  | .slack i => if i = p.slack then p.constraint.relation.slackCoefficient?.getD 0 else 0
  | .artificial i => if i = p.artificial ∧ p.constraint.relation.needsArtificial then 1 else 0
  | .bound => p.constraint.bound
  | .auxiliary | .objective => 0

/-- What becomes of a number of the auxiliary objective when a constraint gets its row: the
artificial variable of the constraint, if it needs one, counts for one, and then the row is
taken off. -/
def express (label : Label) (cost : F) (p : PlacedConstraint F) : F :=
  if p.constraint.relation.needsArtificial then
    (if label = .artificial p.artificial then 1 else cost) - 1 * p.coefficient label
  else cost

/-- The column that is basic in the row at the start. -/
def basicColumn (p : PlacedConstraint F) (layout : Layout) : Nat :=
  if p.constraint.relation.needsArtificial then layout.start .artificial + p.artificial
  else layout.start .slack + p.slack

end PlacedConstraint

/-! ## Rows of objectives -/

/-- The numbers that the objective's row holds for the decision variables: what
is to be maximized is improved where its coefficient is positive, and so has its
coefficients negated. -/
def Problem.costs (p : Problem F) : List F :=
  match p.goal with
  | .maximize => p.objective.coefficients.map fun c => -c
  | .minimize => p.objective.coefficients

/-- The coefficient of each variable in the row of the objective. -/
def Problem.objectiveCoefficient (p : Problem F) : Label → F
  | .objective => match p.goal with
    | .maximize => 1
    | .minimize => -1
  | .decision i => p.costs.getD i 0
  | .offset => LinearForm.negatedSum p.costs
  | .bound => match p.goal with
    | .maximize => p.objective.constant
    | .minimize => -p.objective.constant
  | .auxiliary | .slack _ | .artificial _ => 0

/-! ## The tableau -/

namespace Problem

/-- The columns a problem needs. -/
def layout (p : Problem F) : Layout where
  decisions := p.objective.variableCount
  hasOffset := !p.nonNegative
  slacks := p.constraints.countP fun c => c.relation.hasSlack
  artificials := p.constraints.countP fun c => c.relation.needsArtificial

/-- A row of the initial tableau. -/
def row (p : Problem F) (coefficient : Label → F) : List F :=
  p.layout.labels.map coefficient

/-- The constraints with their slack and artificial variables. -/
def placedConstraints (p : Problem F) : List (PlacedConstraint F) :=
  PlacedConstraint.place 0 0 p.constraints

/-- The coefficient of each variable in the auxiliary objective, expressed in the variables
that are not basic.  The row is zero at first, but for its own column, and the constraints
change it in their order; what an artificial variable counts for is not there before its
constraint is. -/
def auxiliaryCost (p : Problem F) (label : Label) : F :=
  p.placedConstraints.foldl (PlacedConstraint.express label) (if label = .auxiliary then -1 else 0)

/-- The rows of the objectives. -/
def objectiveRows (p : Problem F) : List (List F) :=
  if 0 < p.layout.artificials then [p.row p.auxiliaryCost, p.row p.objectiveCoefficient]
  else [p.row p.objectiveCoefficient]

/-- The matrix of the initial tableau. -/
def initialRows (p : Problem F) : List (List F) :=
  p.objectiveRows ++ p.placedConstraints.map fun c => p.row c.coefficient

omit [Scalar F] in
@[simp] theorem length_row (p : Problem F) (coefficient : Label → F) :
    (p.row coefficient).length = p.layout.width := by
  simp [row]

theorem length_of_mem_initialRows (p : Problem F) :
    ∀ r ∈ p.initialRows, r.length = p.layout.width := by
  intro r hr
  obtain hr | hr := List.mem_append.mp hr
  · unfold objectiveRows at hr
    split at hr
    · obtain rfl | hr := List.mem_cons.mp hr
      · exact length_row p _
      · rw [List.mem_singleton.mp hr, length_row]
    · rw [List.mem_singleton.mp hr, length_row]
  · obtain ⟨c, _, rfl⟩ := List.mem_map.mp hr
    exact length_row p _

end Problem

/-- The initial tableau of a problem with standardized constraints.  A constraint
without one coefficient for each variable is a fault. -/
def Tableau.initial (p : Problem F) (tolerance : F) : Except Fault (Tableau F) :=
  if p.constraints.all fun c => c.coefficients.length == p.objective.variableCount then
    .ok
      { matrix := ⟨p.initialRows, p.layout.width, p.length_of_mem_initialRows⟩
        labels := p.layout.labels
        basis := p.placedConstraints.map fun c => c.basicColumn p.layout
        tolerance := tolerance
        decisions := p.layout.size .decision + p.layout.size .offset
        slacks := p.layout.slacks
        artificials := p.layout.artificials
        phase := if 0 < p.layout.artificials then .feasibility else .optimality
        nonNegative := p.nonNegative }
  else .error .outOfRange

end PrimalSimplex
