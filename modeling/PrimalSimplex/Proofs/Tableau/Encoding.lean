/-
  `Proofs.Tableau.Encoding`: an initial tableau says what its problem says.

  Values of the variables stand for a point: that of the decision variables, less
  the offset if they may be negative.  For a solution without artificial variables
  the rows of constraints say that the point is feasible, and for every feasible
  point there is such a solution; the row of the objective holds its value, and
  that of the auxiliary objective the sum of the artificial variables.
-/
import Mathlib.Algebra.Order.BigOperators.Group.List
import PrimalSimplex.Proofs.Program.Feasible
import PrimalSimplex.Proofs.Tableau.Initial

set_option autoImplicit false

namespace PrimalSimplex

open Column (Label Layout)
open LinearForm (dot)

variable {F : Type} [Field F]

/-! ## Rows as functions of labels -/

/-- What the slack and artificial variables of a constraint add to its left hand
side. -/
def PlacedConstraint.fill [LinearOrder F] (c : PlacedConstraint F) (x : Label → F) : F :=
  c.constraint.relation.slackCoefficient?.getD 0 * x (.slack c.slack) +
    if c.constraint.relation.needsArtificial then x (.artificial c.artificial) else 0

theorem PlacedConstraint.fill_eq [LinearOrder F] (c : PlacedConstraint F) (x : Label → F) :
    c.fill x = match c.constraint.relation with
      | .equal => x (.artificial c.artificial)
      | .atLeast => x (.artificial c.artificial) - x (.slack c.slack)
      | .atMost => x (.slack c.slack) := by
  unfold fill
  cases c.constraint.relation with
  | equal =>
    show 0 * _ + x (.artificial c.artificial) = _
    rw [zero_mul, zero_add]
  | atLeast =>
    show -1 * x (.slack c.slack) + x (.artificial c.artificial) = _
    rw [neg_one_mul, neg_add_eq_sub]
  | atMost =>
    show 1 * x (.slack c.slack) + 0 = _
    rw [one_mul, add_zero]

namespace Problem

/-- What is subtracted from every decision variable. -/
def shift (p : Problem F) (x : Label → F) : F :=
  if p.nonNegative then 0 else x .offset

/-- The point that values of the variables stand for. -/
def decode (p : Problem F) (x : Label → F) : List F :=
  (List.range p.objective.variableCount).map fun i => x (.decision i) - p.shift x

/-- The left hand side less the right hand side of a row, given the coefficient
of each label. -/
def balance (p : Problem F) (coefficient x : Label → F) : F :=
  (p.layout.unknowns.map fun label => coefficient label * x label).sum - coefficient .bound

/-- Only the coefficients of labels that have a column matter. -/
theorem balance_congr {p : Problem F} {f g : Label → F}
    (h : ∀ label ∈ p.layout.labels, f label = g label) (x : Label → F) :
    p.balance f x = p.balance g x := by
  have hlabels := p.layout.labels_eq
  have hbound : Label.bound ∈ p.layout.labels := by
    rw [hlabels]
    exact List.mem_append_right _ (List.mem_singleton_self _)
  have hunknowns : (p.layout.unknowns.map fun label => f label * x label) =
      p.layout.unknowns.map fun label => g label * x label := by
    refine List.map_congr_left fun label hlabel => ?_
    rw [h label (hlabels ▸ List.mem_append_left _ (List.mem_append_right _ hlabel))]
  rw [balance, balance, hunknowns, h .bound hbound]

theorem balance_sub (p : Problem F) (f g x : Label → F) :
    p.balance (fun label => f label - g label) x = p.balance f x - p.balance g x := by
  have hsum : (p.layout.unknowns.map fun label => f label * x label).sum =
      (p.layout.unknowns.map fun label => (f label - g label) * x label).sum +
        (p.layout.unknowns.map fun label => g label * x label).sum := by
    rw [← List.sum_map_add]
    refine congrArg List.sum (List.map_congr_left fun label _ => ?_)
    rw [← add_mul, sub_add_cancel]
  rw [balance, balance, balance, hsum]
  ring

theorem balance_sum {α : Type} (p : Problem F) (rows : List α) (f : α → Label → F)
    (x : Label → F) :
    p.balance (fun label => (rows.map fun a => f a label).sum) x =
      (rows.map fun a => p.balance (f a) x).sum := by
  induction rows with
  | nil => simp [balance]
  | cons a rows ih =>
    have hsum : (p.layout.unknowns.map fun label =>
        ((a :: rows).map fun a => f a label).sum * x label).sum =
        (p.layout.unknowns.map fun label => f a label * x label).sum +
          (p.layout.unknowns.map fun label => (rows.map fun a => f a label).sum * x label).sum := by
      rw [← List.sum_map_add]
      refine congrArg List.sum (List.map_congr_left fun label _ => ?_)
      rw [List.map_cons, List.sum_cons, add_mul]
    rw [List.map_cons, List.sum_cons, ← ih, balance, hsum, balance, balance, List.map_cons,
      List.sum_cons]
    ring

/-- A row, group by group. -/
theorem balance_eq (p : Problem F) (f x : Label → F) :
    p.balance f x =
      (∑ i ∈ Finset.range p.objective.variableCount, f (.decision i) * x (.decision i)
          + f .offset * p.shift x)
        + ∑ i ∈ Finset.range p.layout.slacks, f (.slack i) * x (.slack i)
        + ∑ i ∈ Finset.range p.layout.artificials, f (.artificial i) * x (.artificial i)
        - f .bound := by
  have hoffset : ((p.layout.groupLabels .offset).map fun label => f label * x label).sum =
      f .offset * p.shift x := by
    unfold Layout.groupLabels shift layout
    cases p.nonNegative with
    | true => simp
    | false => simp
  rw [balance, Layout.unknowns, List.map_append, List.map_append, List.map_append,
    List.sum_append, List.sum_append, List.sum_append, hoffset]
  simp only [Layout.groupLabels, List.map_map]
  rfl

variable [LinearOrder F]

/-- Decision variables and offset together make up the product with the point. -/
theorem sum_decision_add_offset (p : Problem F) (x : Label → F) {coefficients : List F}
    (hlength : coefficients.length = p.objective.variableCount) :
    ∑ i ∈ Finset.range p.objective.variableCount, coefficients.getD i 0 * x (.decision i)
        + LinearForm.negatedSum coefficients * p.shift x =
      dot coefficients (p.decode x) := by
  have hshift : ∀ (cs : List F) (values : Nat → F) (o : F),
      ((List.range cs.length).map fun i => cs.getD i 0 * values i).sum + -cs.sum * o =
        dot cs ((List.range cs.length).map fun i => values i - o) := by
    intro cs
    induction cs with
    | nil =>
      intro values o
      simp
    | cons c cs ih =>
      intro values o
      rw [List.length_cons, List.range_succ_eq_map, List.map_cons, List.map_cons, List.map_map,
        List.map_map, LinearForm.dot_cons_cons, List.sum_cons, List.sum_cons]
      have htail := ih (fun i => values (i + 1)) o
      simp only [Function.comp_def, List.getD_cons_zero, List.getD_cons_succ,
        Nat.succ_eq_add_one] at htail ⊢
      rw [← htail]
      ring
  rw [LinearForm.negatedSum_eq_neg_sum, decode, ← hlength]
  exact hshift coefficients (fun i => x (.decision i)) (p.shift x)

/-! ## What the rows say -/

/-- A constraint's row: the constraint at the point, and what fills it up. -/
theorem balance_coefficient {p : Problem F} {c : PlacedConstraint F}
    (hc : c ∈ p.placedConstraints)
    (hlength : c.constraint.coefficients.length = p.objective.variableCount) (x : Label → F) :
    p.balance c.coefficient x =
      dot c.constraint.coefficients (p.decode x) + c.fill x - c.constraint.bound := by
  have hslack : ∑ i ∈ Finset.range p.layout.slacks, c.coefficient (.slack i) * x (.slack i) =
      c.constraint.relation.slackCoefficient?.getD 0 * x (.slack c.slack) := by
    rw [Finset.sum_eq_single c.slack]
    · exact congrArg (· * _) (if_pos rfl)
    · intro i _ hne
      rw [PlacedConstraint.coefficient_slack_eq_zero fun _ => hne]
      exact zero_mul _
    · intro hout
      have hnone : c.constraint.relation.hasSlack = false := by
        by_contra hhas
        exact hout (Finset.mem_range.mpr (slack_lt hc (Bool.eq_true_of_not_eq_false hhas)))
      rw [PlacedConstraint.coefficient_slack_eq_zero fun hhas => by rw [hnone] at hhas; cases hhas]
      exact zero_mul _
  have hartificial : ∑ i ∈ Finset.range p.layout.artificials,
      c.coefficient (.artificial i) * x (.artificial i) =
      if c.constraint.relation.needsArtificial then x (.artificial c.artificial) else 0 := by
    rw [Finset.sum_eq_single c.artificial]
    · unfold PlacedConstraint.coefficient
      cases c.constraint.relation.needsArtificial with
      | true => exact (congrArg (· * _) (if_pos ⟨rfl, rfl⟩)).trans (one_mul _)
      | false => exact (congrArg (· * _) (if_neg nofun)).trans (zero_mul _)
    · intro i _ hne
      rw [PlacedConstraint.coefficient_artificial_eq_zero fun _ => hne]
      exact zero_mul _
    · intro hout
      have hnone : c.constraint.relation.needsArtificial = false := by
        by_contra hneeds
        exact hout (Finset.mem_range.mpr
          (artificial_lt hc (Bool.eq_true_of_not_eq_false hneeds)))
      rw [PlacedConstraint.coefficient_artificial_eq_zero
        fun hneeds => by rw [hnone] at hneeds; cases hneeds]
      exact zero_mul _
  rw [balance_eq, hslack, hartificial, PlacedConstraint.fill,
    ← p.sum_decision_add_offset x hlength]
  show _ + c.constraint.offsetCoefficient * _ + _ + _ - c.constraint.bound = _
  rw [Constraint.offsetCoefficient]
  exact congrArg (· - _) (add_assoc _ _ _)

/-- The objective's row: how bad the point is. -/
theorem balance_objectiveCoefficient (p : Problem F) (x : Label → F) :
    p.balance p.objectiveCoefficient x = p.goal.loss (p.objective.value (p.decode x)) := by
  have hlength : p.costs.length = p.objective.variableCount := by
    unfold costs
    cases p.goal with
    | maximize => exact List.length_map _
    | minimize => rfl
  have hslack : ∑ i ∈ Finset.range p.layout.slacks,
      p.objectiveCoefficient (.slack i) * x (.slack i) = 0 :=
    Finset.sum_eq_zero fun i _ => zero_mul _
  have hartificial : ∑ i ∈ Finset.range p.layout.artificials,
      p.objectiveCoefficient (.artificial i) * x (.artificial i) = 0 :=
    Finset.sum_eq_zero fun i _ => zero_mul _
  have hpoint := p.sum_decision_add_offset x hlength
  rw [balance_eq, hslack, hartificial, add_zero, add_zero, Objective.value_eq_add_dot]
  refine (congrArg (· - _) hpoint).trans ?_
  unfold objectiveCoefficient costs Goal.loss
  cases p.goal with
  | maximize =>
    dsimp only
    rw [LinearForm.dot_map_neg]
    ring
  | minimize =>
    dsimp only
    rw [sub_neg_eq_add, add_comm]

/-- The auxiliary objective's row: the artificial variables, less the rows that
were taken off. -/
theorem balance_auxiliaryCost (p : Problem F) (x : Label → F) :
    p.balance p.auxiliaryCost x =
      ∑ i ∈ Finset.range p.layout.artificials, x (.artificial i)
        - (p.placedConstraints.map fun c =>
          if c.constraint.relation.needsArtificial then p.balance c.coefficient x else 0).sum := by
  have hcost : p.balance p.auxiliaryCost x = p.balance (fun label =>
      auxiliaryCoefficient label - (p.placedConstraints.map (·.takenOff label)).sum) x :=
    balance_congr (fun _ hlabel => auxiliaryCost_eq_sub hlabel) x
  have hauxiliary : p.balance auxiliaryCoefficient x =
      ∑ i ∈ Finset.range p.layout.artificials, x (.artificial i) := by
    have hdecision : ∑ i ∈ Finset.range p.objective.variableCount,
        (auxiliaryCoefficient (.decision i) : F) * x (.decision i) = 0 :=
      Finset.sum_eq_zero fun i _ => zero_mul _
    have hslack : ∑ i ∈ Finset.range p.layout.slacks,
        (auxiliaryCoefficient (.slack i) : F) * x (.slack i) = 0 :=
      Finset.sum_eq_zero fun i _ => zero_mul _
    have hartificial : ∑ i ∈ Finset.range p.layout.artificials,
        (auxiliaryCoefficient (.artificial i) : F) * x (.artificial i) =
        ∑ i ∈ Finset.range p.layout.artificials, x (.artificial i) :=
      Finset.sum_congr rfl fun i _ => one_mul _
    have hoffset : (auxiliaryCoefficient .offset : F) = 0 := rfl
    have hbound : (auxiliaryCoefficient .bound : F) = 0 := rfl
    rw [balance_eq, hdecision, hslack, hartificial, hoffset, hbound]
    ring
  have hrow : ∀ c ∈ p.placedConstraints, p.balance (fun label => c.takenOff label) x =
      if c.constraint.relation.needsArtificial then p.balance c.coefficient x else 0 := by
    intro c _
    unfold PlacedConstraint.takenOff
    split
    · rfl
    · simp [balance]
  rw [hcost, balance_sub, hauxiliary, balance_sum, List.map_congr_left hrow]

end Problem

/-! ## Solutions -/

/-- The solution of a tableau is the point that its basic values stand for. -/
theorem Tableau.WellShaped.solution_eq_decode [LinearOrder F] {p : Problem F} {t : Tableau F}
    (h : t.WellShaped) (hsign : t.nonNegative = p.nonNegative) :
    t.solution p.objective =
      .ok ⟨p.decode t.basicValue, p.objective.value (p.decode t.basicValue)⟩ := by
  have hshift : t.basicOffset = p.shift t.basicValue := by
    rw [basicOffset, Problem.shift, hsign]
  rw [h.solution_eq_ok, hshift]
  rfl

namespace Tableau.IsInitial

variable [LinearOrder F] {p : Problem F} {t : Tableau F}

theorem unknowns_eq (h : t.IsInitial p) : t.unknowns = p.layout.unknowns := by
  have hlabels := h.labels_eq.trans p.layout.labels_eq
  have hlength : t.width = t.objectives + p.layout.unknowns.length + 1 := by
    rw [← h.wellShaped.length_labels, hlabels, List.length_append, List.length_append,
      Layout.length_groupLabels, h.objectives_eq, List.length_singleton]
  have hcount : t.boundColumn - t.objectives = p.layout.unknowns.length := by
    rw [boundColumn, hlength]
    omega
  refine List.ext_getElem? fun k => ?_
  rw [unknowns, variableColumns, hcount, List.getElem?_map]
  rcases Nat.lt_or_ge k p.layout.unknowns.length with hlt | hge
  · have hat := h.wellShaped.getElem?_labels (j := t.objectives + k) (by omega)
    rw [hlabels, List.getElem?_append_left (by
      rw [List.length_append, Layout.length_groupLabels, h.objectives_eq]; omega),
      List.getElem?_append_right (by rw [Layout.length_groupLabels, h.objectives_eq]; omega),
      Layout.length_groupLabels, h.objectives_eq, Nat.add_sub_cancel_left] at hat
    rw [List.getElem?_range' hlt, Nat.one_mul, Option.map_some, hat, h.objectives_eq]
  · rw [List.getElem?_eq_none hge, List.getElem?_eq_none (by rw [List.length_range']; exact hge)]
    rfl

/-- A row that is given by the coefficient of each label is read as such. -/
theorem residual_eq_balance (h : t.IsInitial p) {i : Nat} {coefficient : Label → F}
    (hrow : ∀ j < t.width, t.coeff i j = coefficient (t.labelAt j)) (x : Label → F) :
    t.residual i x = p.balance coefficient x := by
  have hlhs : t.lhs i x =
      (p.layout.unknowns.map fun label => coefficient label * x label).sum := by
    rw [lhs, ← h.unknowns_eq, unknowns, List.map_map]
    refine congrArg List.sum (List.map_congr_left fun j hj => ?_)
    rw [hrow j (h.wellShaped.lt_width_of_mem hj), Function.comp_apply]
  rw [residual, hlhs, hrow _ h.wellShaped.boundColumn_lt, h.labelAt_boundColumn, Problem.balance]

theorem residual_constraint (h : t.IsInitial p) {k : Nat} {c : PlacedConstraint F}
    (hc : p.placedConstraints[k]? = some c) (x : Label → F) :
    t.residual (t.objectives + k) x = p.balance c.coefficient x :=
  h.residual_eq_balance (fun _ hj => h.coeff_constraint hc hj) x

/-- A solution balances the row of every constraint. -/
theorem solves_iff (h : t.IsInitial p) {x : Label → F} :
    t.Solves x ↔ ∀ c ∈ p.placedConstraints, p.balance c.coefficient x = 0 := by
  have hheight := h.height_eq
  constructor
  · intro hsolves c hc
    obtain ⟨k, hk⟩ := List.mem_iff_getElem?.mp hc
    have hlt := (List.getElem?_eq_some_iff.mp hk).1
    rw [← h.residual_constraint hk]
    exact hsolves.residual_eq_zero (mem_constraintRows.mpr ⟨by omega, by omega⟩)
  · intro hbalance i hi
    obtain ⟨hlow, hhigh⟩ := mem_constraintRows.mp hi
    obtain ⟨k, rfl⟩ : ∃ k, i = t.objectives + k := ⟨i - t.objectives, by omega⟩
    have hlt : k < p.placedConstraints.length := by omega
    have hk := List.getElem?_eq_getElem hlt
    refine sub_eq_zero.mp ((h.residual_constraint hk x).trans ?_)
    exact hbalance _ (List.mem_of_getElem? hk)

/-- With a solution, the point that it stands for makes the left hand side of every
constraint what is left to its slack and its artificial variable. -/
theorem dot_add_fill (h : t.IsInitial p) {x : Label → F} (hx : t.Solves x)
    {c : PlacedConstraint F} (hc : c ∈ p.placedConstraints) :
    dot c.constraint.coefficients (p.decode x) + c.fill x = c.constraint.bound := by
  have hlength := h.length_eq _ (Problem.mem_constraints_iff.mpr ⟨c, hc, rfl⟩)
  have hbalance := h.solves_iff.mp hx c hc
  rw [Problem.balance_coefficient hc hlength] at hbalance
  exact sub_eq_zero.mp hbalance

/-- The row of the objective says how bad the point is. -/
theorem residual_objectiveRow (h : t.IsInitial p) (x : Label → F) :
    t.residual t.objectiveRow x = p.goal.loss (p.objective.value (p.decode x)) := by
  rw [← Problem.balance_objectiveCoefficient]
  exact h.residual_eq_balance (fun _ hj => h.coeff_objective hj) x

/-- The auxiliary objective of a solution is the sum of its artificial variables. -/
theorem residual_auxiliary (h : t.IsInitial p) (hphase : t.phase = .feasibility) {x : Label → F}
    (hsolves : t.Solves x) :
    t.residual 0 x = ∑ i ∈ Finset.range p.layout.artificials, x (.artificial i) := by
  rw [h.residual_eq_balance (fun _ hj => h.coeff_auxiliary hphase hj),
    Problem.balance_auxiliaryCost]
  refine (congrArg (_ - ·) (List.sum_eq_zero fun term hterm => ?_)).trans (sub_zero _)
  obtain ⟨c, hc, rfl⟩ := List.mem_map.mp hterm
  rw [h.solves_iff.mp hsolves c hc, ite_self]

end Tableau.IsInitial

end PrimalSimplex
