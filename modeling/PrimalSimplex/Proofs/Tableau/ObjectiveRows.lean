/-
  `Proofs.Tableau.ObjectiveRows`: the objectives keep account of the basic solution.

  The right hand side of an objective's row is a number that pivots carry along; the
  value of the objective is computed afresh from the point that the basis stands for.
  The two agree in every tableau that is reached, because a row of an objective says
  the same of all solutions before and after a step, and of the basic solution it
  says no more than its right hand side.  In the same way the auxiliary objective is
  the sum of the artificial variables, for as long as it is there.
-/
import PrimalSimplex.Proofs.Tableau.Determined
import PrimalSimplex.Proofs.Tableau.Region

set_option autoImplicit false

namespace PrimalSimplex.Tableau

open Column (Label Layout)

variable {F : Type} [Field F] [LinearOrder F]

/-! ## Right hand sides -/

namespace IsInitial

variable {p : Problem F} {s t : Tableau F}

/-- The row of the objective holds how good the basic solution is. -/
theorem coeff_objectiveRow_boundColumn (h : s.IsInitial p) (ht : t.Canonical)
    (hrestates : s.Restates t) :
    t.coeff t.objectiveRow t.boundColumn =
      -p.goal.loss (p.objective.value (p.decode t.basicValue)) := by
  have hcovers : t.Covers t.basicValue := ht.covers_basicAssignment _
  rw [← h.residual_objectiveRow, ← hrestates.objective_eq _ hcovers ht.solves_basicValue]
  exact neg_eq_iff_eq_neg.mp (ht.residual_basicValue t.objectiveRow_lt).symm

/-- Row 0 of the first phase holds how much of the artificial variables is left. -/
theorem coeff_zero_boundColumn (h : s.IsInitial p) (ht : t.Canonical) (hrestates : s.Restates t)
    (hphase : t.phase = .feasibility) :
    t.coeff 0 t.boundColumn =
      -∑ i ∈ Finset.range p.layout.artificials, t.basicValue (.artificial i) := by
  have hcovers : t.Covers t.basicValue := ht.covers_basicAssignment _
  rw [← h.residual_eq_of_restates hrestates hphase hcovers ht.solves_basicValue]
  exact neg_eq_iff_eq_neg.mp (ht.residual_basicValue t.objectives_pos).symm

/-- In the first phase all artificial variables have a column. -/
theorem filter_isArtificial_labels (h : s.IsInitial p) (hevolves : s.Evolves t)
    (hphase : t.phase = .feasibility) :
    t.labels.filter Label.isArtificial = (List.range p.layout.artificials).map .artificial := by
  have hrewrites := (h.rewrites (hevolves.exchanges_of_feasibility hphase)).2
  rw [hrewrites.labels_eq, h.labels_eq, Layout.filter_isArtificial_labels, Layout.groupLabels]

end IsInitial

/-! ## The result -/

variable [IsStrictOrderedRing F] {p : Problem F} {s t : Tableau F} {tolerance : F}

/-- In every tableau that is reached, the row of the objective holds the value of the
solution, or its negation where it is to be minimized; and in the first phase the
auxiliary objective is what the artificial variables come to, negated. -/
theorem bound_eq_value_of_evolves (htolerance : 0 ≤ tolerance)
    (hinitial : Tableau.initial p tolerance = .ok s) (hevolves : s.Evolves t) :
    ∃ solution, t.solution p.objective = .ok solution ∧
      t.bound t.objectiveRow = .ok (match p.goal with
        | .maximize => solution.value
        | .minimize => -solution.value) ∧
      (t.phase = .feasibility → ∃ values,
        (t.labels.filter Label.isArtificial).mapM t.value = .ok values ∧
          t.auxiliaryValue = .ok (-values.sum)) := by
  obtain ⟨rfl, hisInitial⟩ := isInitial_of_initial_eq hinitial
  obtain ⟨ht, hrestates⟩ := hisInitial.canonical.evolves htolerance hevolves
  have hsign := hrestates.nonNegative_eq.trans hisInitial.nonNegative_eq
  refine ⟨_, ht.solution_eq_decode hsign, ?_, fun hphase => ?_⟩
  · have hheight := ht.height_eq
    have hlast := t.objectiveRow_lt
    rw [ht.bound_eq_ok (by omega), hisInitial.coeff_objectiveRow_boundColumn ht hrestates]
    cases p.goal with
    | maximize => exact congrArg Except.ok (neg_neg _)
    | minimize => rfl
  · refine ⟨_, Fault.mapM_eq_ok fun label _ => ht.value_eq_ok label, ?_⟩
    rw [auxiliaryValue, ht.bound_eq_ok ht.height_pos,
      hisInitial.coeff_zero_boundColumn ht hrestates hphase,
      hisInitial.filter_isArtificial_labels hevolves hphase, List.map_map]
    rfl

/-- A cost with a constant, in variables that may be negative. -/
def shiftedCostProblem : Problem ℚ where
  objective := ⟨[3, -1], 5⟩
  constraints := [⟨[1, 1], .atLeast, 1⟩, ⟨[1, -1], .equal, 2⟩]
  goal := .minimize
  nonNegative := false

/-- After one exchange the cost is four, and three are left of the second
artificial variable. -/
theorem bound_eq_value_shiftedCostProblem :
    ∃ s t, Tableau.initial shiftedCostProblem (1 / 2) = .ok s ∧ s.Evolves t ∧
      t.bound t.objectiveRow = .ok (-4) ∧ t.auxiliaryValue = .ok (-(0 + 3)) := by
  have hruns : ((Tableau.initial shiftedCostProblem (1 / 2)).toOption.bind fun s =>
      (s.follow? [.exchange 2 3]).map fun t =>
        (decide (t.phase = .feasibility),
          (t.solution shiftedCostProblem.objective).toOption.map Solution.value,
          (t.labels.filter Label.isArtificial).mapM t.value)) =
      some (true, some 4, .ok [0, 3]) := by
    decide +kernel
  obtain ⟨s, hinitial, hruns⟩ := Option.bind_eq_some_iff.mp hruns
  obtain ⟨t, hfollow, hruns⟩ := Option.map_eq_some_iff.mp hruns
  obtain ⟨hphase, hruns⟩ := Prod.mk.inj hruns
  obtain ⟨hvalue, hartificial⟩ := Prod.mk.inj hruns
  obtain ⟨solution, hsolution, hfour⟩ := Option.map_eq_some_iff.mp hvalue
  have hinitial := Fault.eq_ok_of_toOption_eq_some hinitial
  have hevolves : s.Evolves t := evolves_iff_exists_follow?.mpr ⟨_, hfollow⟩
  obtain ⟨solution', hsolution', hbound, hauxiliary⟩ :=
    bound_eq_value_of_evolves (by decide +kernel) hinitial hevolves
  obtain ⟨values, hvalues, hsum⟩ := hauxiliary (of_decide_eq_true hphase)
  obtain rfl := Except.ok.inj
    (hsolution'.symm.trans (Fault.eq_ok_of_toOption_eq_some hsolution))
  obtain rfl := Except.ok.inj (hvalues.symm.trans hartificial)
  rw [hfour] at hbound
  rw [List.sum_cons, List.sum_singleton] at hsum
  exact ⟨s, t, hinitial, hevolves, hbound, hsum⟩

end PrimalSimplex.Tableau
