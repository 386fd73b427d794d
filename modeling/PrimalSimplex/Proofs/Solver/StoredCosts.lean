/-
  `Proofs.Solver.StoredCosts`: all that a run takes from an objective.

  An objective enters the tableau with its direction, its coefficients and its
  constant.  The costs in the row of the objective are all that a choice looks at;
  the column of the objective and the value in that row are carried along and never
  read.  So a maximum is found on the same way as the minimum of the negated
  objective, and a constant shifts the value and changes nothing else.
-/
import PrimalSimplex.Proofs.Solver.Rephrasing

set_option autoImplicit false

namespace PrimalSimplex

open Column (Label)

/-- Tableaus with the same constraints and costs: all is shared but the column of the
objective and its value. -/
def Likeness.ofCosts : Likeness where
  rename := Equiv.refl Label
  isArtificial_rename := isArtificial_refl
  Signs := (· = ·)
  Shares objectives last i j :=
    (j + 1 ≠ objectives ∨ j = last) ∧ (j = last → i + 1 ≠ objectives)
  shares_cost hlow hhigh :=
    ⟨.inl (Nat.ne_of_gt (Nat.lt_succ_of_le hlow)), fun hlast => absurd hlast (Nat.ne_of_lt hhigh)⟩
  shares_bound hrow := ⟨.inr rfl, fun _ => Nat.ne_of_gt (Nat.lt_succ_of_le hrow)⟩
  shares_auxiliary := ⟨.inr rfl, fun _ => nofun⟩
  shares_row hrow hshares := ⟨hshares.1, fun _ => Nat.ne_of_gt (Nat.lt_succ_of_le hrow)⟩
  shares_column hlow hhigh _ :=
    ⟨.inl (Nat.ne_of_gt (Nat.lt_succ_of_le hlow)), fun hlast => absurd hlast (Nat.ne_of_lt hhigh)⟩

theorem Likeness.crosses_ofCosts : Likeness.ofCosts.Crosses := by
  rintro last last' i j j' hobjective hbound ⟨hcolumn, hvalue⟩
  have htwo : Phase.feasibility.objectives = 2 := rfl
  have hone : Phase.optimality.objectives = 1 := rfl
  refine ⟨?_, fun hlast => ?_⟩
  · rcases hcolumn with hcolumn | hlast
    · exact .inl (by omega)
    · exact .inr (hbound.mp hlast)
  · have := hvalue (hbound.mpr hlast)
    omega

/-! ## Problems with the same costs -/

variable {F : Type} [Field F] [LinearOrder F] {p q : Problem F}

/-- Where the costs are the same, the row of the objective differs at most in the
column of the objective and in its value. -/
theorem Problem.objectiveCoefficient_eq (hcosts : q.costs = p.costs) {label : Label}
    (hobjective : label ≠ .objective) (hbound : label ≠ .bound) :
    q.objectiveCoefficient label = p.objectiveCoefficient label := by
  cases label with
  | objective => exact absurd rfl hobjective
  | bound => exact absurd rfl hbound
  | decision i => exact congrArg (List.getD · i 0) hcosts
  | offset => exact congrArg LinearForm.negatedSum hcosts
  | auxiliary => rfl
  | slack i => rfl
  | artificial i => rfl

/-- The point of a tableau does not depend on what `ofCosts` leaves out. -/
theorem Tableau.Resembles.point_eq {t u : Tableau F} {o o' : Objective F} {a b : Solution F}
    (h : t.Resembles .ofCosts u) (hcount : o'.variableCount = o.variableCount)
    (ha : t.solution o = .ok a) (hb : u.solution o' = .ok b) :
    b.point = a.point ∧ a.value = o.value a.point ∧ b.value = o'.value a.point := by
  have hvalues : u.basicValue = t.basicValue := funext h.basicValue_rename
  have hsigns : t.nonNegative = u.nonNegative := h.signs
  obtain rfl := Except.ok.inj ((h.wellShaped.solution_eq_ok o).symm.trans ha)
  obtain rfl := Except.ok.inj ((h.wellShaped_right.solution_eq_ok o').symm.trans hb)
  have hpoint : ((List.range o'.variableCount).map fun i =>
      u.basicValue (.decision i) - u.basicOffset) =
      (List.range o.variableCount).map fun i => t.basicValue (.decision i) - t.basicOffset := by
    unfold basicOffset
    rw [hcount, hvalues, hsigns]
  exact ⟨hpoint, rfl, congrArg o'.value hpoint⟩

/-- Problems with the same constraints and costs are answered with the same point. -/
theorem Problem.exists_optimize_of_costs_eq (hconstraints : q.constraints = p.constraints)
    (hsign : q.nonNegative = p.nonNegative) (hcosts : q.costs = p.costs) (s : Solver F) :
    ∃ report report' s', s.optimize p = .ok (report, s') ∧ s.optimize q = .ok (report', s') ∧
      SameOutcome (fun a b => b.point = a.point ∧ a.value = p.objective.value a.point ∧
        b.value = q.objective.value a.point) report.result report'.result := by
  have hcount : q.objective.variableCount = p.objective.variableCount := by
    rw [← length_costs, ← length_costs, hcosts]
  have hstandard : q.standardize.constraints = p.standardize.constraints :=
    congrArg (List.map Constraint.standardize) hconstraints
  have hrephrases : p.standardize.Rephrases .ofCosts q.standardize := by
    refine rephrases_of_constraints_eq hstandard hcount hsign (fun _ => rfl) rfl ?_
    rintro j label hlabel ⟨hcolumn, hvalue⟩
    have hplace : ∀ {k : Nat}, p.standardize.layout.labels[k]? = some label → j = k := fun hk =>
      (List.getElem?_inj (List.getElem?_eq_some_iff.mp hlabel).1
        p.standardize.layout.nodup_labels).mp (hlabel.trans hk.symm)
    have hbounds := p.standardize.layout.start_bounds .decision (by decide) (by decide)
    have hpos := p.standardize.layout.size_objective_pos
    refine objectiveCoefficient_eq (p := p.standardize) (q := q.standardize) hcosts ?_ ?_
    · rintro rfl
      have := hplace p.standardize.layout.getElem?_objective
      omega
    · rintro rfl
      have := hplace p.standardize.layout.getElem?_bound
      omega
  exact hrephrases.exists_optimize Likeness.crosses_ofCosts s
    (defects_eq hconstraints hcount hsign _) fun h ha hb => h.point_eq hcount ha hb

/-! ## Objectives -/

namespace Solver

/-- The direction of an objective and its constant have no influence on a run: to
maximize an objective is to minimize the negated one, whatever the constants are, and
a constant is added to the value.  Unless the problem is not well-formed or the tolerance
is negative, none of them is rejected. -/
theorem optimize_of_constant (s : Solver F) (coefficients : List F) (constant constant' : F)
    (constraints : List (Constraint F)) (nonNegative : Bool) :
    (∃ report report' s',
      s.optimize ⟨⟨coefficients, constant⟩, constraints, .maximize, nonNegative⟩ =
        .ok (report, s') ∧
      s.optimize ⟨⟨coefficients.map fun c => -c, constant'⟩, constraints, .minimize,
        nonNegative⟩ = .ok (report', s') ∧
      SameOutcome (fun a b => b.point = a.point ∧ a.value - constant = -(b.value - constant'))
        report.result report'.result) ∧
    (∀ goal, ∃ report report' s',
      s.optimize ⟨⟨coefficients, constant⟩, constraints, goal, nonNegative⟩ = .ok (report, s') ∧
      s.optimize ⟨⟨coefficients, constant'⟩, constraints, goal, nonNegative⟩ =
        .ok (report', s') ∧
      SameOutcome (fun a b => b.point = a.point ∧ a.value - b.value = constant - constant')
        report.result report'.result) ∧
    ∀ goal, (⟨⟨coefficients, constant⟩, constraints, goal, nonNegative⟩ : Problem F).WellFormed →
      0 ≤ s.settings.tolerance → ∀ report s',
        s.optimize ⟨⟨coefficients, constant⟩, constraints, goal, nonNegative⟩ = .ok (report, s') →
          ∀ m, report.result ≠ .error (.malformedInput m) := by
  refine ⟨?_, fun goal => ?_, fun goal hwell htolerance report s' hanswer =>
    result_ne_malformedInput htolerance hwell hanswer⟩
  · obtain ⟨report, report', s', hanswer, hanswer', houtcome⟩ :=
      Problem.exists_optimize_of_costs_eq
        (p := ⟨⟨coefficients, constant⟩, constraints, .maximize, nonNegative⟩)
        (q := ⟨⟨coefficients.map fun c => -c, constant'⟩, constraints, .minimize, nonNegative⟩)
        rfl rfl rfl s
    refine ⟨report, report', s', hanswer, hanswer', houtcome.imp ?_⟩
    rintro a b ⟨hpoint, ha, hb⟩
    rw [Objective.value_eq_add_dot] at ha hb
    rw [LinearForm.dot_map_neg] at hb
    refine ⟨hpoint, ?_⟩
    rw [ha, hb]
    ring
  · obtain ⟨report, report', s', hanswer, hanswer', houtcome⟩ :=
      Problem.exists_optimize_of_costs_eq
        (p := ⟨⟨coefficients, constant⟩, constraints, goal, nonNegative⟩)
        (q := ⟨⟨coefficients, constant'⟩, constraints, goal, nonNegative⟩) rfl rfl
        (by cases goal <;> rfl) s
    refine ⟨report, report', s', hanswer, hanswer', houtcome.imp ?_⟩
    rintro a b ⟨hpoint, ha, hb⟩
    rw [Objective.value_eq_add_dot] at ha hb
    refine ⟨hpoint, ?_⟩
    rw [ha, hb]
    ring

/-- To maximize `3 x + 2 y + 1` is to minimize `-3 x - 2 y + 5`, with another value. -/
theorem optimize_of_constant_mixedProblem :
    ∃ report report' s', (create ⟨0, 10⟩ .steepest).optimize mixedProblem = .ok (report, s') ∧
      (create ⟨0, 10⟩ .steepest).optimize
        ⟨⟨[-3, -2], 5⟩, mixedProblem.constraints, .minimize, false⟩ = .ok (report', s') ∧
      report.result = .ok ⟨[1, 3], 10⟩ ∧ report'.result = .ok ⟨[1, 3], -4⟩ ∧
      ∀ m, report.result ≠ .error (.malformedInput m) := by
  obtain ⟨⟨report, report', s', hanswer, hanswer', houtcome⟩, -, hsound⟩ :=
    optimize_of_constant (create ⟨0, 10⟩ .steepest) [3, 2] 1 5 mixedProblem.constraints false
  have hresult : report.result = .ok ⟨[1, 3], 10⟩ :=
    result_eq_of_answer?_eq hanswer answer?_mixedProblem
  refine ⟨report, report', s', hanswer, hanswer', hresult, ?_,
    hsound .maximize ⟨by decide, by decide⟩ (le_refl 0) report s' hanswer⟩
  rw [hresult] at houtcome
  generalize report'.result = result' at houtcome
  cases houtcome with
  | @solved _ b h =>
    obtain ⟨hpoint, hvalue⟩ := h
    exact congrArg Except.ok (congrArg₂ Solution.mk hpoint (by linarith))

end Solver

end PrimalSimplex
