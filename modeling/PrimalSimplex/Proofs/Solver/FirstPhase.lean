/-
  `Proofs.Solver.FirstPhase`: a first phase knows nothing of the objective.

  The row of the objective is pivoted with all others during the first phase, and
  nothing is read from it.  So two problems with the same constraints go through the
  same first phase: the same exchanges, the same bases, the same entries everywhere
  but in that row, and the same columns to be dropped at the end.  Whether a problem
  has a feasible point is therefore answered without regard to what is asked for.
-/
import PrimalSimplex.Proofs.Solver.Iterations
import PrimalSimplex.Proofs.Solver.Outcome
import PrimalSimplex.Proofs.Solver.Rephrasing

set_option autoImplicit false

namespace PrimalSimplex

open Column (Label)

/-- Tableaus with the same constraints: in the first phase, all is shared but the row of
the objective. -/
def Likeness.ofConstraints : Likeness where
  rename := Equiv.refl Label
  isArtificial_rename := isArtificial_refl
  Signs := (· = ·)
  Shares objectives _ i _ := objectives = Phase.feasibility.objectives → i + 1 ≠ objectives
  shares_cost _ _ hobjectives := hobjectives ▸ nofun
  shares_bound hrow _ := Nat.ne_of_gt (Nat.lt_succ_of_le hrow)
  shares_auxiliary _ := nofun
  shares_row hrow _ _ := Nat.ne_of_gt (Nat.lt_succ_of_le hrow)
  shares_column _ _ hshares := hshares

variable {F : Type} [Scalar F]

/-! ## Tableaus -/

/-- The tableaus differ in the row of the objective only. -/
structure Tableau.SameButObjective (t u : Tableau F) : Prop where
  frame : u = { t with matrix := u.matrix }
  height_eq : u.height = t.height
  width_eq : u.width = t.width
  entry_eq : ∀ i < t.height, i ≠ t.objectiveRow → ∀ j < t.width, u.entry i j = t.entry i j

namespace Tableau.Resembles

variable {t u : Tableau F}

theorem sameButObjective (h : t.Resembles .ofConstraints u) : t.SameButObjective u where
  frame := by
    have hlabels : t.labels.map Likeness.ofConstraints.rename = t.labels := List.map_id _
    have hsigns : t.nonNegative = u.nonNegative := h.signs
    rw [h.frame, hlabels, ← hsigns]
  height_eq := h.height_eq
  width_eq := h.width_eq
  entry_eq i hi hrow j hj := by
    have hobjective : t.objectiveRow = t.objectives - 1 := rfl
    rw [entry_eq_ok hi hj, entry_eq_ok (h.height_eq.symm ▸ hi) (h.width_eq.symm ▸ hj),
      h.coeff_eq i hi j hj fun _ => by omega]

/-- The same columns are dropped. -/
theorem surplusColumns_eq {l : Likeness} (h : t.Resembles l u) :
    u.surplusColumns = t.surplusColumns := by
  rw [h.wellShaped.surplusColumns_eq_ok, h.wellShaped_right.surplusColumns_eq_ok, h.surplus_eq]

/-- What is left of the frame is the same. -/
theorem exists_reduce_of_feasibility (h : t.Resembles .ofConstraints u)
    (hphase : t.phase = .feasibility) :
    ∃ r r', t.reduce = .ok r ∧ u.reduce = .ok r' ∧ r'.removed = r.removed ∧
      r'.tableau.labels = r.tableau.labels ∧ r'.tableau.basis = r.tableau.basis := by
  obtain ⟨t', ht', hreduction⟩ := h.wellShaped.reduce_spec hphase
  obtain ⟨u', hu', hreduction'⟩ := h.wellShaped_right.reduce_spec (h.phase_eq.trans hphase)
  have hlabels : u.labels = t.labels := h.labels_eq.trans (List.map_id _)
  refine ⟨_, _, ht', hu', h.map_labelAt_surplus.trans (List.map_id _), ?_, ?_⟩
  · rw [hreduction.labels_eq, hreduction'.labels_eq, h.surplus_eq, hlabels]
  · rw [hreduction.basis_eq, hreduction'.basis_eq, h.renumber_eq, h.basis_eq]

end Tableau.Resembles

/-! ## Runs -/

/-- Two first phases that differ in the row of the objective only. -/
structure Stage.SameButObjective (stage stage' : Stage F) : Prop where
  failure?_eq : stage'.failure? = stage.failure?
  iterations_eq : stage'.progress.iterations = stage.progress.iterations
  tableau : stage.progress.tableau.SameButObjective stage'.progress.tableau
  exchanges_eq : stage'.progress.journal.filter Event.isExchange =
    stage.progress.journal.filter Event.isExchange
  visited : List.Forall₂ Tableau.SameButObjective (visited stage.progress.journal)
    (visited stage'.progress.journal)
  surplusColumns_eq :
    stage'.progress.tableau.surplusColumns = stage.progress.tableau.surplusColumns
  reduce : ∃ r r', stage.progress.tableau.reduce = .ok r ∧
    stage'.progress.tableau.reduce = .ok r' ∧ r'.removed = r.removed ∧
    r'.tableau.labels = r.tableau.labels ∧ r'.tableau.basis = r.tableau.basis

/-- Journals that differ in tableaus only tell of the same exchanges. -/
theorem filter_isExchange_eq {journal journal' : List (Event F)}
    (h : List.Forall₂ (Event.Resembles .ofConstraints) journal journal') :
    journal'.filter Event.isExchange = journal.filter Event.isExchange := by
  induction h with
  | nil => rfl
  | cons he _ ih =>
    cases he with
    | exchanged iteration entering row leaving =>
      exact congrArg (.exchanged iteration entering row leaving :: ·) ih
    | started _ => exact ih
    | reached _ => exact ih
    | optimalityStarted _ => exact ih
    | feasibilityStarted _ => exact ih
    | feasibilityDone _ => exact ih
    | infeasible _ => exact ih
    | removed _ => exact ih
    | optimalityDone _ => exact ih

theorem Stage.Resembles.sameButObjective {stage stage' : Stage F}
    (h : stage.Resembles .ofConstraints stage')
    (hphase : stage.progress.tableau.phase = .feasibility) : stage.SameButObjective stage' where
  failure?_eq := h.failure?_eq
  iterations_eq := h.progress.iterations_eq
  tableau := h.progress.tableau.sameButObjective
  exchanges_eq := filter_isExchange_eq h.progress.journal
  visited := (forall₂_visited h.progress.journal).imp fun _ _ h => h.sameButObjective
  surplusColumns_eq := h.progress.tableau.surplusColumns_eq
  reduce := h.progress.tableau.exists_reduce_of_feasibility hphase

section Failures

variable {rule : EnteringRule} {limit : Nat} {p : Progress F} {stage : Stage F}

/-- The second phase never finds that there is no feasible point. -/
theorem failure?_ne_infeasible_of_runOptimality_eq (hshape : p.tableau.WellShaped)
    (h : runOptimality rule limit p = .ok stage) : stage.failure? ≠ some .infeasible := by
  obtain ⟨ended, hended, hrun⟩ := runOptimality_spec rule limit hshape
  obtain rfl := Except.ok.inj (hended.symm.trans h)
  cases hrun with
  | reached _ => exact nofun
  | stopped hpivoting =>
    intro hinfeasible
    obtain rfl := Option.some.inj hinfeasible
    exact hpivoting.settled

/-- So it is the first phase that does. -/
theorem runFeasibility_eq_of_infeasible (hshape : p.tableau.WellShaped)
    (h : runPhases rule limit p = .ok stage) (hinfeasible : stage.failure? = some .infeasible) :
    p.tableau.phase = .feasibility ∧ runFeasibility rule limit p = .ok stage := by
  cases hphase : p.tableau.phase with
  | optimality =>
    rw [runPhases, hphase] at h
    exact absurd hinfeasible (failure?_ne_infeasible_of_runOptimality_eq hshape h)
  | feasibility =>
    refine ⟨rfl, ?_⟩
    obtain ⟨⟨failure?, q⟩, hfirst, hrun⟩ := runFeasibility_spec rule limit hshape
    rw [runPhases_eq_of_feasibility hphase, hfirst] at h
    cases failure? with
    | some f =>
      obtain rfl := Except.ok.inj h
      exact hfirst
    | none =>
      change q.leaveFeasibility >>= runOptimality rule limit = .ok stage at h
      obtain ⟨next, hleave, hrest⟩ := Fault.bind_eq_ok_iff.mp h
      obtain ⟨hend, hreduction⟩ := hrun.isReduction hshape hphase hleave
      exact absurd hinfeasible
        (failure?_ne_infeasible_of_runOptimality_eq (hreduction.wellShaped hend) hrest)

theorem runPhases_eq_of_failure {f : Failure (Malformation F)}
    (hphase : p.tableau.phase = .feasibility) (h : runFeasibility rule limit p = .ok stage)
    (hfailure : stage.failure? = some f) : runPhases rule limit p = .ok stage := by
  rw [runPhases_eq_of_feasibility hphase, h]
  refine Fault.bind_eq_ok_iff.mpr ⟨stage, rfl, ?_⟩
  rw [Stage.andThen, hfailure]
  rfl

end Failures

/-! ## Problems -/

section Exact

variable {F : Type} [Field F] [LinearOrder F] {s : Solver F} {p q : Problem F} {t u : Tableau F}

/-- The state of a run before its first iteration. -/
def Problem.startFrom (p : Problem F) (t : Tableau F) : Progress F :=
  .start t (.started p.goal p.objective.variableCount p.constraints.length t)

theorem Problem.result_eq_error_iff {stage : Stage F} {r : Report F} (h : p.answer stage = .ok r)
    {f : Failure (Malformation F)} : r.result = .error f ↔ stage.failure? = some f := by
  obtain ⟨failure?, reached⟩ := stage
  cases failure? with
  | some g =>
    obtain rfl := Except.ok.inj h
    constructor
    · intro h
      exact congrArg some (Except.error.inj h)
    · intro h
      exact congrArg Except.error (Option.some.inj h)
  | none =>
    obtain ⟨solution, _, h⟩ := Fault.bind_eq_ok_iff.mp h
    obtain rfl := Except.ok.inj h
    exact ⟨nofun, nofun⟩

/-- A solver fails exactly when the run does. -/
theorem Solver.answer?_eq_some_error_iff (hdefects : p.defects s.settings.tolerance = [])
    (ht : Tableau.initial p.standardize s.settings.tolerance = .ok t)
    {f : Failure (Malformation F)} :
    s.answer? p = some (.error f) ↔ ∃ stage,
      runPhases s.rule s.settings.maxIterations (p.startFrom t) = .ok stage ∧
        stage.failure? = some f := by
  have hsolve : p.solve s.settings s.rule =
      runPhases s.rule s.settings.maxIterations (p.startFrom t) >>= p.answer := by
    unfold Problem.solve
    rw [hdefects, ht]
    exact if_pos t.isFinite_eq_true
  constructor
  · intro h
    obtain ⟨report, s', hanswer, hresult⟩ := exists_of_answer?_eq_some h
    obtain ⟨r, hr, hreturn⟩ := Fault.bind_eq_ok_iff.mp hanswer
    obtain ⟨rfl, _⟩ := Prod.mk.inj (Except.ok.inj hreturn)
    obtain ⟨stage, hstage, hreport⟩ := Fault.bind_eq_ok_iff.mp (hsolve.symm.trans hr)
    exact ⟨stage, hstage, (Problem.result_eq_error_iff hreport).mp hresult⟩
  · rintro ⟨⟨failure?, reached⟩, hstage, rfl⟩
    unfold answer? optimize
    rw [hsolve, hstage]
    rfl

/-- Problems with the same constraints have first phases that keep step. -/
theorem Problem.exists_initial_of_feasibility (hconstraints : q.constraints = p.constraints)
    (hcount : q.objective.variableCount = p.objective.variableCount)
    (hsign : q.nonNegative = p.nonNegative) {tolerance : F}
    (ht : Tableau.initial p.standardize tolerance = .ok t) (hphase : t.phase = .feasibility) :
    ∃ u, Tableau.initial q.standardize tolerance = .ok u ∧ t.Resembles .ofConstraints u := by
  have hstandard : q.standardize.constraints = p.standardize.constraints :=
    congrArg (List.map Constraint.standardize) hconstraints
  obtain ⟨_, hinitial⟩ := Tableau.isInitial_of_initial_eq ht
  obtain ⟨u, hu⟩ := Tableau.exists_initial (p := q.standardize) tolerance fun c hc =>
    (hinitial.length_eq c (hstandard ▸ hc)).trans hcount.symm
  refine ⟨u, hu, Rephrases.resembles ?_ ht hu⟩
  refine rephrases_of_constraints_eq hstandard hcount hsign (fun _ => rfl) rfl ?_
  -- There is a row of the auxiliary objective above that of the objective.
  intro j label _ hshares
  have htwo : p.standardize.layout.size .objective = Phase.feasibility.objectives := by
    rw [← hinitial.objectives_eq]
    exact congrArg Phase.objectives hphase
  rw [htwo] at hshares
  exact absurd rfl (hshares rfl)

theorem Problem.exists_runFeasibility (rule : EnteringRule) (limit : Nat)
    (h : t.Resembles .ofConstraints u) (hphase : t.phase = .feasibility) :
    ∃ stage stage', runFeasibility rule limit (p.startFrom t) = .ok stage ∧
      runFeasibility rule limit (q.startFrom u) = .ok stage' ∧ stage.SameButObjective stage' := by
  obtain ⟨stage, stage', hstage, hstage', hend⟩ := keepsStep_runFeasibility rule limit
    (p := p.startFrom t) (q := q.startFrom u) ⟨h, rfl, .cons (.started h) .nil⟩ hphase
  obtain ⟨ended, hended, hrun⟩ := runFeasibility_spec rule limit (p := p.startFrom t) h.wellShaped
  obtain rfl := Except.ok.inj (hstage.symm.trans hended)
  exact ⟨stage, stage', hstage, hstage',
    hend.sameButObjective ((hrun.wellShaped h.wellShaped).2.trans hphase)⟩

namespace Solver

theorem answer?_eq_infeasible (hconstraints : q.constraints = p.constraints)
    (hcount : q.objective.variableCount = p.objective.variableCount)
    (hsign : q.nonNegative = p.nonNegative) (h : s.answer? p = some (.error .infeasible)) :
    s.answer? q = some (.error .infeasible) := by
  have hdefects := Problem.defects_eq hconstraints hcount hsign s.settings.tolerance
  cases hp : p.defects s.settings.tolerance with
  | cons m rest =>
    unfold answer? optimize Problem.solve at h
    rw [hp] at h
    cases h
  | nil =>
    obtain ⟨t, ht⟩ := Problem.exists_initial_of_defects_eq_nil hp
    obtain ⟨stage, hphases, hinfeasible⟩ := (answer?_eq_some_error_iff hp ht).mp h
    have hshape := (Tableau.isInitial_of_initial_eq ht).2.wellShaped
    obtain ⟨hphase, hstage⟩ := runFeasibility_eq_of_infeasible hshape hphases hinfeasible
    obtain ⟨u, hu, hresembles⟩ :=
      Problem.exists_initial_of_feasibility hconstraints hcount hsign ht hphase
    obtain ⟨ended, stage', hended, hstage', hsame⟩ :=
      Problem.exists_runFeasibility (p := p) (q := q) s.rule s.settings.maxIterations
        hresembles hphase
    obtain rfl := Except.ok.inj (hstage.symm.trans hended)
    have hinfeasible' := hsame.failure?_eq.trans hinfeasible
    refine (answer?_eq_some_error_iff (hdefects.trans hp) hu).mpr ⟨stage', ?_, hinfeasible'⟩
    exact runPhases_eq_of_failure (hresembles.phase_eq.trans hphase) hstage' hinfeasible'

/-- The first phase is the same for all objectives with as many variables. -/
theorem feasibility_of_objective (s : Solver F) (p : Problem F) (objective : Objective F)
    (goal : Goal) (hcount : objective.variableCount = p.objective.variableCount) :
    let q : Problem F := { p with objective := objective, goal := goal }
    (∀ t, Tableau.initial p.standardize s.settings.tolerance = .ok t → t.phase = .feasibility →
      ∃ u, Tableau.initial q.standardize s.settings.tolerance = .ok u ∧ t.SameButObjective u ∧
        ∃ stage stage', runFeasibility s.rule s.settings.maxIterations (p.startFrom t) = .ok stage ∧
          runFeasibility s.rule s.settings.maxIterations (q.startFrom u) = .ok stage' ∧
          stage.SameButObjective stage') ∧
      (s.answer? q = some (.error .infeasible) ↔ s.answer? p = some (.error .infeasible)) := by
  intro q
  refine ⟨fun t ht hphase => ?_, ?_, ?_⟩
  · obtain ⟨u, hu, hresembles⟩ :=
      Problem.exists_initial_of_feasibility (p := p) (q := q) rfl hcount rfl ht hphase
    exact ⟨u, hu, hresembles.sameButObjective,
      Problem.exists_runFeasibility s.rule s.settings.maxIterations hresembles hphase⟩
  · exact answer?_eq_infeasible rfl hcount.symm rfl
  · exact answer?_eq_infeasible rfl hcount rfl

theorem feasibility_of_objective_contradictoryProblem :
    let other : Problem ℚ :=
      { contradictoryProblem with objective := ⟨[3, -1], 5⟩, goal := .maximize }
    (∃ t u, Tableau.initial contradictoryProblem.standardize 0 = .ok t ∧
      Tableau.initial other.standardize 0 = .ok u ∧ t.phase = .feasibility ∧
      t.SameButObjective u ∧ ∃ stage stage',
        runFeasibility .first 10 (contradictoryProblem.startFrom t) = .ok stage ∧
        runFeasibility .first 10 (other.startFrom u) = .ok stage' ∧
        stage.SameButObjective stage') ∧
      (create ⟨0, 10⟩ .first).answer? other = some (.error .infeasible) := by
  intro other
  obtain ⟨hphases, hinfeasible⟩ := feasibility_of_objective (create ⟨0, 10⟩ .first)
    contradictoryProblem ⟨[3, -1], 5⟩ .maximize rfl
  obtain ⟨t, ht⟩ :=
    Tableau.exists_initial (p := contradictoryProblem.standardize) 0 (by decide +kernel)
  have hphase := (Tableau.isInitial_of_initial_eq ht).2.phase_eq_feasibility_iff.mpr
    (by decide +kernel)
  obtain ⟨u, hu, hsame, hruns⟩ := hphases t ht hphase
  exact ⟨⟨t, u, ht, hu, hphase, hsame, hruns⟩, hinfeasible.mpr (by decide +kernel)⟩

end Solver

end Exact

end PrimalSimplex
