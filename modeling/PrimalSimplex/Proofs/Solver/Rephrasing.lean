/-
  `Proofs.Solver.Rephrasing`: a problem in other words.

  Over exact numbers, the initial tableaus of two problems are alike as soon as the
  problems call for the same columns and their constraints have the same
  coefficients under other names; of the objective only that has to agree which a
  likeness shares.  Then the runs of the two problems keep step, and what is
  answered differs in nothing but the solutions, which the likeness still has to
  relate.
-/
import PrimalSimplex.Proofs.Solver.InOrder
import PrimalSimplex.Proofs.Solver.Lockstep
import PrimalSimplex.Proofs.Solver.Malformed

set_option autoImplicit false

namespace PrimalSimplex

open Column (Label Layout)

variable {F : Type}

/-! ## Answers -/

/-- Two answers of the same kind: solutions that are related, or the same failure. -/
inductive SameOutcome (related : Solution F → Solution F → Prop) :
    Except (Failure (Malformation F)) (Solution F) →
      Except (Failure (Malformation F)) (Solution F) → Prop
  | solved {a b : Solution F} (h : related a b) : SameOutcome related (.ok a) (.ok b)
  | failed (f : Failure (Malformation F)) : SameOutcome related (.error f) (.error f)

theorem SameOutcome.imp {related related' : Solution F → Solution F → Prop}
    (himp : ∀ a b, related a b → related' a b)
    {answer answer' : Except (Failure (Malformation F)) (Solution F)}
    (h : SameOutcome related answer answer') : SameOutcome related' answer answer' := by
  cases h with
  | solved h => exact .solved (himp _ _ h)
  | failed f => exact .failed f

/-- Two reports of runs that took equally many iterations to answers of the same
kind. -/
structure Report.Matches (related : Solution F → Solution F → Prop) (r r' : Report F) : Prop where
  outcome : SameOutcome related r.result r'.result
  iterations_eq : r'.iterations = r.iterations

/-! ## Problems -/

section Problems

variable [Scalar F]

/-- The second constraint has the coefficients of the first one under other names, and
the same slack and artificial variables. -/
structure PlacedConstraint.Rephrases (l : Likeness) (labels : List Label)
    (c d : PlacedConstraint F) : Prop where
  slack_eq : d.slack = c.slack
  artificial_eq : d.artificial = c.artificial
  relation_eq : d.constraint.relation = c.constraint.relation
  coefficient_rename : ∀ label ∈ labels, d.coefficient (l.rename label) = c.coefficient label

/-- The second problem is the first one in other words. -/
structure Problem.Rephrases (l : Likeness) (p q : Problem F) : Prop where
  labels_eq : q.layout.labels = p.layout.labels.map l.rename
  decisions_eq : q.layout.size .decision + q.layout.size .offset =
    p.layout.size .decision + p.layout.size .offset
  slacks_eq : q.layout.slacks = p.layout.slacks
  artificials_eq : q.layout.artificials = p.layout.artificials
  signs : l.Signs p.nonNegative q.nonNegative
  constraints : List.Forall₂ (PlacedConstraint.Rephrases l p.layout.labels) p.placedConstraints
    q.placedConstraints
  auxiliaryCoefficient_rename : ∀ label ∈ p.layout.labels,
    auxiliaryCoefficient (l.rename label) = (auxiliaryCoefficient label : F)
  /-- The coefficients of the objective, where the entries of its row are shared. -/
  objectiveCoefficient_rename : ∀ {j : Nat} {label : Label}, p.layout.labels[j]? = some label →
    l.Shares (p.layout.size .objective) (p.layout.width - 1) (p.layout.size .objective - 1) j →
    q.objectiveCoefficient (l.rename label) = p.objectiveCoefficient label

namespace Problem.Rephrases

variable {l : Likeness} {p q : Problem F}

theorem size_objective_eq (h : p.Rephrases l q) :
    q.layout.size .objective = p.layout.size .objective := by
  unfold Layout.size
  rw [h.artificials_eq]

theorem width_eq (h : p.Rephrases l q) : q.layout.width = p.layout.width := by
  rw [← Layout.length_labels, h.labels_eq, List.length_map, Layout.length_labels]

/-- What is computed from placed constraints alike is the same. -/
theorem map_placedConstraints {α : Type} {f g : PlacedConstraint F → α} (h : p.Rephrases l q)
    (hsame : ∀ c d, c.Rephrases l p.layout.labels d → g d = f c) :
    q.placedConstraints.map g = p.placedConstraints.map f := by
  refine (List.forall₂_eq_eq_eq (α := α)) ▸ ?_
  refine List.forall₂_map_left_iff.mpr (List.forall₂_map_right_iff.mpr ?_)
  exact h.constraints.flip.imp fun d c hcd => hsame c d hcd

theorem basicColumn_eq (h : p.Rephrases l q) {c d : PlacedConstraint F}
    (hcd : c.Rephrases l p.layout.labels d) :
    d.basicColumn q.layout = c.basicColumn p.layout := by
  have hobjective := h.size_objective_eq
  have hdecisions := h.decisions_eq
  have hslacks : q.layout.size .slack = p.layout.size .slack := h.slacks_eq
  have hslack : q.layout.start .slack = p.layout.start .slack := by
    show q.layout.size .objective + (q.layout.size .decision + (q.layout.size .offset + 0)) =
      p.layout.size .objective + (p.layout.size .decision + (p.layout.size .offset + 0))
    omega
  have hartificial : q.layout.start .artificial = p.layout.start .artificial := by
    show q.layout.size .objective + (q.layout.size .decision + (q.layout.size .offset +
        (q.layout.size .slack + 0))) =
      p.layout.size .objective + (p.layout.size .decision + (p.layout.size .offset +
        (p.layout.size .slack + 0)))
    omega
  unfold PlacedConstraint.basicColumn
  rw [hcd.relation_eq, hcd.slack_eq, hcd.artificial_eq, hslack, hartificial]

theorem exists_placed (h : p.Rephrases l q) {k : Nat} {c : PlacedConstraint F}
    (hk : p.placedConstraints[k]? = some c) :
    ∃ d, q.placedConstraints[k]? = some d ∧ c.Rephrases l p.layout.labels d := by
  obtain ⟨hlt, rfl⟩ := List.getElem?_eq_some_iff.mp hk
  obtain ⟨hlength, hall⟩ := List.forall₂_iff_get.mp h.constraints
  have hlt' : k < q.placedConstraints.length := hlength ▸ hlt
  exact ⟨_, List.getElem?_eq_getElem hlt', hall k hlt hlt'⟩

end Problem.Rephrases

omit [Scalar F] in
/-- Constraints and the number of variables make the layout. -/
theorem Problem.layout_eq {p q : Problem F} (hconstraints : q.constraints = p.constraints)
    (hcount : q.objective.variableCount = p.objective.variableCount)
    (hsign : q.nonNegative = p.nonNegative) : q.layout = p.layout := by
  unfold layout
  rw [hconstraints, hcount, hsign]

/-- With the same constraints, it is up to the objectives alone whether a problem is the
same in other words. -/
theorem Problem.rephrases_of_constraints_eq {l : Likeness} {p q : Problem F}
    (hconstraints : q.constraints = p.constraints)
    (hcount : q.objective.variableCount = p.objective.variableCount)
    (hsign : q.nonNegative = p.nonNegative) (hrename : ∀ label, l.rename label = label)
    (hsigns : l.Signs p.nonNegative p.nonNegative)
    (hobjective : ∀ {j : Nat} {label : Label}, p.layout.labels[j]? = some label →
      l.Shares (p.layout.size .objective) (p.layout.width - 1) (p.layout.size .objective - 1) j →
      q.objectiveCoefficient label = p.objectiveCoefficient label) :
    p.Rephrases l q := by
  have hlayout := layout_eq hconstraints hcount hsign
  have hplaced : q.placedConstraints = p.placedConstraints := by
    unfold placedConstraints
    rw [hconstraints]
  refine ⟨?_, by rw [hlayout], by rw [hlayout], by rw [hlayout], hsign ▸ hsigns, ?_, ?_, ?_⟩
  · rw [hlayout, List.map_id'' hrename]
  · rw [hplaced]
    exact List.forall₂_same.mpr fun c _ => ⟨rfl, rfl, rfl, fun label _ => by rw [hrename]⟩
  · intro label _
    rw [hrename]
  · intro j label hlabel hshares
    rw [hrename]
    exact hobjective hlabel hshares

end Problems

/-! ## Initial tableaus -/

section Exact

variable [Field F] [LinearOrder F] {l : Likeness} {p q : Problem F}

theorem Problem.Rephrases.auxiliaryCost_rename (h : p.Rephrases l q) {label : Label}
    (hlabel : label ∈ p.layout.labels) :
    q.auxiliaryCost (l.rename label) = p.auxiliaryCost label := by
  have hrenamed : l.rename label ∈ q.layout.labels := by
    rw [h.labels_eq]
    exact List.mem_map_of_mem hlabel
  have hterms : q.placedConstraints.map (·.takenOff (l.rename label)) =
      p.placedConstraints.map (·.takenOff label) := by
    refine h.map_placedConstraints fun c d hcd => ?_
    rw [PlacedConstraint.takenOff, PlacedConstraint.takenOff, hcd.relation_eq,
      hcd.coefficient_rename label hlabel]
  rw [auxiliaryCost_eq_sub hrenamed, auxiliaryCost_eq_sub hlabel, hterms,
    h.auxiliaryCoefficient_rename label hlabel]

/-- A problem in other words has an initial tableau that is alike. -/
theorem Problem.Rephrases.resembles (h : p.Rephrases l q) {tolerance : F} {t u : Tableau F}
    (ht : Tableau.initial p tolerance = .ok t) (hu : Tableau.initial q tolerance = .ok u) :
    t.Resembles l u := by
  obtain ⟨htolerance, hinitial⟩ := Tableau.isInitial_of_initial_eq ht
  obtain ⟨htolerance', hinitial'⟩ := Tableau.isInitial_of_initial_eq hu
  obtain ⟨hdecisions, hslacks⟩ := Tableau.sizes_of_initial_eq ht
  obtain ⟨hdecisions', hslacks'⟩ := Tableau.sizes_of_initial_eq hu
  have hobjectives : u.objectives = t.objectives := by
    rw [hinitial.objectives_eq, hinitial'.objectives_eq, h.size_objective_eq]
  have hwidth : u.width = t.width := by
    rw [hinitial.width_eq, hinitial'.width_eq, h.width_eq]
  have hlabels : u.labels = t.labels.map l.rename := by
    rw [hinitial.labels_eq, hinitial'.labels_eq, h.labels_eq]
  have hheight : u.height = t.height := by
    rw [hinitial.height_eq, hinitial'.height_eq, hobjectives, h.constraints.length_eq]
  have hlabelAt : ∀ j < t.width, u.labelAt j = l.rename (t.labelAt j) := fun j hj =>
    Tableau.labelAt_of_getElem? (by
      rw [hlabels, List.getElem?_map, hinitial.wellShaped.getElem?_labels hj, Option.map_some])
  refine ⟨hinitial.wellShaped, ?_, hheight, hwidth, ?_, fun i hi j hj hshares => ?_⟩
  · have hbasis : u.basis = t.basis := by
      rw [hinitial.basis_eq, hinitial'.basis_eq]
      exact h.map_placedConstraints fun c d => h.basicColumn_eq
    have hartificials : u.artificials = t.artificials := by
      rw [hinitial.artificials_eq, hinitial'.artificials_eq, h.artificials_eq]
    have hphase : u.phase = t.phase := by
      rw [hinitial.phase_eq, hinitial'.phase_eq, h.artificials_eq]
    have hsameDecisions : u.decisions = t.decisions := by
      rw [hdecisions, hdecisions', h.decisions_eq]
    have hsameSlacks : u.slacks = t.slacks := by rw [hslacks, hslacks', h.slacks_eq]
    rw [← hlabels, ← hbasis, ← htolerance'.trans htolerance.symm, ← hsameDecisions, ← hsameSlacks,
      ← hartificials, ← hphase]
  · rw [hinitial.nonNegative_eq, hinitial'.nonNegative_eq]
    exact h.signs
  · have hj' : j < u.width := hwidth ▸ hj
    have hlabel := hinitial.labels_eq ▸ hinitial.wellShaped.getElem?_labels hj
    have hmem := List.mem_of_getElem? hlabel
    rcases hinitial.row_cases hi with ⟨k, c, rfl, hk⟩ | rfl | ⟨rfl, hphase⟩
    · obtain ⟨d, hd, hcd⟩ := h.exists_placed hk
      rw [hinitial.coeff_constraint hk hj, ← hobjectives, hinitial'.coeff_constraint hd hj',
        hlabelAt j hj, hcd.coefficient_rename _ hmem]
    · have hrow : t.objectiveRow = u.objectiveRow := by
        unfold Tableau.objectiveRow
        rw [hobjectives]
      rw [hinitial.coeff_objective hj, hrow, hinitial'.coeff_objective hj', hlabelAt j hj]
      refine h.objectiveCoefficient_rename hlabel ?_
      rw [← hinitial.objectives_eq, ← hinitial.width_eq]
      exact hshares
    · have hphase' : u.phase = .feasibility := by
        rw [hinitial'.phase_eq_feasibility_iff, h.artificials_eq]
        exact hinitial.phase_eq_feasibility_iff.mp hphase
      rw [hinitial.coeff_auxiliary hphase hj, hinitial'.coeff_auxiliary hphase' hj',
        hlabelAt j hj, h.auxiliaryCost_rename hmem]

/-! ## Runs -/

theorem Problem.exists_answer {related : Solution F → Solution F → Prop} {stage stage' : Stage F}
    (h : stage.Resembles l stage')
    (hrelated : ∀ {t u : Tableau F} {a b : Solution F}, t.Resembles l u →
      t.solution p.objective = .ok a → u.solution q.objective = .ok b → related a b) :
    ∃ r r', p.answer stage = .ok r ∧ q.answer stage' = .ok r' ∧ r.Matches related r' := by
  obtain ⟨failure?, reached⟩ := stage
  obtain ⟨failure?', reached'⟩ := stage'
  obtain ⟨hfailure, hprogress⟩ := h
  obtain rfl : failure?' = failure? := hfailure
  cases failure?' with
  | some f => exact ⟨_, _, rfl, rfl, .failed f, hprogress.iterations_eq⟩
  | none =>
    have ha := hprogress.tableau.wellShaped.solution_eq_ok p.objective
    have hb := hprogress.tableau.wellShaped_right.solution_eq_ok q.objective
    exact ⟨_, _, Fault.bind_eq_ok_iff.mpr ⟨_, ha, rfl⟩, Fault.bind_eq_ok_iff.mpr ⟨_, hb, rfl⟩,
      .solved (hrelated hprogress.tableau ha hb), hprogress.iterations_eq⟩

/-- Exact numbers are never at fault, so the objective matters to what is malformed by
its length only. -/
theorem Problem.defects_eq (hconstraints : q.constraints = p.constraints)
    (hcount : q.objective.variableCount = p.objective.variableCount)
    (hsign : q.nonNegative = p.nonNegative) (tolerance : F) :
    q.defects tolerance = p.defects tolerance := by
  have hobjective : ∀ o : Objective F,
      o.defects = Malformation.require (o.variableCount != 0) .noVariables := by
    intro o
    simp [Objective.defects]
  have hsum : ∀ o : Objective F, Malformation.require (p.nonNegative ||
      Scalar.isFinite (LinearForm.negatedSum o.coefficients)) .objectiveSum =
      ([] : List (Malformation F)) := by
    intro o
    simp
  unfold defects
  rw [hobjective, hobjective, hconstraints, hcount, hsign, hsum, hsum]

/-- So nothing is malformed about a well-formed problem, and what two problems of this kind
have in common is not that they were rejected. -/
theorem Solver.result_ne_malformedInput {s s' : Solver F} {report : Report F}
    (htolerance : 0 ≤ s.settings.tolerance) (hwell : p.WellFormed)
    (h : s.optimize p = .ok (report, s')) (m : Malformation F) :
    report.result ≠ .error (.malformedInput m) := by
  have hdefects := Problem.defects_eq_nil_iff.mpr ⟨htolerance, hwell⟩
  obtain ⟨t, ht⟩ := Problem.exists_initial_of_defects_eq_nil hdefects
  exact Problem.result_ne_malformedInput (solving_of_optimize_eq h) hdefects ht
    t.isFinite_eq_true m

/-- A problem in other words is answered in the same way. -/
theorem Problem.Rephrases.exists_solve (h : p.standardize.Rephrases l q.standardize)
    (hcrosses : l.Crosses) {settings : Settings F}
    (hdefects : q.defects settings.tolerance = p.defects settings.tolerance)
    {related : Solution F → Solution F → Prop}
    (hrelated : ∀ {t u : Tableau F} {a b : Solution F}, t.Resembles l u →
      t.solution p.objective = .ok a → u.solution q.objective = .ok b → related a b)
    (rule : EnteringRule) :
    ∃ r r', p.solve settings rule = .ok r ∧ q.solve settings rule = .ok r' ∧
      r.Matches related r' := by
  unfold solve
  rw [hdefects]
  cases hp : p.defects settings.tolerance with
  | cons m rest => exact ⟨_, _, rfl, rfl, .failed _, rfl⟩
  | nil =>
    obtain ⟨t, ht⟩ := exists_initial_of_defects_eq_nil hp
    obtain ⟨u, hu⟩ := exists_initial_of_defects_eq_nil (hdefects.trans hp)
    have hresembles := h.resembles ht hu
    obtain ⟨stage, stage', hstage, hstage', hend⟩ := keepsStep_runPhases rule settings.maxIterations
      hcrosses (p := .start t (.started p.goal p.objective.variableCount p.constraints.length t))
      (q := .start u (.started q.goal q.objective.variableCount q.constraints.length u))
      ⟨hresembles, rfl, .cons (.started hresembles) .nil⟩
    obtain ⟨r, r', hr, hr', hmatches⟩ := exists_answer hend hrelated
    refine ⟨r, r', ?_, ?_, hmatches⟩
    · rw [ht]
      refine (if_pos t.isFinite_eq_true).trans ?_
      exact Fault.bind_eq_ok_iff.mpr ⟨_, hstage, hr⟩
    · rw [hu]
      refine (if_pos u.isFinite_eq_true).trans ?_
      exact Fault.bind_eq_ok_iff.mpr ⟨_, hstage', hr'⟩

/-- So a solver answers in the same way, and is in the same state afterwards. -/
theorem Problem.Rephrases.exists_optimize (h : p.standardize.Rephrases l q.standardize)
    (hcrosses : l.Crosses) (s : Solver F)
    (hdefects : q.defects s.settings.tolerance = p.defects s.settings.tolerance)
    {related : Solution F → Solution F → Prop}
    (hrelated : ∀ {t u : Tableau F} {a b : Solution F}, t.Resembles l u →
      t.solution p.objective = .ok a → u.solution q.objective = .ok b → related a b) :
    ∃ report report' s', s.optimize p = .ok (report, s') ∧ s.optimize q = .ok (report', s') ∧
      SameOutcome related report.result report'.result := by
  obtain ⟨report, report', hreport, hreport', hmatches⟩ :=
    h.exists_solve hcrosses hdefects hrelated s.rule
  refine ⟨report, report', { s with iterations := report.iterations }, ?_, ?_, hmatches.outcome⟩
  · exact Fault.bind_eq_ok_iff.mpr ⟨report, hreport, rfl⟩
  · rw [← hmatches.iterations_eq]
    exact Fault.bind_eq_ok_iff.mpr ⟨report', hreport', rfl⟩

end Exact

end PrimalSimplex
