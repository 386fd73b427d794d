/-
  `Proofs.Tableau.StandardForm`: a problem and the tableau of its standard form.

  Constraints are negated where their bound is below zero, rows get slack and
  artificial variables, and free variables are shifted by a common offset.  None of
  this changes what is asked of a point: it meets the given constraints exactly when
  some values of the variables, nonnegative and without artificial ones, solve the
  tableau and stand for it.  Of all these values the row of the objective says how
  good the point is.  The auxiliary objective is the sum of the artificial variables
  less the rows they are basic in.
-/
import PrimalSimplex.Proofs.Tableau.Consistency
import PrimalSimplex.Proofs.Tableau.Region

set_option autoImplicit false

namespace PrimalSimplex.Tableau

open Column (Label Layout)

variable {F : Type} [Field F] [LinearOrder F]

/-- The values are a nonnegative solution without artificial variables, and the
decision variables, less the offset where there is one, are the point. -/
structure Encodes (t : Tableau F) (point : List F) (x : Label → F) : Prop where
  region : t.Region x
  unaided : Unaided x
  decision_eq : ∀ i a, point[i]? = some a →
    x (.decision i) - (if t.nonNegative then 0 else x .offset) = a

/-- The constraint rows in which an artificial variable is basic. -/
def artificialRows (t : Tableau F) : Except Fault (List Nat) :=
  Fault.filter (fun row => do return (← t.basicLabel row).isArtificial) t.constraintRows

/-- Whether an artificial variable is basic in the row. -/
def isArtificialRow (t : Tableau F) (row : Nat) : Bool :=
  (t.basicLabel row).toOption.any Label.isArtificial

namespace IsInitial

variable {p : Problem F} {s : Tableau F}

/-! ## Points -/

/-- Values with a point for each decision variable are decoded to it. -/
theorem decode_eq (h : s.IsInitial p) {point : List F} {x : Label → F}
    (hlength : point.length = p.objective.variableCount) (hx : s.Encodes point x) :
    p.decode x = point := by
  refine List.ext_getElem (by rw [Problem.decode, List.length_map, List.length_range, hlength])
    fun i hi hi' => ?_
  have hdecision := hx.decision_eq i _ (List.getElem?_eq_getElem hi')
  rw [h.nonNegative_eq] at hdecision
  simp only [Problem.decode, List.getElem_map, List.getElem_range]
  exact hdecision

/-- The values that were made for a feasible point encode it. -/
theorem encodes_encode [IsStrictOrderedRing F] (h : s.IsInitial p) {point : List F}
    (hfeasible : p.IsFeasible point) : s.Encodes point (p.encode point) where
  region := ⟨h.covers_encode point, encode_nonneg hfeasible, h.solves_encode hfeasible⟩
  unaided := p.unaided_encode point
  decision_eq i a ha := by
    have hlt : i < p.objective.variableCount :=
      hfeasible.length_eq ▸ (List.getElem?_eq_some_iff.mp ha).1
    have hat : (p.decode (p.encode point))[i]? = some a :=
      (Problem.decode_encode hfeasible.length_eq).symm ▸ ha
    rw [Problem.decode, List.getElem?_map, List.getElem?_range hlt, Option.map_some] at hat
    rw [h.nonNegative_eq]
    exact Option.some.inj hat

/-- A point is feasible exactly when it is encoded by some values. -/
theorem isFeasible_iff_exists_encodes [IsStrictOrderedRing F] (h : s.IsInitial p) {point : List F}
    (hlength : point.length = p.objective.variableCount) :
    p.IsFeasible point ↔ ∃ x, s.Encodes point x := by
  constructor
  · intro hfeasible
    exact ⟨_, h.encodes_encode hfeasible⟩
  · rintro ⟨x, hx⟩
    have hdecodes := h.isFeasible_decode hx.region.solves hx.region.nonneg hx.unaided
    rwa [h.decode_eq hlength hx] at hdecodes

/-! ## Rows with an artificial variable -/

/-- What is read off each row of a constraint is read off the constraint. -/
theorem map_constraintRows {α : Type} (h : s.IsInitial p) {f : Nat → α}
    {g : PlacedConstraint F → α}
    (hrow : ∀ k c, p.placedConstraints[k]? = some c → f (s.objectives + k) = g c) :
    s.constraintRows.map f = p.placedConstraints.map g := by
  have hcount : s.height - s.objectives = p.placedConstraints.length := by
    rw [h.height_eq, Nat.add_sub_cancel_left]
  refine List.ext_getElem (by
    rw [List.length_map, List.length_map, constraintRows, List.length_range', hcount])
    fun k hk hk' => ?_
  rw [List.length_map] at hk'
  rw [List.getElem_map, List.getElem_map]
  refine (congrArg f ?_).trans (hrow k _ (List.getElem?_eq_getElem hk'))
  simp [constraintRows]

/-- The variable that is basic in the row of a constraint. -/
theorem basicLabel_eq_ok (h : s.IsInitial p) {k : Nat} {c : PlacedConstraint F}
    (hc : p.placedConstraints[k]? = some c) :
    s.basicLabel (s.objectives + k) = .ok c.basicLabel := by
  have hbasis : s.basis[k]? = some (c.basicColumn p.layout) := by
    rw [h.basis_eq, List.getElem?_map, hc, Option.map_some]
  have hlabel := (Problem.getElem?_basicColumn (List.mem_of_getElem? hc)).1
  rw [h.canonical.basicLabel_eq_ok hbasis, labelAt_of_getElem? (h.labels_eq ▸ hlabel)]

/-- A sum over the rows with an artificial variable is one over the constraints that
need one. -/
theorem exists_artificialRows (h : s.IsInitial p) :
    ∃ rows, s.artificialRows = .ok rows ∧ (∀ i ∈ rows, i < s.height) ∧
      ∀ j < s.width, (rows.map fun i => s.coeff i j).sum =
        (p.placedConstraints.map (·.takenOff (s.labelAt j))).sum := by
  refine ⟨s.constraintRows.filter s.isArtificialRow, Fault.filter_eq_ok fun i hi => ?_,
    fun i hi => ?_, fun j hj => ?_⟩
  · obtain ⟨label, hlabel⟩ := h.wellShaped.exists_basicLabel hi
    rw [isArtificialRow, hlabel]
    rfl
  · exact (mem_constraintRows.mp (List.mem_filter.mp hi).1).2
  · have hsum : ((s.constraintRows.filter s.isArtificialRow).map fun i => s.coeff i j).sum =
        (s.constraintRows.map fun i => if s.isArtificialRow i then s.coeff i j else 0).sum := by
      simpa using (List.sum_map_ite (fun i => s.isArtificialRow i = true) (fun i => s.coeff i j)
        (fun _ => 0) s.constraintRows).symm
    rw [hsum]
    refine congrArg List.sum (h.map_constraintRows fun k c hc => ?_)
    have hrow : s.isArtificialRow (s.objectives + k) = c.constraint.relation.needsArtificial := by
      rw [isArtificialRow, h.basicLabel_eq_ok hc, PlacedConstraint.basicLabel]
      cases c.constraint.relation.needsArtificial with
      | true => rfl
      | false => rfl
    rw [hrow, h.coeff_constraint hc hj, PlacedConstraint.takenOff]

/-- The auxiliary objective: its own coefficient, and the artificial variables less
the rows that they are basic in. -/
theorem auxiliary_entries (h : s.IsInitial p) (hphase : s.phase = .feasibility) :
    s.label 0 = .ok .auxiliary ∧ s.entry 0 0 = .ok (-1) ∧
      ∃ rows, s.artificialRows = .ok rows ∧ ∀ j, 0 < j → j < s.width → ∃ label entries,
        s.label j = .ok label ∧ rows.mapM (fun i => s.entry i j) = .ok entries ∧
          s.entry 0 j = .ok ((if label.isArtificial then 1 else 0) - entries.sum) := by
  have hshape := h.wellShaped
  have hwidth : 0 < s.width := Nat.zero_lt_of_lt hshape.objectives_lt_width
  have hzero : s.coeff 0 0 = -1 :=
    (h.showsObjectives.auxiliary_coeff hphase 0 hshape.height_pos).trans (if_pos rfl)
  obtain ⟨rows, hrows, hlt, hsum⟩ := h.exists_artificialRows
  refine ⟨h.labelAt_zero hphase ▸ hshape.label_eq_ok hwidth,
    hzero ▸ entry_eq_ok hshape.height_pos hwidth, rows, hrows, fun j hpos hj => ?_⟩
  refine ⟨_, _, hshape.label_eq_ok hj, Fault.mapM_eq_ok fun i hi => entry_eq_ok (hlt i hi) hj, ?_⟩
  rw [entry_eq_ok hshape.height_pos hj, h.coeff_auxiliary hphase hj,
    Problem.auxiliaryCost_eq_sub (h.labelAt_mem hj), hsum j hj]
  have hown : s.labelAt j ≠ .auxiliary := by
    intro hlabel
    have hsame := h.canonical.eq_of_labelAt_eq hj hwidth (hlabel.trans (h.labelAt_zero hphase).symm)
    omega
  refine congrArg (fun a => Except.ok (a - _)) ?_
  cases hlabel : s.labelAt j with
  | auxiliary => exact absurd hlabel hown
  | artificial i => rfl
  | objective => rfl
  | decision i => rfl
  | offset => rfl
  | slack i => rfl
  | bound => rfl

end IsInitial

/-! ## The result -/

variable [IsStrictOrderedRing F] {p : Problem F}

/-- The tableau of the standard form asks of a point what the problem asks, and its
objectives are those of the problem. -/
theorem exists_initial_standardize (tolerance : F)
    (hlength : ∀ c ∈ p.constraints, c.coefficients.length = p.objective.variableCount) :
    ∃ s, Tableau.initial p.standardize tolerance = .ok s ∧
      (∀ point, point.length = p.objective.variableCount →
        (p.nonNegative = true → ∀ a ∈ point, 0 ≤ a) →
        ((∀ c ∈ p.constraints, c.Holds point) ↔ ∃ x, s.Encodes point x)) ∧
      (∀ point x, point.length = p.objective.variableCount → s.Encodes point x →
        s.residual s.objectiveRow x = match p.goal with
          | .maximize => -p.objective.value point
          | .minimize => p.objective.value point) ∧
      (s.phase = .feasibility →
        s.label 0 = .ok .auxiliary ∧ s.entry 0 0 = .ok (-1) ∧
          ∃ rows, s.artificialRows = .ok rows ∧ ∀ j, 0 < j → j < s.width → ∃ label entries,
            s.label j = .ok label ∧ rows.mapM (fun i => s.entry i j) = .ok entries ∧
              s.entry 0 j = .ok ((if label.isArtificial then 1 else 0) - entries.sum)) := by
  have hstandard : ∀ c ∈ p.standardize.constraints,
      c.coefficients.length = p.standardize.objective.variableCount := by
    intro c hc
    obtain ⟨given, hgiven, rfl⟩ := List.mem_map.mp hc
    rw [Constraint.length_coefficients_standardize]
    exact hlength given hgiven
  obtain ⟨s, hinitial⟩ := exists_initial tolerance hstandard
  obtain ⟨-, hisInitial⟩ := isInitial_of_initial_eq hinitial
  refine ⟨s, hinitial, fun point hcount hsign => ?_, fun point x hcount hx => ?_,
    hisInitial.auxiliary_entries⟩
  · rw [← hisInitial.isFeasible_iff_exists_encodes hcount, Problem.isFeasible_standardize]
    exact ⟨fun hholds => ⟨hcount, hholds, hsign⟩, fun hfeasible => hfeasible.holds⟩
  · rw [hisInitial.residual_objectiveRow, hisInitial.decode_eq hcount hx]
    show p.goal.loss (p.objective.value point) = _
    cases p.goal with
    | maximize => rfl
    | minimize => rfl

/-- A problem with a bound below zero, which needs an artificial variable only
because of it. -/
def negativeBoundProblem : Problem ℚ where
  objective := ⟨[1, 2], 3⟩
  constraints := [⟨[1, -1], .atMost, -1⟩, ⟨[1, 1], .equal, 3⟩]
  goal := .maximize
  nonNegative := false

/-- A point with a negative entry is encoded, and both constraints are taken off the
auxiliary objective. -/
theorem exists_initial_negativeBoundProblem :
    ∃ s x, Tableau.initial negativeBoundProblem.standardize 0 = .ok s ∧
      s.Encodes [-1, 4] x ∧ s.residual s.objectiveRow x = -10 ∧
      s.artificialRows = .ok [2, 3] ∧ s.entry 0 3 = .ok (0 - (1 + 1)) := by
  have hlength : ∀ c ∈ negativeBoundProblem.constraints,
      c.coefficients.length = negativeBoundProblem.objective.variableCount := by decide
  have hholds : ∀ c ∈ negativeBoundProblem.constraints, c.Holds [-1, 4] := by
    have hsatisfied : (negativeBoundProblem.constraints.all
        fun c => c.isSatisfiedBy [-1, 4] 0) = true := by decide +kernel
    exact fun c hc => Constraint.isSatisfiedBy_zero_iff.mp (List.all_eq_true.mp hsatisfied c hc)
  have hvalue : negativeBoundProblem.objective.value [-1, 4] = 10 := by decide +kernel
  have hentries : ((Tableau.initial negativeBoundProblem.standardize 0).toOption.map fun s =>
      decide (s.phase = .feasibility ∧ 3 < s.width ∧ s.artificialRows = .ok [2, 3] ∧
        s.label 3 = .ok (.decision 1) ∧ ([2, 3].mapM fun i => s.entry i 3) = .ok [1, 1])) =
      some true := by
    decide +kernel
  obtain ⟨s, hinitial, hpoints, hobjective, hauxiliary⟩ := exists_initial_standardize 0 hlength
  rw [hinitial] at hentries
  obtain ⟨hphase, hwidth, hrows, hlabel, hcolumn⟩ := of_decide_eq_true (Option.some.inj hentries)
  obtain ⟨x, hx⟩ := (hpoints [-1, 4] rfl nofun).mp hholds
  obtain ⟨-, -, rows, hrows', hothers⟩ := hauxiliary hphase
  obtain rfl := Except.ok.inj (hrows'.symm.trans hrows)
  obtain ⟨label, entries, hlabel', hcolumn', hentry⟩ := hothers 3 (by decide) hwidth
  obtain rfl := Except.ok.inj (hlabel'.symm.trans hlabel)
  obtain rfl := Except.ok.inj (hcolumn'.symm.trans hcolumn)
  rw [List.sum_cons, List.sum_singleton] at hentry
  have hresidual : s.residual s.objectiveRow x = -negativeBoundProblem.objective.value [-1, 4] :=
    hobjective _ x rfl hx
  rw [hvalue] at hresidual
  exact ⟨s, x, hinitial, hx, hresidual, hrows, hentry⟩

end PrimalSimplex.Tableau
