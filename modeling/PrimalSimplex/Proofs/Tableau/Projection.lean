/-
  `Proofs.Tableau.Projection`: leaving the first phase forgets columns and no more.

  Columns, labels and basis are cut down separately, each in its own way.  Together
  they are one projection: the columns that are kept stand in their old order, each
  with its label and its entries below row 0, every row has the basic variable it
  had, and the point that the tableau stands for is the same.  This takes no more
  than a basis that shows, so it also holds where the first phase is left too early.
-/
import PrimalSimplex.Proofs.Tableau.Consistency
import PrimalSimplex.Proofs.Tableau.Removal

set_option autoImplicit false

namespace PrimalSimplex.Tableau

open Column (Label)

variable {F : Type} [Field F] [LinearOrder F]

/-! ## The columns that go -/

/-- The column goes with the first phase: it is that of the auxiliary objective, or its
cost there is above the tolerance, or it is that of an artificial variable which is not
basic. -/
def Goes (t : Tableau F) (j : Nat) : Prop :=
  t.label j = .ok .auxiliary ∨ (∃ cost, t.cost j = .ok cost ∧ t.tolerance < cost) ∨
    (∃ i, t.label j = .ok (.artificial i)) ∧ t.basicRow? j = none

/-- The second tableau is what the first one is without row 0 and without the columns
that go.  The right hand sides are no column of a variable and never go. -/
structure ProjectsTo (t : Tableau F) (kept : List Nat) (u : Tableau F) : Prop where
  frame : u = { t with
    matrix := u.matrix
    labels := u.labels
    basis := u.basis
    artificials := 0
    phase := .optimality }
  kept_pairwise : kept.Pairwise (· < ·)
  mem_kept_iff : ∀ j, j ∈ kept ↔ j < t.width ∧ (j < t.boundColumn → ¬t.Goes j)
  height_eq : u.height + 1 = t.height
  width_eq : u.width = kept.length
  length_labels : u.labels.length = kept.length
  label_eq : ∀ k j, kept[k]? = some j → u.label k = t.label j
  entry_eq : ∀ k j, kept[k]? = some j → ∀ i < u.height, u.entry i k = t.entry (i + 1) j

variable {t u : Tableau F}

/-- A label is artificial if it is one of the numbered ones. -/
theorem isArtificial_iff {label : Label} :
    label.isArtificial = true ↔ ∃ i, label = .artificial i := by
  cases label <;> simp [Label.isArtificial]

variable [IsStrictOrderedRing F]

/-- As far as variables are concerned, what goes are the surplus columns. -/
theorem Canonical.goes_iff (h : t.Canonical) (htolerance : 0 ≤ t.tolerance) {goal : Goal}
    (hshows : t.ShowsObjectives goal) (hphase : t.phase = .feasibility) {j : Nat}
    (hj : j < t.boundColumn) : t.Goes j ↔ j ∈ t.surplus := by
  have hwidth : j < t.width := hj.trans h.boundColumn_lt
  have htwo : t.objectives = 2 := by rw [objectives, hphase]; rfl
  have hfirst := hshows.auxiliary_label hphase
  have hgoes : t.Goes j ↔ t.labelAt j = .auxiliary ∨ t.isSurplusAt j = true := by
    simp [Goes, isSurplusAt, h.label_eq_ok hwidth, h.cost_eq_ok hwidth, isArtificial_iff,
      Scalar.isPositive_iff_lt htolerance]
  rw [hgoes, surplus, List.mem_cons, List.mem_filter]
  by_cases hvariable : j ∈ t.variableColumns
  · have hlow := (mem_variableColumns.mp hvariable).1
    -- Only column 0 has the label of the auxiliary objective.
    have hlabel : t.labelAt j ≠ .auxiliary := by
      intro hsame
      have := h.eq_of_labelAt_eq hwidth (by omega) (hsame.trans hfirst.symm)
      omega
    have hpos : j ≠ 0 := by omega
    simp [hlabel, hpos, hvariable]
  · have hobjective : j = 0 ∨ j = 1 := by
      have := mt mem_variableColumns.mpr hvariable
      omega
    rcases hobjective with rfl | rfl
    · simp [hfirst]
    · -- The objective of the problem costs nothing and is not artificial.
      have hrow := objectiveRow_of_feasibility hphase
      have hlabel := hshows.objective_label
      have hcost := hshows.objective_coeff 0 h.height_pos
      rw [hrow] at hlabel hcost
      have hnot : Scalar.isPositive (t.coeff 0 1) t.tolerance = false := by
        rw [hcost, ← Bool.not_eq_true, Scalar.isPositive_iff_lt htolerance]
        simpa using htolerance
      simp [hlabel, isSurplusAt, hnot, Label.isArtificial, hvariable]

namespace IsReduction

/-- Leaving the first phase is the projection to the columns that do not go. -/
theorem projectsTo (h : t.IsReduction u) (ht : t.Canonical) (htolerance : 0 ≤ t.tolerance)
    {goal : Goal} (hshows : t.ShowsObjectives goal) :
    t.ProjectsTo (keptPositions t.surplus t.width) u where
  frame := by rw [h.frame]
  kept_pairwise := pairwise_keptPositions _ _
  mem_kept_iff j := by
    rw [mem_keptPositions]
    refine and_congr_right fun hj => ⟨fun hkept hlt => ?_, fun hstays => ?_⟩
    · rwa [ht.goes_iff htolerance hshows h.phase_eq hlt]
    · rcases Nat.lt_or_ge j t.boundColumn with hlt | hge
      · rw [← ht.goes_iff htolerance hshows h.phase_eq hlt]
        exact hstays hlt
      · -- The only other column is the last one.
        have hlast : j = t.boundColumn := by
          unfold boundColumn at hge ⊢
          omega
        have hkept : t.boundColumn ∈ keptPositions t.surplus t.width := by
          rw [ht.keptPositions_surplus h.phase_eq]
          simp
        exact hlast ▸ (mem_keptPositions.mp hkept).2
  height_eq := h.height_eq
  width_eq := h.width_eq
  length_labels := by rw [h.labels_eq, length_dropPositions, ht.length_labels]
  label_eq k j hk := by
    unfold label Fault.fetch
    rw [h.labels_eq, getElem?_dropPositions (ht.length_labels ▸ hk)]
  entry_eq k j hk i hi := by
    have hheight := h.height_eq
    have hwidth : k < u.width := h.width_eq ▸ (List.getElem?_eq_some_iff.mp hk).1
    rw [entry_eq_ok hi hwidth, h.coeff_eq i k j (by omega) hk,
      entry_eq_ok (by omega) (mem_keptPositions.mp (List.mem_of_getElem? hk)).1]

/-! ## The solution -/

omit [IsStrictOrderedRing F] in
/-- Staying columns do not meet at a new position. -/
theorem eq_of_renumber_eq (ht : t.WellShaped) {i j : Nat} (hi : i ∈ t.staying)
    (hj : j ∈ t.staying) (heq : t.renumber i = t.renumber j) : i = j := by
  have hplace := getElem?_renumber ht hi
  rw [heq, getElem?_renumber ht hj] at hplace
  exact (Option.some.inj hplace).symm

/-- A column that stays is basic where it was, if it was. -/
theorem basicValue_labelAt (h : t.IsReduction u) (ht : t.Canonical) (htolerance : 0 ≤ t.tolerance)
    {j : Nat} (hj : j ∈ t.staying) :
    u.basicValue (t.labelAt j) = t.basicValue (t.labelAt j) := by
  have hu := h.canonical ht htolerance
  by_cases hbasic : j ∈ t.basis
  · obtain ⟨k, hk⟩ := List.mem_iff_getElem?.mp hbasic
    have hmoved : u.basis[k]? = some (t.renumber j) := by
      rw [h.basis_eq, List.getElem?_map, hk, Option.map_some]
    have hrow := (mem_constraintRows.mp (ht.mem_constraintRows_of_getElem? hk)).2
    rw [h.objectives_eq_two] at hrow
    have hnext : 1 + k + 1 = 2 + k := by omega
    calc u.basicValue (t.labelAt j)
        = u.basicValue (u.labelAt (t.renumber j)) := by rw [h.labelAt_renumber ht.toWellShaped hj]
      _ = u.coeff (1 + k) u.boundColumn := by
          rw [basicValue, hu.basicAssignment_labelAt _ hmoved, h.objectives_eq]
      _ = t.coeff (2 + k) t.boundColumn := by
          rw [h.coeff_boundColumn ht.toWellShaped (by omega), hnext]
      _ = t.basicValue (t.labelAt j) := by
          rw [basicValue, ht.basicAssignment_labelAt _ hk, h.objectives_eq_two]
  · have hnot : t.renumber j ∉ u.basis := by
      rw [h.basis_eq]
      intro hmem
      obtain ⟨b, hb, heq⟩ := List.mem_map.mp hmem
      have hsame := eq_of_renumber_eq ht.toWellShaped
        (mem_staying_of_mem_basis ht htolerance hb) hj heq
      exact hbasic (hsame ▸ hb)
    have hcolumn : t.renumber j ∈ u.variableColumns := by
      rw [h.variableColumns_eq ht.toWellShaped]
      exact List.mem_map_of_mem hj
    have hwidth := ht.lt_width_of_mem (mem_staying.mp hj).1
    have hafter := hu.basicAssignment_labelAt_of_not_mem (fun i => u.coeff i u.boundColumn)
      (hu.lt_width_of_mem hcolumn) hnot
    rw [h.labelAt_renumber ht.toWellShaped hj] at hafter
    rw [basicValue, hafter, basicValue, ht.basicAssignment_labelAt_of_not_mem _ hwidth hbasic]

/-- Every variable has the value it had, also one whose column goes: that was not basic. -/
theorem basicValue_eq (h : t.IsReduction u) (ht : t.Canonical) (htolerance : 0 ≤ t.tolerance) :
    u.basicValue = t.basicValue := by
  have hu := h.canonical ht htolerance
  have hzero : ∀ label ∉ u.unknowns, u.basicValue label = 0 := hu.covers_basicAssignment _
  funext label
  by_cases hlabel : label ∈ t.unknowns
  · obtain ⟨j, hj, rfl⟩ := List.mem_map.mp hlabel
    by_cases hstays : j ∈ t.staying
    · exact h.basicValue_labelAt ht htolerance hstays
    · have hbasic : j ∉ t.basis := mt (mem_staying_of_mem_basis ht htolerance) hstays
      rw [h.eq_zero_of_covers ht hzero hj hstays, basicValue,
        ht.basicAssignment_labelAt_of_not_mem _ (ht.lt_width_of_mem hj) hbasic]
  · have hgone : label ∉ u.unknowns := fun hmem => hlabel ((h.restates ht).unknowns_subset hmem)
    rw [hzero label hgone, basicValue, ht.covers_basicAssignment _ label hlabel]

/-- So the point is the same, and so is the value of every objective there. -/
theorem solution_eq (h : t.IsReduction u) (ht : t.Canonical) (htolerance : 0 ≤ t.tolerance)
    (o : Objective F) : ∃ solution, t.solution o = .ok solution ∧ u.solution o = .ok solution := by
  have hoffset : u.basicOffset = t.basicOffset := by
    rw [basicOffset, basicOffset, h.basicValue_eq ht htolerance, h.frame]
  refine ⟨_, ht.solution_eq_ok o, ?_⟩
  rw [(h.wellShaped ht.toWellShaped).solution_eq_ok, h.basicValue_eq ht htolerance, hoffset]

end IsReduction

/-! ## The result -/

variable {p : Problem F} {s : Tableau F}

/-- Whatever pivots were made, and whether or not the first phase is done: leaving it
takes row 0 and the columns that go.  The other columns stand in their old order with
their labels and entries, each row keeps its basic variable, the solution stays the
same, and there is nothing left to take.  The same is left in place, where the columns are
collected and sorted, and removed by position. -/
theorem projectsTo_of_exchanges {tolerance : F} (htolerance : 0 ≤ tolerance)
    (hinitial : Tableau.initial p tolerance = .ok s) (hexchanges : s.Exchanges t)
    (htwo : t.objectives = 2) :
    ∃ u removed kept, t.reduce = .ok ⟨u, removed⟩ ∧ t.ProjectsTo kept u ∧
      (∀ i ∈ t.constraintRows, ∃ label,
        t.basicLabel i = .ok label ∧ u.basicLabel (i - 1) = .ok label) ∧
      (∀ o : Objective F, ∃ solution,
        t.solution o = .ok solution ∧ u.solution o = .ok solution) ∧
      u.reduce = .ok ⟨u, []⟩ ∧
      ∀ remove : (α : Type) → List Nat → List α → List α, (∀ α, Rows.Removes (remove α)) →
        t.cutDown remove = .ok ⟨u.matrix.rows, u.labels, u.basis, removed⟩ := by
  obtain ⟨rfl, hisInitial⟩ := isInitial_of_initial_eq hinitial
  obtain ⟨ht, hrestates⟩ := hisInitial.canonical.evolves htolerance hexchanges.evolves
  have hshows := hisInitial.showsObjectives_of_evolves htolerance hexchanges.evolves
  rw [← hrestates.tolerance_eq] at htolerance
  have hphase : t.phase = .feasibility := by
    cases hphase : t.phase with
    | feasibility => rfl
    | optimality =>
      rw [objectives, hphase] at htwo
      cases htwo
  obtain ⟨u, hreduce, hreduction⟩ := ht.reduce_spec hphase
  refine ⟨u, _, _, hreduce, hreduction.projectsTo ht htolerance hshows, fun i hi => ?_,
    hreduction.solution_eq ht htolerance, reduce_of_optimality (by rw [hreduction.frame]),
    fun _ hremove => ht.cutDown_eq_ok hphase hreduce hremove⟩
  obtain ⟨hlow, hhigh⟩ := mem_constraintRows.mp hi
  have hheight := ht.height_eq
  obtain ⟨reduction, hreduced, hkeeps⟩ := ht.exists_reduce htolerance
  obtain rfl := Except.ok.inj (hreduce.symm.trans hreduced)
  obtain ⟨label, hbefore, -, hafter⟩ := hkeeps (i - 2) (by omega)
  rw [htwo, Nat.add_sub_cancel' (by omega)] at hbefore
  rw [hreduction.objectives_eq, show 1 + (i - 2) = i - 1 by omega] at hafter
  exact ⟨label, hbefore, hafter⟩

/-- The detour's problem, where the first phase is left with an artificial variable at
one: besides row 0, the columns of the offset, of a slack variable and of the other
artificial variable go. -/
theorem projectsTo_detourProblem :
    ∃ s t u removed kept, Tableau.initial detourProblem (1 / 2) = .ok s ∧ s.Exchanges t ∧
      t.objectives = 2 ∧ t.reduce = .ok ⟨u, removed⟩ ∧ t.ProjectsTo kept u ∧
      u.labels = [.objective, .decision 0, .decision 1, .slack 1, .artificial 1, .bound] ∧
      t.cutDown (fun _ => dropPositions) = .ok ⟨u.matrix.rows, u.labels, u.basis, removed⟩ ∧
      ∃ solution, t.solution detourProblem.objective = .ok solution ∧
        u.solution detourProblem.objective = .ok solution ∧ solution.point = [0, 1] := by
  have hruns : ((Tableau.initial detourProblem (1 / 2)).toOption.bind fun s =>
      (s.follow? [.exchange 2 3]).bind fun t =>
        t.reduce.toOption.bind fun reduction =>
          (t.solution detourProblem.objective).toOption.map fun solution =>
            (t.objectives, reduction.tableau.labels, solution.point)) =
      some (2, [.objective, .decision 0, .decision 1, .slack 1, .artificial 1, .bound],
        [0, 1]) := by
    decide +kernel
  obtain ⟨s, hinitial, hruns⟩ := Option.bind_eq_some_iff.mp hruns
  obtain ⟨t, hfollow, hruns⟩ := Option.bind_eq_some_iff.mp hruns
  obtain ⟨reduction, hreduce, hruns⟩ := Option.bind_eq_some_iff.mp hruns
  obtain ⟨solution, hsolution, hresult⟩ := Option.map_eq_some_iff.mp hruns
  obtain ⟨htwo, hlabels, hpoint⟩ : t.objectives = 2 ∧ _ ∧ solution.point = [0, 1] := by
    simpa using hresult
  have hinitial := Fault.eq_ok_of_toOption_eq_some hinitial
  have hexchanges := exchanges_of_follow?_eq_some (by decide) hfollow
  obtain ⟨u, removed, kept, hreduced, hprojects, -, hsolutions, -, hcutDown⟩ :=
    projectsTo_of_exchanges (by decide +kernel) hinitial hexchanges htwo
  obtain rfl := Except.ok.inj ((Fault.eq_ok_of_toOption_eq_some hreduce).symm.trans hreduced)
  obtain ⟨answer, hbefore, hafter⟩ := hsolutions detourProblem.objective
  obtain rfl := Except.ok.inj ((Fault.eq_ok_of_toOption_eq_some hsolution).symm.trans hbefore)
  exact ⟨s, t, u, removed, kept, hinitial, hexchanges, htwo, hreduced, hprojects, hlabels,
    hcutDown _ fun _ => Rows.removes_dropPositions, solution, hbefore, hafter, hpoint⟩

end PrimalSimplex.Tableau
