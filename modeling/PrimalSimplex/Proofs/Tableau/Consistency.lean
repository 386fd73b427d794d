/-
  `Proofs.Tableau.Consistency`: labels, basis and columns belong together.

  A tableau keeps three records of its variables: labels for the columns, the basis
  for the rows, and the entries themselves.  Pivots change the last two and leaving
  the first phase all three.  In every tableau that is reached, in whatever way,
  they agree: no label occurs twice, the basis names a column for each constraint
  row, and that column is the unit vector of the row.  The columns of the
  objectives stand by themselves, and no basic column is ever removed.
-/
import PrimalSimplex.Proofs.Tableau.Evolution

set_option autoImplicit false

namespace PrimalSimplex

open Column (Label Layout)

variable {F : Type} [Field F]

/-- The sign with which an objective stands in its own column. -/
def Goal.sign : Goal → F
  | maximize => 1
  | minimize => -1

variable [LinearOrder F]

namespace Tableau

/-! ## The columns of the objectives -/

/-- The columns of the objectives have an entry in their own row only, and that of
the auxiliary objective is there in the first phase only. -/
structure ShowsObjectives (goal : Goal) (t : Tableau F) : Prop where
  objective_label : t.labelAt t.objectiveRow = .objective
  objective_coeff : ∀ i < t.height,
    t.coeff i t.objectiveRow = if i = t.objectiveRow then goal.sign else 0
  auxiliary_label : t.phase = .feasibility → t.labelAt 0 = .auxiliary
  auxiliary_coeff : t.phase = .feasibility → ∀ i < t.height,
    t.coeff i 0 = if i = 0 then -1 else 0
  auxiliary_not_mem : t.phase = .optimality → Label.auxiliary ∉ t.labels

omit [Field F] [LinearOrder F] in
theorem objectiveRow_of_feasibility {t : Tableau F} (hphase : t.phase = .feasibility) :
    t.objectiveRow = 1 := by
  rw [objectiveRow, objectives, hphase]
  rfl

theorem IsInitial.labelAt_objectiveRow {p : Problem F} {t : Tableau F} (h : t.IsInitial p) :
    t.labelAt t.objectiveRow = .objective := by
  apply labelAt_of_getElem?
  rw [h.labels_eq, Layout.labels_eq, objectiveRow, h.objectives_eq, Layout.groupLabels, Layout.size]
  split
  · rfl
  · rfl

theorem IsInitial.labelAt_zero {p : Problem F} {t : Tableau F} (h : t.IsInitial p)
    (hphase : t.phase = .feasibility) : t.labelAt 0 = .auxiliary := by
  apply labelAt_of_getElem?
  rw [h.labels_eq, Layout.labels_eq, Layout.groupLabels,
    if_pos (h.phase_eq_feasibility_iff.mp hphase)]
  rfl

/-- An initial tableau shows its objectives. -/
theorem IsInitial.showsObjectives {p : Problem F} {t : Tableau F} (h : t.IsInitial p) :
    t.ShowsObjectives p.goal where
  objective_label := h.labelAt_objectiveRow
  objective_coeff i hi := by
    have hcolumn : t.objectiveRow < t.width :=
      t.objectiveRow_lt.trans h.wellShaped.objectives_lt_width
    have hlabel := h.labelAt_objectiveRow
    have hlt := t.objectiveRow_lt
    rcases h.row_cases hi with ⟨k, c, rfl, hc⟩ | rfl | ⟨rfl, hphase⟩
    · rw [h.coeff_constraint hc hcolumn, hlabel, if_neg (by omega)]
      rfl
    · rw [h.coeff_objective hcolumn, hlabel, if_pos rfl]
      rw [Problem.objectiveCoefficient]
      cases p.goal with
      | maximize => rfl
      | minimize => rfl
    · rw [h.coeff_auxiliary hphase hcolumn, hlabel,
        Problem.auxiliaryCost_eq (fun _ _ => rfl) (hlabel ▸ h.labelAt_mem hcolumn),
        if_neg (by rw [objectiveRow_of_feasibility hphase]; omega)]
      rfl
  auxiliary_label := h.labelAt_zero
  auxiliary_coeff hphase i hi := by
    have hcolumn : 0 < t.width := Nat.zero_lt_of_lt h.wellShaped.objectives_lt_width
    have hlabel := h.labelAt_zero hphase
    have hrow := objectiveRow_of_feasibility hphase
    have hpos := t.objectives_pos
    rcases h.row_cases hi with ⟨k, c, rfl, hc⟩ | rfl | ⟨rfl, _⟩
    · rw [h.coeff_constraint hc hcolumn, hlabel, if_neg (by omega)]
      rfl
    · rw [h.coeff_objective hcolumn, hlabel, if_neg (by omega)]
      rfl
    · rw [h.coeff_auxiliary hphase hcolumn, hlabel,
        Problem.auxiliaryCost_eq (fun _ _ => rfl) (hlabel ▸ h.labelAt_mem hcolumn), if_pos rfl]
      rfl
  auxiliary_not_mem hphase hmem := by
    have hnone : ¬0 < p.layout.artificials := by
      intro hsome
      rw [h.phase_eq_feasibility_iff.mpr hsome] at hphase
      cases hphase
    rw [h.labels_eq, Layout.labels_eq, Layout.groupLabels, if_neg hnone] at hmem
    rcases List.mem_append.mp hmem with hmem | hmem
    · rcases List.mem_append.mp hmem with hmem | hmem
      · cases List.mem_singleton.mp hmem
      · exact Layout.mem_unknowns.mp hmem
    · cases List.mem_singleton.mp hmem

/-- A pivot takes no multiple of the columns of the objectives, which are zero in
every constraint row. -/
theorem IsPivot.showsObjectives {t u : Tableau F} {row column : Nat}
    (h : t.IsPivot row column u) (ht : t.WellShaped) (hrow : row ∈ t.constraintRows) {goal : Goal}
    (hshows : t.ShowsObjectives goal) : u.ShowsObjectives goal where
  objective_label := by
    rw [h.objectiveRow_eq, h.sameFrame.labelAt_eq]
    exact hshows.objective_label
  objective_coeff i hi := by
    rw [h.height_eq] at hi
    obtain ⟨hlow, hhigh⟩ := mem_constraintRows.mp hrow
    have hlt := t.objectiveRow_lt
    have hzero : t.coeff row t.objectiveRow = 0 := by
      rw [hshows.objective_coeff row hhigh, if_neg (by omega)]
    rw [h.objectiveRow_eq,
      h.coeff_eq_of_row_eq_zero (hlt.trans ht.objectives_lt_width) hzero hi]
    exact hshows.objective_coeff i hi
  auxiliary_label hphase := by
    rw [h.sameFrame.labelAt_eq]
    exact hshows.auxiliary_label (h.sameFrame.phase_eq ▸ hphase)
  auxiliary_coeff hphase i hi := by
    rw [h.height_eq] at hi
    rw [h.sameFrame.phase_eq] at hphase
    obtain ⟨hlow, hhigh⟩ := mem_constraintRows.mp hrow
    have hpos := t.objectives_pos
    have hzero : t.coeff row 0 = 0 := by
      rw [hshows.auxiliary_coeff hphase row hhigh, if_neg (by omega)]
    rw [h.coeff_eq_of_row_eq_zero (Nat.zero_lt_of_lt ht.objectives_lt_width) hzero hi]
    exact hshows.auxiliary_coeff hphase i hi
  auxiliary_not_mem hphase := by
    rw [h.sameFrame.labels_eq]
    exact hshows.auxiliary_not_mem (h.sameFrame.phase_eq ▸ hphase)

/-- The first phase is left with the column of the auxiliary objective. -/
theorem IsReduction.showsObjectives {t u : Tableau F} (h : t.IsReduction u) (ht : t.Canonical)
    {goal : Goal} (hshows : t.ShowsObjectives goal) : u.ShowsObjectives goal := by
  have hphase : u.phase = .optimality := by rw [h.frame]
  have hrow : u.objectiveRow = 0 := objectiveRow_of_optimality hphase
  have hone : t.objectiveRow = 1 := objectiveRow_of_feasibility h.phase_eq
  have hplace : (keptPositions t.surplus t.width)[0]? = some 1 := by
    rw [ht.keptPositions_surplus h.phase_eq]
    rfl
  have hwidth : 1 < t.width := hone ▸ t.objectiveRow_lt.trans ht.objectives_lt_width
  have hlabel := hshows.objective_label
  have hcoeff := hshows.objective_coeff
  rw [hone] at hlabel hcoeff
  have hgone : u.phase = .feasibility → False := by
    rw [hphase]
    exact nofun
  refine ⟨?_, fun i hi => ?_, fun hfirst => (hgone hfirst).elim, fun hfirst => (hgone hfirst).elim,
    fun _ hmem => ?_⟩
  · apply labelAt_of_getElem?
    rw [hrow, h.labels_eq, getElem?_dropPositions (ht.length_labels ▸ hplace),
      ht.getElem?_labels hwidth, hlabel]
  · have hheight := h.height_eq
    rw [hrow, h.coeff_eq i 0 1 (by omega) hplace, hcoeff (i + 1) (by omega)]
    exact if_congr (by omega) rfl rfl
  · rw [h.labels_eq] at hmem
    obtain ⟨i, hkept, hi⟩ := exists_getElem?_of_mem_dropPositions hmem
    have hzero := ht.getElem?_labels (Nat.zero_lt_of_lt hwidth)
    rw [hshows.auxiliary_label h.phase_eq] at hzero
    have hsame : i = 0 := (List.getElem?_inj (List.getElem?_eq_some_iff.mp hi).1
      ht.nodup_labels).mp (hi.trans hzero.symm)
    exact hkept (hsame ▸ List.mem_cons_self ..)

variable [IsStrictOrderedRing F] {p : Problem F} {s t u : Tableau F}

/-- Every tableau that is reached shows its objectives. -/
theorem IsInitial.showsObjectives_of_evolves (h : s.IsInitial p) (htolerance : 0 ≤ s.tolerance)
    (hevolves : s.Evolves t) : t.ShowsObjectives p.goal := by
  induction hevolves with
  | refl => exact h.showsObjectives
  | tail hreached hstep ih =>
    obtain ⟨ht, _⟩ := h.canonical.evolves htolerance hreached
    rcases hstep with hexchange | hreduces
    · obtain ⟨row, hrow, _, _, _, hpivot⟩ := ht.exists_isPivot hexchange
      exact hpivot.showsObjectives ht.toWellShaped hrow ih
    · rcases ht.eq_or_isReduction hreduces with ⟨rfl, _⟩ | hreduction
      · exact ih
      · exact hreduction.showsObjectives ht ih

/-! ## All records together -/

/-- Labels, basis and columns of a tableau belong together. -/
structure Consistent (goal : Goal) (t : Tableau F) : Prop where
  length_labels : t.labels.length = t.width
  nodup_labels : t.labels.Nodup
  length_basis : t.basis.length = t.constraintRows.length
  basis_subset : t.basis ⊆ t.variableColumns
  nodup_basis : t.basis.Nodup
  basicColumn_eq_iff : ∀ row column,
    t.basicColumn row = .ok column ↔ t.basicRow? column = some row
  /-- A basic column is the unit vector of its row. -/
  basic_entry : ∀ row column, t.basicColumn row = .ok column → ∀ i < t.height,
    t.entry i column = .ok (if i = row then 1 else 0)
  objective_column : ∃ column, t.columnOf? .objective = some column ∧ ∀ i < t.height,
    t.entry i column = .ok (if i = t.objectiveRow then goal.sign else 0)
  auxiliary_column : t.phase = .feasibility → ∃ column, t.columnOf? .auxiliary = some column ∧
    ∀ i < t.height, t.entry i column = .ok (if i = 0 then -1 else 0)
  auxiliary_gone : t.phase = .optimality → t.columnOf? .auxiliary = none

omit [IsStrictOrderedRing F] in
theorem Canonical.basicColumn_eq_iff (h : t.Canonical) {row column : Nat} :
    t.basicColumn row = .ok column ↔ t.basicRow? column = some row := by
  unfold basicColumn
  constructor
  · intro hcolumn
    split at hcolumn
    · cases hcolumn
    · rename_i hlow
      rw [h.basicRow?_eq_some (Fault.fetch_eq_ok_iff.mp hcolumn),
        Nat.add_sub_cancel' (Nat.not_lt.mp hlow)]
  · intro hrow
    obtain ⟨k, rfl, hk⟩ := exists_getElem?_of_basicRow? hrow
    rw [if_neg (Nat.not_lt.mpr (Nat.le_add_right _ _)), Nat.add_sub_cancel_left]
    exact Fault.fetch_eq_ok_iff.mpr hk

omit [IsStrictOrderedRing F] in
theorem Canonical.consistent (h : t.Canonical) {goal : Goal} (hshows : t.ShowsObjectives goal) :
    t.Consistent goal where
  length_labels := h.length_labels
  nodup_labels := h.nodup_labels
  length_basis := by
    have hheight := h.height_eq
    rw [constraintRows, List.length_range']
    omega
  basis_subset := h.basis_mem
  nodup_basis := h.nodup_basis
  basicColumn_eq_iff _ _ := h.basicColumn_eq_iff
  basic_entry row column hcolumn i hi := by
    obtain ⟨k, rfl, hk⟩ := exists_getElem?_of_basicRow? (h.basicColumn_eq_iff.mp hcolumn)
    rw [entry_eq_ok hi (h.basis_lt column (List.mem_of_getElem? hk)), h.unit k column hk i hi]
  objective_column := by
    have hwidth := t.objectiveRow_lt.trans h.objectives_lt_width
    refine ⟨t.objectiveRow, hshows.objective_label ▸ h.columnOf?_labelAt hwidth, fun i hi => ?_⟩
    rw [entry_eq_ok hi hwidth, hshows.objective_coeff i hi]
  auxiliary_column hphase := by
    have hwidth := Nat.zero_lt_of_lt h.objectives_lt_width
    refine ⟨0, hshows.auxiliary_label hphase ▸ h.columnOf?_labelAt hwidth, fun i hi => ?_⟩
    rw [entry_eq_ok hi hwidth, hshows.auxiliary_coeff hphase i hi]
  auxiliary_gone hphase := List.idxOf?_eq_none_iff.mpr (hshows.auxiliary_not_mem hphase)

/-! ## Leaving the first phase -/

omit [IsStrictOrderedRing F] in
theorem Canonical.basicLabel_eq_ok (h : t.Canonical) {k c : Nat} (hk : t.basis[k]? = some c) :
    t.basicLabel (t.objectives + k) = .ok (t.labelAt c) := by
  have hcolumn := h.basicColumn_eq_iff.mpr (h.basicRow?_eq_some hk)
  rw [basicLabel, hcolumn]
  exact h.label_eq_ok (h.basis_lt c (List.mem_of_getElem? hk))

/-- Leaving the first phase removes no basic column, and each row keeps its basic
variable. -/
theorem Canonical.exists_reduce (h : t.Canonical) (htolerance : 0 ≤ t.tolerance) :
    ∃ reduction, t.reduce = .ok reduction ∧ ∀ k < t.basis.length, ∃ label,
      t.basicLabel (t.objectives + k) = .ok label ∧ label ∉ reduction.removed ∧
      reduction.tableau.basicLabel (reduction.tableau.objectives + k) = .ok label := by
  cases hphase : t.phase with
  | optimality =>
    refine ⟨_, reduce_of_optimality hphase, fun k hk => ?_⟩
    have hbasic := h.basicLabel_eq_ok (List.getElem?_eq_getElem hk)
    exact ⟨_, hbasic, List.not_mem_nil, hbasic⟩
  | feasibility =>
    obtain ⟨u, hreduce, hreduction⟩ := h.reduce_spec hphase
    refine ⟨_, hreduce, fun k hk => ?_⟩
    have hcolumn := List.getElem?_eq_getElem hk
    have hstays := IsReduction.mem_staying_of_mem_basis h htolerance (List.getElem_mem hk)
    have hmoved : u.basis[k]? = some (t.renumber t.basis[k]) := by
      rw [hreduction.basis_eq, List.getElem?_map, hcolumn, Option.map_some]
    refine ⟨_, h.basicLabel_eq_ok hcolumn, fun hremoved => ?_, ?_⟩
    · -- Labels are different, so a removed one is that of a surplus column.
      obtain ⟨j, hj, hlabel⟩ := List.mem_map.mp hremoved
      have hsame := h.eq_of_labelAt_eq (lt_width_of_mem_surplus h.objectives_lt_width hj)
        (h.basis_lt _ (List.getElem_mem hk)) hlabel
      exact not_mem_surplus_of_mem_staying hstays (hsame ▸ hj)
    · rw [(hreduction.canonical h htolerance).basicLabel_eq_ok hmoved,
        hreduction.labelAt_renumber h.toWellShaped hstays]

/-! ## The result -/

/-- Whatever pivots were made and whenever the first phase was left, the records of
the tableau belong together, the next pivot can be made, and leaving the first phase
takes no basic column. -/
theorem consistent_of_evolves {tolerance : F} (htolerance : 0 ≤ tolerance)
    (hinitial : Tableau.initial p tolerance = .ok s) (hevolves : s.Evolves t) :
    t.Consistent p.goal ∧
      (∀ row ∈ t.constraintRows, ∀ column ∈ t.variableColumns,
        ∃ u, t.pivot row column = .ok u) ∧
      ∃ reduction, t.reduce = .ok reduction ∧ ∀ k < t.basis.length, ∃ label,
        t.basicLabel (t.objectives + k) = .ok label ∧ label ∉ reduction.removed ∧
        reduction.tableau.basicLabel (reduction.tableau.objectives + k) = .ok label := by
  obtain ⟨rfl, hisInitial⟩ := isInitial_of_initial_eq hinitial
  obtain ⟨ht, hrestates⟩ := hisInitial.canonical.evolves htolerance hevolves
  have hshows := hisInitial.showsObjectives_of_evolves htolerance hevolves
  refine ⟨ht.consistent hshows, fun row hrow column hcolumn => ?_,
    ht.exists_reduce (hrestates.tolerance_eq ▸ htolerance)⟩
  obtain ⟨u, hpivot, _⟩ := ht.pivot_spec hrow (ht.lt_width_of_mem hcolumn)
  exact ⟨u, hpivot⟩

theorem consistent_detour :
    ∃ s t, Tableau.initial detourProblem (1 / 2) = .ok s ∧ s.Evolves t ∧
      t.Consistent detourProblem.goal := by
  obtain ⟨s, t, hinitial, hevolves, _⟩ := exists_evolves_detour
  exact ⟨s, t, hinitial, hevolves, (consistent_of_evolves (by decide +kernel) hinitial hevolves).1⟩

end Tableau

end PrimalSimplex
