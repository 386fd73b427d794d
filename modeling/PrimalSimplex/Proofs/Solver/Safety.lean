/-
  `Proofs.Solver.Safety`: nothing is addressed that is not there.

  Rounding, overflow and NaN may lead a run anywhere: to a pivot on a NaN, or to the
  removal of a column that is basic.  What a run may address does not depend on the
  numbers, but only on the sizes of labels, basis and matrix.  These fit together in
  the initial tableau, and every step keeps that.  So for every input, and for scalars
  of which nothing is known, all operations stay inside of their tableau.

  Assertions that a debugging build makes on the way, such as that a pivot is not near
  zero or that no right hand side is negative, are not operations of the solver here.
  Under rounding they can fail, so what is stated is about builds that do not make them.
-/
import PrimalSimplex.Proofs.Solver.Visited
import PrimalSimplex.Proofs.Tableau.Assembly
import PrimalSimplex.Proofs.Tableau.Removal

set_option autoImplicit false

namespace PrimalSimplex

/-- Operations that all succeed do so one after another. -/
theorem Fault.exists_mapM_eq_ok {α β : Type} {f : α → Except Fault β} {elements : List α}
    (h : ∀ a ∈ elements, ∃ b, f a = .ok b) : ∃ results, elements.mapM f = .ok results := by
  induction elements with
  | nil => exact ⟨[], rfl⟩
  | cons a rest ih =>
    obtain ⟨b, hb⟩ := h a (List.mem_cons_self ..)
    obtain ⟨results, hresults⟩ := ih fun c hc => h c (List.mem_cons_of_mem _ hc)
    refine ⟨b :: results, ?_⟩
    rw [List.mapM_cons, hb, hresults]
    rfl

namespace Tableau

variable {F : Type} [Scalar F] [DecimalText F]

/-! ## Tableaus -/

/-- Every operation on the tableau finds what it addresses, and gives an answer that
the next one can use. -/
structure Safe (t : Tableau F) : Prop where
  length_labels : t.labels.length = t.width
  length_row : ∀ row ∈ t.matrix.rows, row.length = t.width
  basis_lt : ∀ column ∈ t.basis, column < t.width
  /-- There is a column for every objective, and one of right hand sides. -/
  objectives_lt : t.objectives < t.width
  entry : ∀ i < t.height, ∀ j < t.width, ∃ x, t.entry i j = .ok x
  select : ∀ selector : Selector, ∃ chosen next, selector.select t = .ok (chosen, next) ∧
    ∀ column, chosen = some column → column ∈ t.variableColumns
  leave : ∀ column ∈ t.variableColumns, ∃ chosen, t.leavingRow? column = .ok chosen ∧
    ∀ row, chosen = some row → row ∈ t.constraintRows
  /-- A pivot can be made row by row, and no row is subtracted from itself. -/
  pivot : ∀ row ∈ t.constraintRows, ∀ column ∈ t.variableColumns,
    t.objectives ≤ row ∧ row - t.objectives < t.basis.length ∧
      ∃ matrix, t.matrix.eliminate row column = .ok matrix ∧ t.pivot row column =
        .ok { t with matrix := matrix, basis := t.basis.set (row - t.objectives) column }
  reduce : ∃ reduction, t.reduce = .ok reduction
  /-- No more columns are removed than there are, in all and before a basic one. -/
  shift : ∃ surplus, t.surplusColumns = .ok surplus ∧
    surplus.length + (keptPositions surplus t.width).length = t.width ∧
    ∀ column ∈ t.basis,
      surplus.countP (· < column) + (keptPositions surplus column).length = column
  /-- So the first phase can be left in place, by any function that removes positions. -/
  cutDown : t.phase = .feasibility → ∃ u removed, t.reduce = .ok ⟨u, removed⟩ ∧
    ∀ remove : (α : Type) → List Nat → List α → List α, (∀ α, Rows.Removes (remove α)) →
      t.cutDown remove = .ok ⟨u.matrix.rows, u.labels, u.basis, removed⟩
  solution : ∀ objective : Objective F, ∃ solution, t.solution objective = .ok solution
  render : ∃ text, t.render = .ok text

variable {t u : Tableau F}

omit [Scalar F] in
/-- A well-shaped tableau can be written down. -/
theorem WellShaped.exists_render (h : t.WellShaped) : ∃ text, t.render = .ok text := by
  have hrows : ∀ row ∈ List.range t.height, ∃ text, t.renderRow .standard row = .ok text := by
    intro row hrow
    have hheight := List.mem_range.mp hrow
    have hlabel : ∃ label, t.rowLabel row = .ok label := by
      unfold rowLabel
      split
      · rename_i hobjective
        exact ⟨_, h.label_eq_ok (Nat.lt_trans hobjective h.objectives_lt_width)⟩
      · rename_i hconstraint
        exact h.exists_basicLabel (mem_constraintRows.mpr ⟨Nat.le_of_not_lt hconstraint, hheight⟩)
    obtain ⟨label, hlabel⟩ := hlabel
    have hnumbers : t.matrix.row row = .ok t.matrix.rows[row] := Fault.fetch_of_lt hheight
    unfold renderRow
    rw [hlabel, hnumbers]
    exact ⟨_, rfl⟩
  obtain ⟨texts, htexts⟩ := Fault.exists_mapM_eq_ok hrows
  exact ⟨_, Fault.bind_eq_ok_iff.mpr ⟨texts, htexts, rfl⟩⟩

omit [DecimalText F] in
theorem WellShaped.pivot_eq_eliminate (h : t.WellShaped) {row column : Nat}
    (hrow : row ∈ t.constraintRows) (hcolumn : column < t.width) :
    ∃ matrix, t.matrix.eliminate row column = .ok matrix ∧ t.pivot row column =
      .ok { t with matrix := matrix, basis := t.basis.set (row - t.objectives) column } := by
  obtain ⟨basic, _, hbasic⟩ := h.exists_basic hrow
  have hheight := (mem_constraintRows.mp hrow).2
  obtain ⟨matrix, hmatrix, _⟩ := Matrix.pivot_spec hheight hcolumn
  refine ⟨matrix, (Matrix.eliminate_eq_pivot hheight hcolumn).trans hmatrix, ?_⟩
  unfold pivot
  rw [hbasic, hmatrix]
  rfl

/-- Sizes that fit together are all that is needed. -/
theorem WellShaped.safe (h : t.WellShaped) : t.Safe where
  length_labels := h.length_labels
  length_row := t.matrix.length_of_mem
  basis_lt := h.basis_lt
  objectives_lt := h.objectives_lt_width
  entry i hi j hj := ⟨_, entry_eq_ok hi hj⟩
  select selector := by
    obtain ⟨chosen, next, hselect, hprofitable, _⟩ := h.select_spec selector
    exact ⟨chosen, next, hselect, fun column hcolumn => (hprofitable column hcolumn).1⟩
  leave column hcolumn := by
    have hwidth := h.lt_width_of_mem hcolumn
    obtain ⟨chosen, hchosen, _⟩ := h.leavingRow_spec hwidth
    refine ⟨chosen, hchosen, fun row hrow => ?_⟩
    exact h.mem_constraintRows_of_leavingRow? hwidth (hrow ▸ hchosen)
  pivot row hrow column hcolumn := by
    obtain ⟨hlow, hhigh⟩ := mem_constraintRows.mp hrow
    have hheight := h.height_eq
    exact ⟨hlow, by omega, h.pivot_eq_eliminate hrow (h.lt_width_of_mem hcolumn)⟩
  reduce := by
    cases hphase : t.phase with
    | optimality =>
      refine ⟨⟨t, []⟩, ?_⟩
      rw [Tableau.reduce, hphase]
      rfl
    | feasibility =>
      obtain ⟨u, hu, _⟩ := h.reduce_spec hphase
      exact ⟨_, hu⟩
  shift := by
    have hpositions := t.arePositions_surplus h.objectives_lt_width
    obtain ⟨hpairwise, hall⟩ := Bool.and_eq_true_iff.mp hpositions
    have hnodup : t.surplus.Nodup :=
      (of_decide_eq_true hpairwise).imp fun hlt => Nat.ne_of_lt hlt
    refine ⟨t.surplus, h.surplusColumns_eq_ok, ?_,
      fun column _ => countP_add_length_keptPositions hnodup column⟩
    have hcount := countP_add_length_keptPositions hnodup t.width
    rwa [List.countP_eq_length.mpr (List.all_eq_true.mp hall)] at hcount
  cutDown hphase := by
    obtain ⟨u, hu, _⟩ := h.reduce_spec hphase
    exact ⟨u, _, hu, fun _ hremove => h.cutDown_eq_ok hphase hu hremove⟩
  solution objective := ⟨_, h.solution_eq_ok objective⟩
  render := h.exists_render

omit [DecimalText F] in
/-- No step of a run changes sizes so that they no longer fit. -/
theorem WellShaped.advances (h : t.WellShaped) (hstep : t.Advances u) : u.WellShaped := by
  cases hstep with
  | exchange hcolumn hrow hpivot =>
    have hwidth := h.lt_width_of_mem hcolumn.1
    have hconstraint := h.mem_constraintRows_of_leavingRow? hwidth hrow
    exact (h.replaces_of_pivot_eq hconstraint hwidth hpivot).wellShaped h hwidth
  | leave hphase _ _ _ hreduce => exact (h.isReduction_of_reduce_eq hphase hreduce).wellShaped h
  | begin _ => exact h

end Tableau

/-! ## Runs -/

section Runs

variable {F : Type} [Scalar F]

theorem Solving.wellShaped_of_visited {p : Problem F} {settings : Settings F} {report : Report F}
    (h : Solving p settings report) : ∀ t ∈ visited report.journal, t.WellShaped :=
  h.forall_visited
    (fun _ hinitial => (Tableau.isInitial_of_initial_eq hinitial).2.wellShaped)
    fun _ _ hstep ht => ht.advances hstep

variable [DecimalText F]

omit [Scalar F] in
/-- An event can be told if its tableau can be written down. -/
theorem Event.exists_line {e : Event F}
    (h : ∀ t, e.tableau? = some t → ∃ text, t.render = .ok text) :
    ∃ line, e.line = .ok line := by
  have hmessage : ∃ text, e.message = .ok text := by
    cases e with
    | reached t => exact h t rfl
    | started _ _ _ _ => exact ⟨_, rfl⟩
    | feasibilityStarted _ => exact ⟨_, rfl⟩
    | exchanged _ _ _ _ => exact ⟨_, rfl⟩
    | feasibilityDone _ => exact ⟨_, rfl⟩
    | infeasible _ => exact ⟨_, rfl⟩
    | removed _ => exact ⟨_, rfl⟩
    | optimalityStarted _ => exact ⟨_, rfl⟩
    | optimalityDone _ => exact ⟨_, rfl⟩
    | optimum _ _ => exact ⟨_, rfl⟩
  obtain ⟨text, htext⟩ := hmessage
  exact ⟨_, Fault.bind_eq_ok_iff.mpr ⟨text, htext, rfl⟩⟩

omit [Scalar F] in
theorem exists_logLines (level : Level) {journal : List (Event F)}
    (h : ∀ t ∈ visited journal, t.WellShaped) : ∃ lines, logLines level journal = .ok lines := by
  refine Fault.exists_mapM_eq_ok fun e he => Event.exists_line fun t ht => ?_
  have hvisited : t ∈ visited journal :=
    List.mem_filterMap.mpr ⟨e, (List.mem_filter.mp he).1, ht⟩
  exact (h t hvisited).exists_render

namespace Solver

/-- A solver never addresses anything that is not there.  It answers every problem, it
can tell what it did, and its tableaus are safe, the first one already before it is
known whether its numbers are finite. -/
theorem optimize_safe (s : Solver F) (p : Problem F) :
    ∃ report, s.optimize p = .ok (report, { s with iterations := report.iterations }) ∧
      (p.defects s.settings.tolerance = [] → ∃ initial,
        Tableau.initial p.standardize s.settings.tolerance = .ok initial ∧ initial.Safe ∧
        p.standardize.assemble = .ok initial.matrix) ∧
      (∀ t ∈ visited report.journal, t.Safe) ∧
      ∀ level, ∃ lines, logLines level report.journal = .ok lines := by
  obtain ⟨report, hanswer, hsolving⟩ := s.optimize_spec p
  have hshapes := hsolving.wellShaped_of_visited
  refine ⟨report, hanswer, fun hdefects => ?_, fun t ht => (hshapes t ht).safe,
    fun level => exists_logLines level hshapes⟩
  obtain ⟨initial, hinitial⟩ := Problem.exists_initial_of_defects_eq_nil hdefects
  have hisInitial := (Tableau.isInitial_of_initial_eq hinitial).2
  exact ⟨initial, hinitial, hisInitial.wellShaped.safe,
    Tableau.assemble_eq_of_initial_eq hinitial⟩

end Solver

end Runs

end PrimalSimplex
