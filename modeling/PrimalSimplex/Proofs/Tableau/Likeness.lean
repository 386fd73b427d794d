/-
  `Proofs.Tableau.Likeness`: tableaus that no step tells apart.

  A step of a run looks at the costs and the entries of variable columns, at the
  right hand sides of constraints, and at whether a variable is artificial.  What
  the variables are called otherwise, and what the remaining entries are, makes no
  difference to it.  A likeness says which entries two tableaus share; they have to
  be closed under pivots, because a new entry is made from four old ones.  Between
  tableaus that are alike every rule chooses the same column and the ratio test the
  same row, and after a pivot they are alike again.  No law of arithmetic is used.
-/
import Mathlib.Logic.Equiv.Defs
import PrimalSimplex.Proofs.Matrix.Without
import PrimalSimplex.Proofs.Tableau.Choice
import PrimalSimplex.Proofs.Tableau.Reduction

set_option autoImplicit false

namespace PrimalSimplex

open Column (Label)

/-! ## Likenesses -/

/-- What two tableaus may have in common.  An entry is shared or not depending on
the number of objectives and the column of the right hand sides, which are the same
in both, and on its row and column. -/
structure Likeness where
  /-- What a variable of the first tableau is called in the second one. -/
  rename : Equiv.Perm Label
  isArtificial_rename : ∀ label, (rename label).isArtificial = label.isArtificial
  /-- How the restrictions of the signs compare. -/
  Signs : Bool → Bool → Prop
  Shares : (objectives last i j : Nat) → Prop
  shares_cost : ∀ {objectives last j}, objectives ≤ j → j < last → Shares objectives last 0 j
  shares_bound : ∀ {objectives last i}, objectives ≤ i → Shares objectives last i last
  shares_auxiliary : ∀ {last}, Shares Phase.feasibility.objectives last 0 last
  /-- With an entry, the one below it in each constraint row is shared. -/
  shares_row : ∀ {objectives last i j row}, objectives ≤ row → Shares objectives last i j →
    Shares objectives last row j
  /-- With an entry, the one beside it in each variable column is shared. -/
  shares_column : ∀ {objectives last i j column}, objectives ≤ column → column < last →
    Shares objectives last i j → Shares objectives last i column

/-- Artificial variables that keep their names stay artificial. -/
theorem Likeness.isArtificial_refl (label : Label) :
    (Equiv.refl Label label).isArtificial = label.isArtificial := rfl

/-- What is shared after the first phase was shared before.  Row `i + 1` becomes row
`i`, the column of the objective and that of the right hand sides stay such. -/
def Likeness.Crosses (l : Likeness) : Prop :=
  ∀ {last last' i j j' : Nat}, (j' = 0 ↔ j = 1) → (j' = last' ↔ j = last) →
    l.Shares Phase.optimality.objectives last' i j' →
    l.Shares Phase.feasibility.objectives last (i + 1) j

namespace Tableau

variable {F : Type} [Scalar F]

/-- The second tableau is the first one under other names, as far as entries are
shared. -/
structure Resembles (l : Likeness) (t u : Tableau F) : Prop where
  wellShaped : t.WellShaped
  frame : u = { t with
    matrix := u.matrix
    labels := t.labels.map l.rename
    nonNegative := u.nonNegative }
  height_eq : u.height = t.height
  width_eq : u.width = t.width
  signs : l.Signs t.nonNegative u.nonNegative
  coeff_eq : ∀ i < t.height, ∀ j < t.width, l.Shares t.objectives t.boundColumn i j →
    u.coeff i j = t.coeff i j

namespace Resembles

variable {l : Likeness} {t u : Tableau F}

/-! ## Frames -/

theorem labels_eq (h : t.Resembles l u) : u.labels = t.labels.map l.rename := by rw [h.frame]

theorem basis_eq (h : t.Resembles l u) : u.basis = t.basis := by rw [h.frame]

theorem tolerance_eq (h : t.Resembles l u) : u.tolerance = t.tolerance := by rw [h.frame]

theorem artificials_eq (h : t.Resembles l u) : u.artificials = t.artificials := by rw [h.frame]

theorem phase_eq (h : t.Resembles l u) : u.phase = t.phase := by rw [h.frame]

theorem objectives_eq (h : t.Resembles l u) : u.objectives = t.objectives :=
  congrArg Phase.objectives h.phase_eq

theorem boundColumn_eq (h : t.Resembles l u) : u.boundColumn = t.boundColumn :=
  congrArg (· - 1) h.width_eq

theorem variableColumns_eq (h : t.Resembles l u) : u.variableColumns = t.variableColumns := by
  unfold variableColumns
  rw [h.objectives_eq, h.boundColumn_eq]

theorem constraintRows_eq (h : t.Resembles l u) : u.constraintRows = t.constraintRows := by
  unfold constraintRows
  rw [h.objectives_eq, h.height_eq]

theorem wellShaped_right (h : t.Resembles l u) : u.WellShaped where
  length_labels := by rw [h.labels_eq, List.length_map, h.wellShaped.length_labels, h.width_eq]
  height_eq := by rw [h.height_eq, h.objectives_eq, h.basis_eq, h.wellShaped.height_eq]
  objectives_lt_width := by
    rw [h.objectives_eq, h.width_eq]
    exact h.wellShaped.objectives_lt_width
  basis_lt c hc := by
    rw [h.basis_eq] at hc
    rw [h.width_eq]
    exact h.wellShaped.basis_lt c hc

/-! ## Variables -/

theorem label_eq_map (h : t.Resembles l u) (j : Nat) : u.label j = (t.label j).map l.rename := by
  unfold label Fault.fetch
  rw [h.labels_eq, List.getElem?_map]
  cases t.labels[j]? with
  | none => rfl
  | some label => rfl

theorem labelAt_eq (h : t.Resembles l u) {j : Nat} (hj : j < t.width) :
    u.labelAt j = l.rename (t.labelAt j) := by
  apply labelAt_of_getElem?
  rw [h.labels_eq, List.getElem?_map, h.wellShaped.getElem?_labels hj, Option.map_some]

theorem basicColumn_eq (h : t.Resembles l u) (row : Nat) :
    u.basicColumn row = t.basicColumn row := by
  unfold basicColumn
  rw [h.objectives_eq, h.basis_eq]

theorem basicRow?_eq (h : t.Resembles l u) (j : Nat) : u.basicRow? j = t.basicRow? j := by
  unfold basicRow?
  rw [h.objectives_eq, h.basis_eq]

theorem basicLabel_eq_map (h : t.Resembles l u) (row : Nat) :
    u.basicLabel row = (t.basicLabel row).map l.rename := by
  unfold basicLabel
  rw [h.basicColumn_eq]
  cases t.basicColumn row with
  | error fault => rfl
  | ok column => exact h.label_eq_map column

/-- A variable is found in the column where it was, by its new name. -/
theorem columnOf?_rename (h : t.Resembles l u) (label : Label) :
    u.columnOf? (l.rename label) = t.columnOf? label := by
  unfold columnOf? List.idxOf?
  rw [h.labels_eq, List.findIdx?_map]
  refine congrArg (List.findIdx? · t.labels) (funext fun other => ?_)
  rw [Function.comp_apply, Bool.eq_iff_iff, beq_iff_eq, beq_iff_eq]
  exact l.rename.injective.eq_iff

/-! ## Entries -/

theorem cost_eq (h : t.Resembles l u) {j : Nat} (hj : j ∈ t.variableColumns) :
    u.coeff 0 j = t.coeff 0 j := by
  obtain ⟨hlow, hhigh⟩ := mem_variableColumns.mp hj
  exact h.coeff_eq 0 h.wellShaped.height_pos j (h.wellShaped.lt_width_of_mem hj)
    (l.shares_cost hlow hhigh)

theorem entry_eq (h : t.Resembles l u) {i j : Nat} (hi : i ∈ t.constraintRows)
    (hj : j ∈ t.variableColumns) : u.coeff i j = t.coeff i j := by
  obtain ⟨hconstraint, hheight⟩ := mem_constraintRows.mp hi
  obtain ⟨hlow, hhigh⟩ := mem_variableColumns.mp hj
  exact h.coeff_eq i hheight j (h.wellShaped.lt_width_of_mem hj)
    (l.shares_row hconstraint (l.shares_cost hlow hhigh))

theorem bound_eq (h : t.Resembles l u) {i : Nat} (hi : i ∈ t.constraintRows) :
    u.coeff i u.boundColumn = t.coeff i t.boundColumn := by
  obtain ⟨hconstraint, hheight⟩ := mem_constraintRows.mp hi
  rw [h.boundColumn_eq]
  exact h.coeff_eq i hheight _ h.wellShaped.boundColumn_lt (l.shares_bound hconstraint)

/-- The value of the auxiliary objective is shared while it is there. -/
theorem auxiliaryValue_eq (h : t.Resembles l u) (hphase : t.phase = .feasibility) :
    u.auxiliaryValue = t.auxiliaryValue := by
  have hobjectives : t.objectives = Phase.feasibility.objectives :=
    congrArg Phase.objectives hphase
  have hshares : l.Shares t.objectives t.boundColumn 0 t.boundColumn := by
    rw [hobjectives]
    exact l.shares_auxiliary
  unfold auxiliaryValue
  rw [h.wellShaped.bound_eq_ok h.wellShaped.height_pos,
    h.wellShaped_right.bound_eq_ok h.wellShaped_right.height_pos, h.boundColumn_eq,
    h.coeff_eq 0 h.wellShaped.height_pos _ h.wellShaped.boundColumn_lt hshares]

/-! ## Choices -/

/-- Every rule chooses the same column. -/
theorem select_eq (h : t.Resembles l u) (s : Selector) : s.select u = s.select t := by
  have hcolumns : u.profitableColumns = t.profitableColumns := by
    rw [profitableColumns_eq_ok h.wellShaped.height_pos,
      profitableColumns_eq_ok h.wellShaped_right.height_pos, h.variableColumns_eq, h.tolerance_eq]
    refine congrArg (fun costs => Except.ok (List.filter _ costs)) ?_
    exact List.map_congr_left fun j hj => by rw [h.cost_eq hj]
  unfold Selector.select
  rw [hcolumns]

theorem ratios_eq (h : t.Resembles l u) {j : Nat} (hj : j ∈ t.variableColumns) :
    u.ratios j = t.ratios j := by
  have hlimits : (t.constraintRows.filter fun i => Scalar.isPositive (u.coeff i j) t.tolerance) =
      t.constraintRows.filter fun i => Scalar.isPositive (t.coeff i j) t.tolerance :=
    List.filter_congr fun i hi => by rw [h.entry_eq hi hj]
  unfold ratios
  rw [h.constraintRows_eq, h.tolerance_eq, hlimits]
  refine List.map_congr_left fun i hi => ?_
  have hrow := (List.mem_filter.mp hi).1
  rw [h.entry_eq hrow hj, h.bound_eq hrow]

/-- The ratio test chooses the same row. -/
theorem leavingRow?_eq (h : t.Resembles l u) {j : Nat} (hj : j ∈ t.variableColumns) :
    u.leavingRow? j = t.leavingRow? j := by
  have hwidth := h.wellShaped.lt_width_of_mem hj
  have hcandidates : u.candidateRows j = t.candidateRows j := by
    refine (h.wellShaped_right.candidateRows_eq_ok (h.width_eq.symm ▸ hwidth)).trans ?_
    exact (congrArg Except.ok (h.ratios_eq hj)).trans (h.wellShaped.candidateRows_eq_ok hwidth).symm
  have hartificial : (fun row => do return (← u.basicLabel row).isArtificial :
      Nat → Except Fault Bool) = fun row => do return (← t.basicLabel row).isArtificial := by
    funext row
    rw [h.basicLabel_eq_map]
    cases t.basicLabel row with
    | error fault => rfl
    | ok label => exact congrArg Except.ok (l.isArtificial_rename label)
  unfold leavingRow?
  rw [hcandidates, h.tolerance_eq, h.artificials_eq, hartificial]

/-! ## Pivots -/

/-- After the same pivot the tableaus are alike again. -/
theorem exists_pivot (h : t.Resembles l u) {row column : Nat} (hrow : row ∈ t.constraintRows)
    (hcolumn : column ∈ t.variableColumns) :
    ∃ t' u', t.pivot row column = .ok t' ∧ u.pivot row column = .ok u' ∧ t'.Resembles l u' ∧
      t'.phase = t.phase := by
  have hwidth := h.wellShaped.lt_width_of_mem hcolumn
  obtain ⟨hlow, hhigh⟩ := mem_variableColumns.mp hcolumn
  obtain ⟨hconstraint, hheight⟩ := mem_constraintRows.mp hrow
  obtain ⟨t', ht', hreplaces, hcoeff⟩ := h.wellShaped.exists_pivot hrow hwidth
  obtain ⟨u', hu', hreplaces', hcoeff'⟩ := h.wellShaped_right.exists_pivot
    (h.constraintRows_eq.symm ▸ hrow) (h.width_eq.symm ▸ hwidth)
  refine ⟨t', u', ht', hu', ⟨hreplaces.wellShaped h.wellShaped hwidth, ?_, ?_, ?_, ?_, ?_⟩,
    hreplaces.sameFrame.phase_eq⟩
  · rw [hreplaces'.frame, hreplaces.frame, h.objectives_eq, h.frame]
  · rw [hreplaces'.height_eq, h.height_eq, hreplaces.height_eq]
  · rw [hreplaces'.width_eq, h.width_eq, hreplaces.width_eq]
  · rw [hreplaces.sameFrame.nonNegative_eq, hreplaces'.sameFrame.nonNegative_eq]
    exact h.signs
  · intro i hi j hj hshares
    rw [hreplaces.height_eq] at hi
    rw [hreplaces.width_eq] at hj
    rw [hreplaces.sameFrame.objectives_eq, hreplaces.sameFrame.boundColumn_eq] at hshares
    -- The new entry is made from these four.
    rw [hcoeff i hi j hj, hcoeff' i (h.height_eq.symm ▸ hi) j (h.width_eq.symm ▸ hj),
      h.coeff_eq i hi j hj hshares,
      h.coeff_eq i hi column hwidth (l.shares_column hlow hhigh hshares),
      h.coeff_eq row hheight j hj (l.shares_row hconstraint hshares), h.entry_eq hrow hcolumn]

/-! ## Leaving the first phase -/

/-- The same columns go. -/
theorem surplus_eq (h : t.Resembles l u) : u.surplus = t.surplus := by
  unfold surplus
  rw [h.variableColumns_eq]
  refine congrArg (0 :: ·) (List.filter_congr fun j hj => ?_)
  unfold isSurplusAt
  rw [h.cost_eq hj, h.tolerance_eq, h.basicRow?_eq,
    h.labelAt_eq (h.wellShaped.lt_width_of_mem hj), l.isArtificial_rename]

theorem renumber_eq (h : t.Resembles l u) : u.renumber = t.renumber := by
  funext j
  unfold renumber
  rw [h.surplus_eq]

/-- The same variables go. -/
theorem map_labelAt_surplus (h : t.Resembles l u) :
    u.surplus.map u.labelAt = (t.surplus.map t.labelAt).map l.rename := by
  rw [h.surplus_eq, List.map_map]
  refine List.map_congr_left fun j hj => h.labelAt_eq ?_
  exact lt_width_of_mem_surplus h.wellShaped.objectives_lt_width hj

theorem isReduction (h : t.Resembles l u) (hcrosses : l.Crosses) {t' u' : Tableau F}
    (ht : t.IsReduction t') (hu : u.IsReduction u') : t'.Resembles l u' := by
  have hwidth : u'.width = t'.width := by
    rw [hu.width_eq, ht.width_eq, h.surplus_eq, h.width_eq]
  have hheight : u'.height = t'.height := by
    have hbefore := ht.height_eq
    have hbefore' := hu.height_eq
    have hsame := h.height_eq
    omega
  refine ⟨ht.wellShaped h.wellShaped, ?_, hheight, hwidth, ?_, fun i hi j hj hshares => ?_⟩
  · rw [hu.frame, ht.frame, h.labels_eq, dropPositions_map, h.surplus_eq, h.renumber_eq, h.frame]
  · rw [ht.frame, hu.frame]
    exact h.signs
  · have hkept : j < (keptPositions t.surplus t.width).length := ht.width_eq ▸ hj
    have hplace := List.getElem?_eq_getElem hkept
    generalize (keptPositions t.surplus t.width)[j] = old at hplace
    have hheight' := ht.height_eq
    have hbelow : i + 1 < t.height := by omega
    have hold : old < t.width := (mem_keptPositions.mp (List.mem_of_getElem? hplace)).1
    -- A position is that of one column only, so the first and the last column stay such.
    have hunique : ∀ {k c : Nat}, (keptPositions t.surplus t.width)[k]? = some c →
        (j = k ↔ old = c) := by
      intro k c hk
      constructor
      · rintro rfl
        exact Option.some.inj (hplace.symm.trans hk)
      · rintro rfl
        exact (renumber_eq_of_getElem? hplace).symm.trans (renumber_eq_of_getElem? hk)
    have hfirst : (keptPositions t.surplus t.width)[0]? = some 1 := by
      rw [h.wellShaped.keptPositions_surplus ht.phase_eq]
      rfl
    have hlast : (keptPositions t.surplus t.width)[t'.boundColumn]? = some t.boundColumn := by
      rw [h.wellShaped.keptPositions_surplus ht.phase_eq, ht.boundColumn_eq h.wellShaped,
        List.getElem?_cons_succ, List.getElem?_append_right (Nat.le_refl _), Nat.sub_self]
      rfl
    rw [ht.objectives_eq] at hshares
    have hshared := hcrosses (hunique hfirst) (hunique hlast) hshares
    rw [ht.coeff_eq i j old hbelow hplace, hu.coeff_eq i j old (h.height_eq.symm ▸ hbelow)
      (by rw [h.surplus_eq, h.width_eq]; exact hplace)]
    refine h.coeff_eq (i + 1) hbelow old hold ?_
    rw [ht.objectives_eq_two]
    exact hshared

/-- Leaving the first phase, tableaus stay alike. -/
theorem exists_reduce (h : t.Resembles l u) (hcrosses : l.Crosses) :
    ∃ r r', t.reduce = .ok r ∧ u.reduce = .ok r' ∧ r.tableau.Resembles l r'.tableau ∧
      r'.removed = r.removed.map l.rename := by
  cases hphase : t.phase with
  | optimality =>
    refine ⟨⟨t, []⟩, ⟨u, []⟩, ?_, ?_, h, rfl⟩
    · rw [reduce, hphase]
      rfl
    · rw [reduce, h.phase_eq, hphase]
      rfl
  | feasibility =>
    obtain ⟨t', ht', hreduction⟩ := h.wellShaped.reduce_spec hphase
    obtain ⟨u', hu', hreduction'⟩ := h.wellShaped_right.reduce_spec (h.phase_eq.trans hphase)
    exact ⟨_, _, ht', hu', h.isReduction hcrosses hreduction hreduction', h.map_labelAt_surplus⟩

/-! ## Basic solutions -/

/-- A variable has the same value under its new name. -/
theorem basicValue_rename (h : t.Resembles l u) (label : Label) :
    u.basicValue (l.rename label) = t.basicValue label := by
  have hrows : u.basicRow? = t.basicRow? := funext h.basicRow?_eq
  unfold basicValue basicAssignment
  rw [h.columnOf?_rename, hrows]
  cases hrow : t.columnOf? label >>= t.basicRow? with
  | none => rfl
  | some row =>
    obtain ⟨column, _, hbasic⟩ := Option.bind_eq_some_iff.mp hrow
    obtain ⟨k, rfl, hk⟩ := exists_getElem?_of_basicRow? hbasic
    exact h.bound_eq (h.wellShaped.mem_constraintRows_of_getElem? hk)

end Resembles

end Tableau

end PrimalSimplex
