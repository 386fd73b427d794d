/-
  `Proofs.Tableau.Pivot`: what a pivot does to a tableau over exact numbers.

  A pivot divides a constraint row and subtracts multiples of it from all other
  rows.  Where the divisor is not zero both can be undone, so the equations before
  and after have the same solutions; and since the subtracted row is an equation
  that holds, the objectives of a solution do not change.  The entering column
  becomes the unit vector of the row.  The other basic columns are zero in that
  row, and so stay what they were.
-/
import Mathlib.Algebra.BigOperators.Field
import PrimalSimplex.Proofs.Tableau.Canonical

set_option autoImplicit false

namespace PrimalSimplex.Tableau

open Column (Label)

variable {F : Type} [Field F] [LinearOrder F]

/-- The second tableau is the first one after a pivot. -/
structure IsPivot (t : Tableau F) (row column : Nat) (u : Tableau F) : Prop extends
    Replaces t row column u where
  coeff_eq : ∀ i < t.height, ∀ j < t.width, u.coeff i j =
    if i = row then t.coeff row j / t.coeff row column
    else t.coeff i j - t.coeff i column * (t.coeff row j / t.coeff row column)

/-- A pivot in a constraint row succeeds. -/
theorem WellShaped.pivot_spec {t : Tableau F} (h : t.WellShaped) {row column : Nat}
    (hrow : row ∈ t.constraintRows) (hcolumn : column < t.width) :
    ∃ u, t.pivot row column = .ok u ∧ t.IsPivot row column u := by
  obtain ⟨u, hpivot, hreplaces, hcoeff⟩ := h.exists_pivot hrow hcolumn
  refine ⟨u, hpivot, hreplaces, fun i hi j hj => ?_⟩
  rw [hcoeff i hi j hj]
  split
  · rfl
  · -- A row without the entering variable loses a multiple of zero.
    split
    · rename_i hskip
      have hzero : t.coeff i column = 0 := Scalar.isEq_iff.mp hskip
      rw [hzero, zero_mul, sub_zero]
    · rfl

/-- What is reached by a pivot is determined by it. -/
theorem WellShaped.isPivot_of_pivot_eq {t u : Tableau F} (h : t.WellShaped) {row column : Nat}
    (hrow : row ∈ t.constraintRows) (hcolumn : column < t.width)
    (hpivot : t.pivot row column = .ok u) : t.IsPivot row column u := by
  obtain ⟨v, hv, hspec⟩ := h.pivot_spec hrow hcolumn
  obtain rfl : u = v := Except.ok.inj (hpivot.symm.trans hv)
  exact hspec

namespace IsPivot

variable {t u : Tableau F} {row column : Nat}

theorem unknowns_eq (h : t.IsPivot row column u) : u.unknowns = t.unknowns := by
  unfold unknowns
  rw [h.sameFrame.variableColumns_eq]
  exact List.map_congr_left fun j _ => h.sameFrame.labelAt_eq j

theorem objectiveRow_eq (h : t.IsPivot row column u) : u.objectiveRow = t.objectiveRow :=
  congrArg (· - 1) h.sameFrame.objectives_eq

/-! ## Equations -/

/-- The left hand sides change as the entries do. -/
theorem lhs_eq (h : t.IsPivot row column u) (hwidth : t.boundColumn < t.width) {i : Nat}
    (hi : i < t.height) (x : Label → F) :
    u.lhs i x = if i = row then t.lhs row x / t.coeff row column
      else t.lhs i x - t.coeff i column * (t.lhs row x / t.coeff row column) := by
  have hentry : ∀ j ∈ Finset.Ico t.objectives t.boundColumn, u.coeff i j * x (u.labelAt j) =
      if i = row then t.coeff row j * x (t.labelAt j) / t.coeff row column
      else t.coeff i j * x (t.labelAt j)
        - t.coeff i column * (t.coeff row j * x (t.labelAt j) / t.coeff row column) := by
    intro j hj
    rw [h.coeff_eq i hi j ((Finset.mem_Ico.mp hj).2.trans hwidth), h.sameFrame.labelAt_eq]
    split <;> ring
  rw [lhs_eq_sum, h.sameFrame.objectives_eq, h.sameFrame.boundColumn_eq,
    Finset.sum_congr rfl hentry]
  split
  · rw [← Finset.sum_div, lhs_eq_sum]
  · rw [Finset.sum_sub_distrib, ← Finset.mul_sum, ← Finset.sum_div, lhs_eq_sum, lhs_eq_sum]

/-- So do the residuals, since the right hand sides are entries. -/
theorem residual_eq (h : t.IsPivot row column u) (hwidth : t.boundColumn < t.width) {i : Nat}
    (hi : i < t.height) (x : Label → F) :
    u.residual i x = if i = row then t.residual row x / t.coeff row column
      else t.residual i x - t.coeff i column * (t.residual row x / t.coeff row column) := by
  unfold residual
  rw [h.lhs_eq hwidth hi, h.sameFrame.boundColumn_eq, h.coeff_eq i hi _ hwidth]
  split <;> ring

theorem solves_iff (h : t.IsPivot row column u) (hwidth : t.boundColumn < t.width)
    (hrow : row ∈ t.constraintRows) (hne : t.coeff row column ≠ 0) (x : Label → F) :
    u.Solves x ↔ t.Solves x := by
  have hrowLt := (mem_constraintRows.mp hrow).2
  have hpivotRow : u.residual row x = t.residual row x / t.coeff row column := by
    rw [h.residual_eq hwidth hrowLt, if_pos rfl]
  constructor
  · intro hsolves i hi
    have hrowZero : t.residual row x = 0 := by
      have hzero := hsolves.residual_eq_zero (h.sameFrame.constraintRows_eq ▸ hrow)
      rw [hpivotRow, div_eq_zero_iff] at hzero
      exact hzero.resolve_right hne
    have hzero := hsolves.residual_eq_zero (h.sameFrame.constraintRows_eq ▸ hi)
    rw [h.residual_eq hwidth (mem_constraintRows.mp hi).2, hrowZero, zero_div, mul_zero,
      sub_zero] at hzero
    by_cases hir : i = row
    · exact hir ▸ sub_eq_zero.mp hrowZero
    · rw [if_neg hir] at hzero
      exact sub_eq_zero.mp hzero
  · intro hsolves i hi
    rw [h.sameFrame.constraintRows_eq] at hi
    apply sub_eq_zero.mp
    change u.residual i x = 0
    rw [h.residual_eq hwidth (mem_constraintRows.mp hi).2, hsolves.residual_eq_zero hrow,
      hsolves.residual_eq_zero hi, zero_div, mul_zero, sub_zero, ite_self]

/-- An objective says the same of a solution before and after. -/
theorem residual_objective_eq (h : t.IsPivot row column u) (hwidth : t.boundColumn < t.width)
    (hrow : row ∈ t.constraintRows) {x : Label → F} (hsolves : t.Solves x) {i : Nat}
    (hi : i < t.objectives) : u.residual i x = t.residual i x := by
  obtain ⟨hlow, hhigh⟩ := mem_constraintRows.mp hrow
  have hne : i ≠ row := by omega
  rw [h.residual_eq hwidth (by omega), if_neg hne, hsolves.residual_eq_zero hrow, zero_div,
    mul_zero, sub_zero]

/-- A pivot restates the tableau. -/
theorem restates (h : t.IsPivot row column u) (hwidth : t.boundColumn < t.width)
    (hrow : row ∈ t.constraintRows) (hne : t.coeff row column ≠ 0) : t.Restates u where
  unknowns_subset := fun _ hl => h.unknowns_eq ▸ hl
  solves_iff x _ := h.solves_iff hwidth hrow hne x
  objective_eq x _ hsolves := by
    rw [h.objectiveRow_eq]
    exact h.residual_objective_eq hwidth hrow ((h.solves_iff hwidth hrow hne x).mp hsolves)
      t.objectiveRow_lt
  auxiliary_eq hphase := by
    refine ⟨h.sameFrame.phase_eq ▸ hphase, fun x _ hsolves => ?_⟩
    exact h.residual_objective_eq hwidth hrow ((h.solves_iff hwidth hrow hne x).mp hsolves)
      t.objectives_pos
  nonNegative_eq := h.sameFrame.nonNegative_eq
  tolerance_eq := h.sameFrame.tolerance_eq

/-! ## Shape -/

/-- A column that is zero in the pivot row stays what it was. -/
theorem coeff_eq_of_row_eq_zero (h : t.IsPivot row column u) {j : Nat} (hj : j < t.width)
    (hzero : t.coeff row j = 0) {i : Nat} (hi : i < t.height) : u.coeff i j = t.coeff i j := by
  rw [h.coeff_eq i hi j hj, hzero, zero_div, mul_zero, sub_zero]
  split
  · rename_i hrow
    rw [hrow, hzero]
  · rfl

/-- The entering column is the unit vector of the pivot row, and the columns that
stay basic are zero in that row. -/
theorem canonical (h : t.IsPivot row column u) (ht : t.Canonical) (hrow : row ∈ t.constraintRows)
    (hcolumn : column ∈ t.variableColumns) (hne : t.coeff row column ≠ 0) : u.Canonical where
  toWellShaped := h.wellShaped ht.toWellShaped (ht.lt_width_of_mem hcolumn)
  nodup_labels := by
    rw [h.sameFrame.labels_eq]
    exact ht.nodup_labels
  basis_mem c hc := by
    rw [h.sameFrame.variableColumns_eq]
    rw [h.basis_eq] at hc
    obtain hc | rfl := List.mem_or_eq_of_mem_set hc
    · exact ht.basis_mem c hc
    · exact hcolumn
  unit k c hk i hi := by
    rw [h.height_eq] at hi
    rw [h.sameFrame.objectives_eq]
    rw [h.basis_eq, List.getElem?_set] at hk
    obtain ⟨hlow, hhigh⟩ := mem_constraintRows.mp hrow
    have hheight := ht.height_eq
    by_cases hkr : row - t.objectives = k
    · rw [if_pos hkr, if_pos (by omega)] at hk
      obtain rfl : column = c := Option.some.inj hk
      have hrowEq : row = t.objectives + k := by omega
      rw [h.coeff_eq i hi column (ht.lt_width_of_mem hcolumn), div_self hne, mul_one, sub_self,
        hrowEq]
    · rw [if_neg hkr] at hk
      have hzero : t.coeff row c = 0 := by
        rw [ht.unit k c hk row hhigh, if_neg (by omega)]
      rw [h.coeff_eq_of_row_eq_zero (ht.basis_lt c (List.mem_of_getElem? hk)) hzero hi,
        ht.unit k c hk i hi]

end IsPivot

end PrimalSimplex.Tableau
