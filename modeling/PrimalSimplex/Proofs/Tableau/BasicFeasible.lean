/-
  `Proofs.Tableau.BasicFeasible`: tableaus whose basic solution is feasible.

  Initial tableaus are such when no bound is below zero.  The ratio test picks the
  row that reaches zero first, and so keeps every right hand side nonnegative;
  leaving the first phase does not touch them.  Where no column is profitable, row
  0 has no negative cost, and no nonnegative solution is better than the basic one.
  Where a profitable column is limited by no row, its ray is nonnegative as far as
  it goes.
-/
import Mathlib.Algebra.Order.BigOperators.Group.Finset
import PrimalSimplex.Proofs.Tableau.Choice
import PrimalSimplex.Proofs.Tableau.Initial
import PrimalSimplex.Proofs.Tableau.Pivot
import PrimalSimplex.Proofs.Tableau.Reduction

set_option autoImplicit false

namespace PrimalSimplex.Tableau

open Column (Label)

variable {F : Type} [Field F] [LinearOrder F]

/-- A tableau that shows a basis with a nonnegative solution. -/
structure FeasibleBasis (t : Tableau F) : Prop extends Canonical t where
  bound_nonneg : ∀ i ∈ t.constraintRows, 0 ≤ t.coeff i t.boundColumn

namespace FeasibleBasis

variable {t u : Tableau F}

theorem basicValue_nonneg (h : t.FeasibleBasis) : 0 ≤ t.basicValue :=
  fun label => h.basicAssignment_induction (le_refl 0) h.bound_nonneg label

/-- An initial tableau is one if no bound of its problem is below zero. -/
theorem ofIsInitial {p : Problem F} (h : t.IsInitial p)
    (hbounds : ∀ c ∈ p.constraints, 0 ≤ c.bound) : t.FeasibleBasis where
  toCanonical := h.canonical
  bound_nonneg i hi := by
    obtain ⟨hlow, hhigh⟩ := mem_constraintRows.mp hi
    have hheight := h.height_eq
    obtain ⟨k, rfl⟩ : ∃ k, i = t.objectives + k := ⟨i - t.objectives, by omega⟩
    have hk := List.getElem?_eq_getElem (show k < p.placedConstraints.length by omega)
    rw [h.coeff_constraint hk h.wellShaped.boundColumn_lt, h.labelAt_boundColumn]
    exact hbounds _ (Problem.mem_constraints_iff.mpr ⟨_, List.mem_of_getElem? hk, rfl⟩)

variable [IsStrictOrderedRing F]

/-- The row with the least ratio keeps all right hand sides nonnegative. -/
theorem pivot (h : t.FeasibleBasis) {row column : Nat} (hcolumn : column ∈ t.variableColumns)
    (hrow : t.IsLeaving column row) (hpivot : t.IsPivot row column u) : u.FeasibleBasis where
  toCanonical := hpivot.canonical h.toCanonical hrow.mem hcolumn hrow.pos.ne'
  bound_nonneg i hi := by
    rw [hpivot.sameFrame.constraintRows_eq] at hi
    have hheight := (mem_constraintRows.mp hi).2
    have hratio : 0 ≤ t.coeff row t.boundColumn / t.coeff row column :=
      div_nonneg (h.bound_nonneg row hrow.mem) hrow.pos.le
    rw [hpivot.sameFrame.boundColumn_eq, hpivot.coeff_eq i hheight _ h.boundColumn_lt]
    split
    · exact hratio
    · have hbound := h.bound_nonneg i hi
      rcases le_or_gt (t.coeff i column) 0 with hentry | hentry
      · have hshrinks := mul_nonpos_of_nonpos_of_nonneg hentry hratio
        exact sub_nonneg.mpr (hshrinks.trans hbound)
      · have hleast := hrow.least i hi hentry
        rw [le_div_iff₀ hentry, mul_comm] at hleast
        exact sub_nonneg.mpr hleast

/-- Leaving the first phase keeps the right hand sides. -/
theorem reduction (h : t.FeasibleBasis) (htolerance : 0 ≤ t.tolerance)
    (hreduction : t.IsReduction u) : u.FeasibleBasis where
  toCanonical := hreduction.canonical h.toCanonical htolerance
  bound_nonneg i hi := by
    have hmem := hreduction.mem_constraintRows_iff.mp hi
    rw [hreduction.coeff_boundColumn h.toWellShaped (mem_constraintRows.mp hmem).2]
    exact h.bound_nonneg _ hmem

end FeasibleBasis

/-- Over exact numbers without a tolerance, a tableau that shows a basis with a
nonnegative solution. -/
structure BasicFeasible (t : Tableau F) : Prop extends Canonical t where
  tolerance_eq : t.tolerance = 0
  bound_nonneg : ∀ i ∈ t.constraintRows, 0 ≤ t.coeff i t.boundColumn

namespace BasicFeasible

variable {t u : Tableau F}

theorem feasibleBasis (h : t.BasicFeasible) : t.FeasibleBasis := ⟨h.toCanonical, h.bound_nonneg⟩

theorem ofFeasibleBasis (h : t.FeasibleBasis) (htolerance : t.tolerance = 0) : t.BasicFeasible :=
  ⟨h.toCanonical, htolerance, h.bound_nonneg⟩

theorem basicValue_nonneg (h : t.BasicFeasible) : 0 ≤ t.basicValue :=
  h.feasibleBasis.basicValue_nonneg

/-- An initial tableau is one if no bound of its problem is below zero. -/
theorem ofIsInitial {p : Problem F} (h : t.IsInitial p) (htolerance : t.tolerance = 0)
    (hbounds : ∀ c ∈ p.constraints, 0 ≤ c.bound) : t.BasicFeasible :=
  .ofFeasibleBasis (.ofIsInitial h hbounds) htolerance

variable [IsStrictOrderedRing F]

/-! ## Exchanges -/

/-- One exchange of a run. -/
theorem exchange (h : t.BasicFeasible) {row column : Nat} (hprofitable : t.IsProfitable column)
    (hrow : t.leavingRow? column = .ok (some row)) (hpivot : t.pivot row column = .ok u) :
    u.BasicFeasible ∧ t.Restates u ∧ u.unknowns = t.unknowns ∧ u.phase = t.phase := by
  have hcolumn := hprofitable.1
  have hwidth := h.lt_width_of_mem hcolumn
  have hleaving := h.isLeaving_of_leavingRow? h.tolerance_eq hwidth hrow
  have hspec := h.isPivot_of_pivot_eq hleaving.mem hwidth hpivot
  have hrestates := hspec.restates h.boundColumn_lt hleaving.mem hleaving.pos.ne'
  exact ⟨.ofFeasibleBasis (h.feasibleBasis.pivot hcolumn hleaving hspec)
      (hrestates.tolerance_eq.trans h.tolerance_eq),
    hrestates, hspec.unknowns_eq, hspec.sameFrame.phase_eq⟩

/-! ## Leaving the first phase -/

theorem reduction (h : t.BasicFeasible) (hreduction : t.IsReduction u) : u.BasicFeasible :=
  .ofFeasibleBasis (h.feasibleBasis.reduction h.tolerance_eq.ge hreduction)
    ((hreduction.restates h.toCanonical).tolerance_eq.trans h.tolerance_eq)

/-! ## Ends of a phase -/

/-- Without a profitable column, row 0 is nowhere negative. -/
theorem cost_nonneg (h : t.BasicFeasible) (hoptimal : ∀ j, ¬t.IsProfitable j) {j : Nat}
    (hj : j ∈ t.variableColumns) : 0 ≤ t.coeff 0 j := by
  by_contra hneg
  exact hoptimal j ((isProfitable_iff h.tolerance_eq).mpr ⟨hj, not_le.mp hneg⟩)

/-- Then the basic solution is the best one: row 0 is least there. -/
theorem residual_basicValue_le (h : t.BasicFeasible) (hoptimal : ∀ j, ¬t.IsProfitable j)
    {x : Label → F} (hx : 0 ≤ x) : t.residual 0 t.basicValue ≤ t.residual 0 x := by
  have hlhs : 0 ≤ t.lhs 0 x := by
    rw [lhs_eq_sum]
    refine Finset.sum_nonneg fun j hj => ?_
    have hcolumn := mem_variableColumns.mpr (Finset.mem_Ico.mp hj)
    exact mul_nonneg (h.cost_nonneg hoptimal hcolumn) (hx _)
  rw [h.residual_basicValue t.objectives_pos, residual]
  linarith

/-- Where no row limits a column, the variables stay nonnegative along its ray. -/
theorem ray_nonneg (h : t.BasicFeasible) {column : Nat} (hunlimited : ∀ i, ¬t.Limits column i)
    {amount : F} (hamount : 0 ≤ amount) : 0 ≤ t.ray column amount := by
  intro label
  have hbasic : 0 ≤ t.basicAssignment
      (fun i => t.coeff i t.boundColumn - amount * t.coeff i column) label := by
    refine h.basicAssignment_induction (le_refl 0) (fun i hi => ?_) label
    have hentry : t.coeff i column ≤ 0 :=
      not_lt.mp fun hpos => hunlimited i ((limits_iff h.tolerance_eq).mpr ⟨hi, hpos⟩)
    have hgrows := mul_nonpos_of_nonneg_of_nonpos hamount hentry
    exact sub_nonneg.mpr (hgrows.trans (h.bound_nonneg i hi))
  have hsingle : 0 ≤ (Pi.single (t.labelAt column) amount : Label → F) label := by
    rw [Pi.single_apply]
    split
    · exact hamount
    · exact le_refl 0
  exact add_nonneg hbasic hsingle

end BasicFeasible

end PrimalSimplex.Tableau
