/-
  `Proofs.Tableau.Ascent`: why exchanges make progress.

  The right hand side of row 0 rises with an exchange by the profit of the column
  times the value that its variable gets, so it rises unless the row of the exchange
  has zero as its right hand side.  And it depends on the basic columns alone: the
  basic solution of one tableau is a solution of the other, and row 0 has no cost
  where it is not zero.  So exchanges that come back to the same basic columns have
  not moved at all, and as long as they move there are only as many of them as there
  are sets of columns.
-/
import PrimalSimplex.Proofs.Tableau.BasicFeasible

set_option autoImplicit false

namespace PrimalSimplex.Tableau

open Column (Label)

variable {F : Type} [Field F] [LinearOrder F]

/-- The right hand side of the row that is being improved. -/
def level (t : Tableau F) : F := t.coeff 0 t.boundColumn

omit [Field F] [LinearOrder F] in
/-- The same columns are basic, in whatever rows. -/
def SameBasis (t u : Tableau F) : Prop := ∀ column, column ∈ t.basis ↔ column ∈ u.basis

/-! ## The level of a basis -/

/-- One tableau after some exchanges from another one, none of which has lowered row 0. -/
structure Rises (t u : Tableau F) : Prop where
  sameFrame : t.SameFrame u
  restates : t.Restates u
  level_le : t.level ≤ u.level

namespace Rises

variable {s t u : Tableau F}

theorem trans (hst : s.Rises t) (htu : t.Rises u) : s.Rises u :=
  ⟨hst.sameFrame.trans htu.sameFrame, hst.restates.trans htu.restates,
    hst.level_le.trans htu.level_le⟩

/-- Of a solution, row 0 says the same. -/
theorem residual_eq (h : t.Rises u) {x : Label → F} (hcovers : u.Covers x) (hsolves : u.Solves x) :
    u.residual 0 x = t.residual 0 x := by
  cases hphase : u.phase with
  | feasibility => exact (h.restates.auxiliary_eq hphase).2 x hcovers hsolves
  | optimality =>
    have hobjective := h.restates.objective_eq x hcovers hsolves
    rwa [objectiveRow_of_optimality hphase,
      objectiveRow_of_optimality (h.sameFrame.phase_eq ▸ hphase)] at hobjective

/-- The level depends on the basic columns only. -/
theorem level_eq_of_sameBasis (h : t.Rises u) (ht : t.Canonical) (hu : u.Canonical)
    (hbasis : t.SameBasis u) : u.level = t.level := by
  have hterms : t.lhs 0 u.basicValue = 0 := by
    rw [lhs_eq_sum]
    refine Finset.sum_eq_zero fun j hj => ?_
    have hcolumn := mem_variableColumns.mpr (Finset.mem_Ico.mp hj)
    by_cases hbasic : j ∈ t.basis
    · rw [ht.coeff_objective_eq_zero t.objectives_pos hbasic, zero_mul]
    · have hwidth : j < u.width := h.sameFrame.width_eq.symm ▸ ht.lt_width_of_mem hcolumn
      have hzero := hu.basicAssignment_labelAt_of_not_mem
        (fun row => u.coeff row u.boundColumn) hwidth fun hmem => hbasic ((hbasis j).mpr hmem)
      rw [h.sameFrame.labelAt_eq] at hzero
      rw [basicValue, hzero, mul_zero]
  have hresidual := h.residual_eq (hu.covers_basicAssignment _) hu.solves_basicValue
  change u.residual 0 u.basicValue = t.residual 0 u.basicValue at hresidual
  rw [hu.residual_basicValue u.objectives_pos, residual, hterms, zero_sub, neg_inj] at hresidual
  exact hresidual

end Rises

/-! ## Tableaus one above the other -/

/-- Two feasible bases, where exchanges have raised row 0 from the one to the other. -/
structure IsBelow (t u : Tableau F) : Prop extends Rises t u where
  left : t.BasicFeasible
  right : u.BasicFeasible
  level_lt : t.level < u.level

instance : Trans (IsBelow (F := F)) (IsBelow (F := F)) (IsBelow (F := F)) where
  trans hst htu :=
    ⟨hst.toRises.trans htu.toRises, hst.left, htu.right, hst.level_lt.trans htu.level_lt⟩

theorem IsBelow.not_sameBasis {t u : Tableau F} (h : t.IsBelow u) : ¬t.SameBasis u := fun hbasis =>
  h.level_lt.ne
    (h.toRises.level_eq_of_sameBasis h.left.toCanonical h.right.toCanonical hbasis).symm

/-- There are at most as many tableaus one above the other as there are sets of
columns. -/
theorem length_le_of_isChain {width : Nat} {tableaus : List (Tableau F)}
    (hchain : tableaus.IsChain IsBelow)
    (hwidth : ∀ t ∈ tableaus, t.Canonical ∧ t.width ≤ width) :
    tableaus.length ≤ 2 ^ (width - 2) := by
  have hnodup : (tableaus.map fun t => t.basis.toFinset).Nodup := by
    refine List.pairwise_map.mpr (hchain.pairwise.imp fun hbelow hsame => ?_)
    refine hbelow.not_sameBasis fun column => ?_
    rw [← List.mem_toFinset, hsame, List.mem_toFinset]
  have hsubset : (tableaus.map fun t => t.basis.toFinset).toFinset ⊆
      (Finset.Ico 1 (width - 1)).powerset := by
    intro columns hcolumns
    obtain ⟨t, ht, rfl⟩ := List.mem_map.mp (List.mem_toFinset.mp hcolumns)
    obtain ⟨hcanonical, hle⟩ := hwidth t ht
    refine Finset.mem_powerset.mpr fun column hcolumn => Finset.mem_Ico.mpr ?_
    have hmem := mem_variableColumns.mp
      (hcanonical.basis_mem column (List.mem_toFinset.mp hcolumn))
    have hpos := t.objectives_pos
    have hbound : t.boundColumn = t.width - 1 := rfl
    omega
  have hcard := Finset.card_le_card hsubset
  rw [List.toFinset_card_of_nodup hnodup, List.length_map, Finset.card_powerset, Nat.card_Ico,
    Nat.sub_sub] at hcard
  exact hcard

/-! ## Exchanges -/

variable [IsStrictOrderedRing F] {t u : Tableau F} {column row : Nat}

/-- An exchange raises row 0 where the variable that enters gets a positive value, and
leaves it where it was otherwise. -/
theorem BasicFeasible.rises (h : t.BasicFeasible) (hprofitable : t.IsProfitable column)
    (hrow : t.leavingRow? column = .ok (some row)) (hpivot : t.pivot row column = .ok u) :
    u.BasicFeasible ∧ t.Rises u ∧ 0 ≤ t.coeff row t.boundColumn ∧
      (t.level < u.level ↔ 0 < t.coeff row t.boundColumn) := by
  have hwidth := h.lt_width_of_mem hprofitable.1
  have hleaving := h.isLeaving_of_leavingRow? h.tolerance_eq hwidth hrow
  have hspec := h.isPivot_of_pivot_eq hleaving.mem hwidth hpivot
  obtain ⟨hbasic, hrestates, _, _⟩ := h.exchange hprofitable hrow hpivot
  have hcost := ((isProfitable_iff h.tolerance_eq).mp hprofitable).2
  have hbound := h.bound_nonneg row hleaving.mem
  have hobjective : 0 ≠ row := by
    have hlow := (mem_constraintRows.mp hleaving.mem).1
    have hpos := t.objectives_pos
    omega
  have hlevel : u.level = t.level
      + -t.coeff 0 column * (t.coeff row t.boundColumn / t.coeff row column) := by
    rw [level, hspec.sameFrame.boundColumn_eq,
      hspec.coeff_eq 0 h.height_pos _ h.boundColumn_lt, if_neg hobjective, level]
    ring
  have hratio : 0 ≤ t.coeff row t.boundColumn / t.coeff row column :=
    div_nonneg hbound hleaving.pos.le
  refine ⟨hbasic, ⟨hspec.sameFrame, hrestates, ?_⟩, hbound, ?_⟩
  · rw [hlevel]
    exact le_add_of_nonneg_right (mul_nonneg (neg_nonneg.mpr hcost.le) hratio)
  · rw [hlevel, lt_add_iff_pos_right, mul_pos_iff_of_pos_left (neg_pos.mpr hcost),
      div_pos_iff_of_pos_right hleaving.pos]

end PrimalSimplex.Tableau
