/-
  `Proofs.Tableau.Canonical`: tableaus that show their basis.

  In a canonical tableau every basic column is the unit vector of its row, the
  objective rows included.  An assignment that is zero outside of the basis
  therefore makes the left hand side of a row equal to the value of the row's
  basic variable, and that of an objective equal to zero.  Two assignments of
  this kind matter: the basic solution, and the ray along which a variable that
  is not basic grows while the basic ones make up for it.
-/
import PrimalSimplex.Proofs.Tableau.Assignment

set_option autoImplicit false

namespace PrimalSimplex.Tableau

open Column (Label)

variable {F : Type} [Field F] [LinearOrder F]

/-- Labels tell columns apart, and each constraint row has a variable column of
its own that is zero in all other rows. -/
structure Canonical (t : Tableau F) : Prop extends WellShaped t where
  nodup_labels : t.labels.Nodup
  basis_mem : ∀ c ∈ t.basis, c ∈ t.variableColumns
  unit : ∀ k c, t.basis[k]? = some c → ∀ i < t.height,
    t.coeff i c = if i = t.objectives + k then 1 else 0

namespace Canonical

variable {t : Tableau F}

/-! ## The basis -/

theorem columnOf?_labelAt (h : t.Canonical) {j : Nat} (hj : j < t.width) :
    t.columnOf? (t.labelAt j) = some j :=
  columnOf?_of_label_eq h.nodup_labels (h.label_eq_ok hj)

theorem eq_of_labelAt_eq (h : t.Canonical) {i j : Nat} (hi : i < t.width) (hj : j < t.width)
    (heq : t.labelAt i = t.labelAt j) : i = j := by
  have hcolumn := h.columnOf?_labelAt hi
  rw [heq, h.columnOf?_labelAt hj] at hcolumn
  exact (Option.some.inj hcolumn).symm

theorem eq_of_basis_eq (h : t.Canonical) {k l c : Nat} (hk : t.basis[k]? = some c)
    (hl : t.basis[l]? = some c) : k = l := by
  have hrow := (mem_constraintRows.mp (h.mem_constraintRows_of_getElem? hk)).2
  have hone := h.unit k c hk (t.objectives + k) hrow
  have hother := h.unit l c hl (t.objectives + k) hrow
  rw [hone, if_pos rfl] at hother
  by_contra hne
  rw [if_neg (by omega)] at hother
  exact one_ne_zero hother

theorem nodup_basis (h : t.Canonical) : t.basis.Nodup := by
  rw [List.nodup_iff_getElem?_ne_getElem?]
  intro k l hlt hl heq
  have hk := List.getElem?_eq_getElem hl
  have hsame := h.eq_of_basis_eq (heq.trans hk) hk
  omega

theorem basicRow?_eq_some (h : t.Canonical) {k c : Nat} (hk : t.basis[k]? = some c) :
    t.basicRow? c = some (t.objectives + k) := by
  obtain ⟨hlt, hat⟩ := List.getElem?_eq_some_iff.mp hk
  have hfirst : t.basis.idxOf? c = some k := by
    refine List.idxOf?_eq_some_iff.mpr ⟨hlt, hat, fun l hl heq => ?_⟩
    have hlc : t.basis[l]? = some c := List.getElem?_eq_some_iff.mpr ⟨by omega, heq⟩
    have hsame := h.eq_of_basis_eq hlc hk
    omega
  rw [basicRow?, hfirst, Option.map_some, Nat.add_comm]

/-- A basic column has no cost in any objective. -/
theorem coeff_objective_eq_zero (h : t.Canonical) {i c : Nat} (hi : i < t.objectives)
    (hc : c ∈ t.basis) : t.coeff i c = 0 := by
  obtain ⟨k, hk⟩ := List.mem_iff_getElem?.mp hc
  have hheight := h.height_eq
  rw [h.unit k c hk i (by omega), if_neg (by omega)]

/-! ## Assignments of the basic variables -/

theorem basicAssignment_labelAt (h : t.Canonical) (value : Nat → F) {k c : Nat}
    (hk : t.basis[k]? = some c) :
    t.basicAssignment value (t.labelAt c) = value (t.objectives + k) := by
  have hc : c < t.width := h.basis_lt c (List.mem_of_getElem? hk)
  unfold basicAssignment
  rw [h.columnOf?_labelAt hc, Option.bind_eq_bind, Option.bind_some, h.basicRow?_eq_some hk]

theorem basicAssignment_labelAt_of_not_mem (h : t.Canonical) (value : Nat → F) {j : Nat}
    (hj : j < t.width) (hbasis : j ∉ t.basis) : t.basicAssignment value (t.labelAt j) = 0 := by
  have hnone : t.basicRow? j = none := by
    rw [basicRow?, List.idxOf?_eq_none_iff.mpr hbasis]
    rfl
  unfold basicAssignment
  rw [h.columnOf?_labelAt hj, Option.bind_eq_bind, Option.bind_some, hnone]

/-- Whatever the given values satisfy, the values of the assignment do too. -/
theorem basicAssignment_induction (h : t.Canonical) {value : Nat → F} {motive : F → Prop}
    (hzero : motive 0) (hvalue : ∀ i ∈ t.constraintRows, motive (value i)) (label : Label) :
    motive (t.basicAssignment value label) := by
  unfold basicAssignment
  cases hrow : t.columnOf? label >>= t.basicRow? with
  | none => exact hzero
  | some row =>
    obtain ⟨column, _, hbasic⟩ := Option.bind_eq_some_iff.mp hrow
    obtain ⟨k, rfl, hk⟩ := exists_getElem?_of_basicRow? hbasic
    exact hvalue _ (h.mem_constraintRows_of_getElem? hk)

theorem covers_basicAssignment (h : t.Canonical) (value : Nat → F) :
    t.Covers (t.basicAssignment value) := by
  intro label hlabel
  unfold basicAssignment
  cases hrow : t.columnOf? label >>= t.basicRow? with
  | none => rfl
  | some row =>
    obtain ⟨column, hcolumn, hbasic⟩ := Option.bind_eq_some_iff.mp hrow
    obtain ⟨k, rfl, hk⟩ := exists_getElem?_of_basicRow? hbasic
    obtain ⟨hlt, hat, _⟩ := List.idxOf?_eq_some_iff.mp hcolumn
    have hname : t.labelAt column = label :=
      labelAt_of_getElem? (List.getElem?_eq_some_iff.mpr ⟨hlt, hat⟩)
    have hmem : label ∈ t.unknowns :=
      hname ▸ labelAt_mem_unknowns (h.basis_mem column (List.mem_of_getElem? hk))
    exact absurd hmem hlabel

/-- The left hand side of a constraint row is the value of its basic variable,
that of an objective row is zero. -/
theorem lhs_basicAssignment (h : t.Canonical) (value : Nat → F) {i : Nat} (hi : i < t.height) :
    t.lhs i (t.basicAssignment value) = if t.objectives ≤ i then value i else 0 := by
  -- A term that is not zero belongs to the basic column of row `i`.
  have hterm : ∀ j ∈ Finset.Ico t.objectives t.boundColumn,
      t.basis[i - t.objectives]? = some j ∧ t.objectives ≤ i ∨
        t.coeff i j * t.basicAssignment value (t.labelAt j) = 0 := by
    intro j hj
    have hwidth : j < t.width := h.lt_width_of_mem (mem_variableColumns.mpr (Finset.mem_Ico.mp hj))
    by_cases hbasis : j ∈ t.basis
    · obtain ⟨k, hk⟩ := List.mem_iff_getElem?.mp hbasis
      by_cases hik : i = t.objectives + k
      · subst hik
        exact .inl ⟨by rw [Nat.add_sub_cancel_left, hk], Nat.le_add_right _ _⟩
      · exact .inr (by rw [h.unit k j hk i hi, if_neg hik, zero_mul])
    · exact .inr (by rw [h.basicAssignment_labelAt_of_not_mem value hwidth hbasis, mul_zero])
  rw [lhs_eq_sum]
  by_cases hobjective : t.objectives ≤ i
  · obtain ⟨c, hc, _⟩ := h.exists_basic (mem_constraintRows.mpr ⟨hobjective, hi⟩)
    have hrow : t.objectives + (i - t.objectives) = i := Nat.add_sub_cancel' hobjective
    have hmem := mem_variableColumns.mp (h.basis_mem c (List.mem_of_getElem? hc))
    rw [if_pos hobjective, Finset.sum_eq_single c]
    · rw [h.unit _ c hc i hi, h.basicAssignment_labelAt value hc, hrow, if_pos rfl, one_mul]
    · intro j hj hne
      refine (hterm j hj).resolve_left fun hbasic => hne ?_
      exact Option.some.inj (hbasic.1.symm.trans hc)
    · exact fun hout => absurd (Finset.mem_Ico.mpr hmem) hout
  · rw [if_neg hobjective]
    exact Finset.sum_eq_zero fun j hj => (hterm j hj).resolve_left fun hb => hobjective hb.2

/-! ## The basic solution -/

theorem solves_basicValue (h : t.Canonical) : t.Solves t.basicValue := by
  intro i hi
  obtain ⟨hlow, hhigh⟩ := mem_constraintRows.mp hi
  rw [basicValue, h.lhs_basicAssignment _ hhigh, if_pos hlow]

/-- It also solves every tableau of which this one is a restatement. -/
theorem solves_basicValue_of_restates (h : t.Canonical) {s : Tableau F} (hrestates : s.Restates t) :
    s.Solves t.basicValue :=
  (hrestates.solves_iff _ (h.covers_basicAssignment _)).mp h.solves_basicValue

theorem residual_basicValue (h : t.Canonical) {i : Nat} (hi : i < t.objectives) :
    t.residual i t.basicValue = -t.coeff i t.boundColumn := by
  have hheight : i < t.height := by
    have := h.height_eq
    omega
  rw [residual, basicValue, h.lhs_basicAssignment _ hheight, if_neg (by omega), zero_sub]

end Canonical

/-! ## Rays -/

/-- The basic solution after the variable of a column has grown to some amount,
where the basic variables make up for it. -/
def ray (t : Tableau F) (column : Nat) (amount : F) : Label → F :=
  t.basicAssignment (fun i => t.coeff i t.boundColumn - amount * t.coeff i column)
    + Pi.single (t.labelAt column) amount

namespace Canonical

variable {t : Tableau F}

theorem lhs_single (h : t.Canonical) (i : Nat) {column : Nat} (hcolumn : column ∈ t.variableColumns)
    (amount : F) : t.lhs i (Pi.single (t.labelAt column) amount) = t.coeff i column * amount := by
  rw [lhs_eq_sum, Finset.sum_eq_single column]
  · rw [Pi.single_eq_same]
  · intro j hj hne
    have hwidth : j < t.width := h.lt_width_of_mem (mem_variableColumns.mpr (Finset.mem_Ico.mp hj))
    have hlabel : t.labelAt j ≠ t.labelAt column :=
      fun heq => hne (h.eq_of_labelAt_eq hwidth (h.lt_width_of_mem hcolumn) heq)
    rw [Pi.single_eq_of_ne hlabel, mul_zero]
  · exact fun hout => absurd (Finset.mem_Ico.mpr (mem_variableColumns.mp hcolumn)) hout

/-- The growth of the variable is made up for in every constraint row; an
objective row changes by the cost of the column. -/
theorem lhs_ray (h : t.Canonical) {i column : Nat} (hi : i < t.height)
    (hcolumn : column ∈ t.variableColumns) (amount : F) :
    t.lhs i (t.ray column amount) =
      if t.objectives ≤ i then t.coeff i t.boundColumn else t.coeff i column * amount := by
  rw [ray, lhs_add, h.lhs_basicAssignment _ hi, h.lhs_single i hcolumn]
  split
  · ring
  · rw [zero_add]

theorem solves_ray (h : t.Canonical) {column : Nat} (hcolumn : column ∈ t.variableColumns)
    (amount : F) : t.Solves (t.ray column amount) := by
  intro i hi
  obtain ⟨hlow, hhigh⟩ := mem_constraintRows.mp hi
  rw [h.lhs_ray hhigh hcolumn, if_pos hlow]

theorem residual_ray (h : t.Canonical) {i column : Nat} (hi : i < t.objectives)
    (hcolumn : column ∈ t.variableColumns) (amount : F) :
    t.residual i (t.ray column amount) = t.coeff i column * amount - t.coeff i t.boundColumn := by
  have hheight : i < t.height := by
    have := h.height_eq
    omega
  rw [residual, h.lhs_ray hheight hcolumn, if_neg (by omega)]

theorem covers_ray (h : t.Canonical) {column : Nat} (hcolumn : column ∈ t.variableColumns)
    (amount : F) : t.Covers (t.ray column amount) := by
  intro label hlabel
  have hne : label ≠ t.labelAt column := by
    rintro rfl
    exact hlabel (labelAt_mem_unknowns hcolumn)
  rw [ray, Pi.add_apply, h.covers_basicAssignment _ label hlabel, Pi.single_eq_of_ne hne, add_zero]

end Canonical

end PrimalSimplex.Tableau
