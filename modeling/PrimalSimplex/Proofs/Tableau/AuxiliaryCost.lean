/-
  `Proofs.Tableau.AuxiliaryCost`: the costs of the first phase.

  Row 0 of the first phase is what is left of the artificial variables together.  As a
  variable grows, those artificial variables that are basic shrink by the entries of
  its column in their rows, so the cost of the column is the negated sum of these
  entries.  A sum may exceed a tolerance that none of its terms exceeds.  That is why
  a column can be profitable although no row limits it, and it takes two rows.
-/
import Mathlib.Algebra.Order.BigOperators.Group.Finset
import Mathlib.Tactic.LinearCombination
import PrimalSimplex.Proofs.Tableau.Consistency
import PrimalSimplex.Proofs.Tableau.Region

set_option autoImplicit false

namespace PrimalSimplex.Tableau

open Column (Label)

variable {F : Type}

/-- The rows where an artificial variable is basic. -/
def aidedRows (t : Tableau F) : Finset Nat :=
  (Finset.Ico t.objectives t.height).filter fun row => t.hasArtificial row = true

theorem mem_aidedRows {t : Tableau F} {row : Nat} :
    row ∈ t.aidedRows ↔ row ∈ t.constraintRows ∧ t.hasArtificial row = true := by
  rw [aidedRows, Finset.mem_filter, Finset.mem_Ico, mem_constraintRows]

variable [Field F] [LinearOrder F] {p : Problem F} {s t : Tableau F}

/-! ## Values by rows -/

namespace Canonical

theorem exists_basicLabel_mem (h : t.Canonical) {row : Nat} (hrow : row ∈ t.constraintRows) :
    ∃ label ∈ t.unknowns, t.basicLabel row = .ok label := by
  obtain ⟨c, hc, hbasic⟩ := h.exists_basic hrow
  have hmem := List.mem_of_getElem? hc
  refine ⟨t.labelAt c, labelAt_mem_unknowns (h.basis_mem c hmem), ?_⟩
  rw [basicLabel, hbasic]
  exact h.label_eq_ok (h.basis_lt c hmem)

/-- The variable that is basic in a row is the one that has the row. -/
theorem basicLabel_eq_iff (h : t.Canonical) {row : Nat} (hrow : row ∈ t.constraintRows)
    {label : Label} :
    t.basicLabel row = .ok label ↔ (t.columnOf? label >>= t.basicRow?) = some row := by
  constructor
  · intro hlabel
    obtain ⟨c, hc, _⟩ := h.exists_basic hrow
    have hplace : t.objectives + (row - t.objectives) = row :=
      Nat.add_sub_cancel' (mem_constraintRows.mp hrow).1
    have hname := h.basicLabel_eq_ok hc
    rw [hplace, hlabel] at hname
    obtain rfl := Except.ok.inj hname
    rw [h.columnOf?_labelAt (h.basis_lt c (List.mem_of_getElem? hc)), Option.bind_eq_bind,
      Option.bind_some, h.basicRow?_eq_some hc, hplace]
  · intro hbasic
    obtain ⟨column, hcolumn, hbasic⟩ := Option.bind_eq_some_iff.mp hbasic
    obtain ⟨k, rfl, hk⟩ := exists_getElem?_of_basicRow? hbasic
    obtain ⟨hlt, hat, _⟩ := List.idxOf?_eq_some_iff.mp hcolumn
    rw [h.basicLabel_eq_ok hk, labelAt_of_getElem? (List.getElem?_eq_some_iff.mpr ⟨hlt, hat⟩)]

/-- So a value that is given for rows is found at the row of the variable. -/
theorem basicAssignment_eq_sum (h : t.Canonical) (value : Nat → F) (label : Label) :
    t.basicAssignment value label = ∑ row ∈ Finset.Ico t.objectives t.height,
      if t.basicLabel row = .ok label then value row else 0 := by
  have hterm : ∀ row ∈ Finset.Ico t.objectives t.height,
      (if t.basicLabel row = .ok label then value row else 0) =
        if (t.columnOf? label >>= t.basicRow?) = some row then value row else 0 := by
    intro row hrow
    have hmem := mem_constraintRows.mpr (Finset.mem_Ico.mp hrow)
    exact if_congr (h.basicLabel_eq_iff hmem) rfl rfl
  rw [Finset.sum_congr rfl hterm, basicAssignment]
  cases hbasic : t.columnOf? label >>= t.basicRow? with
  | none => exact (Finset.sum_eq_zero fun _ _ => if_neg nofun).symm
  | some row =>
    obtain ⟨column, _, hbasic⟩ := Option.bind_eq_some_iff.mp hbasic
    obtain ⟨k, rfl, hk⟩ := exists_getElem?_of_basicRow? hbasic
    have hmem := mem_constraintRows.mp (h.mem_constraintRows_of_getElem? hk)
    rw [Finset.sum_eq_single (t.objectives + k), if_pos rfl]
    · exact fun _ _ hne => if_neg fun heq => hne (Option.some.inj heq).symm
    · exact fun hout => absurd (Finset.mem_Ico.mpr hmem) hout

/-- Summed over all artificial variables, this is a sum over the rows where one is
basic. -/
theorem sum_basicAssignment_artificial (h : t.Canonical) {count : Nat}
    (hcount : ∀ i, Label.artificial i ∈ t.unknowns → i < count) (value : Nat → F) :
    ∑ i ∈ Finset.range count, t.basicAssignment value (.artificial i) =
      ∑ row ∈ t.aidedRows, value row := by
  rw [Finset.sum_congr rfl fun i _ => h.basicAssignment_eq_sum value (.artificial i),
    Finset.sum_comm, aidedRows, Finset.sum_filter]
  refine Finset.sum_congr rfl fun row hrow => ?_
  obtain ⟨label, hunknown, hlabel⟩ :=
    h.exists_basicLabel_mem (mem_constraintRows.mpr (Finset.mem_Ico.mp hrow))
  rw [hasArtificial, hlabel]
  cases label with
  | artificial i =>
    rw [Finset.sum_eq_single i, if_pos rfl]
    · rfl
    · exact fun k _ hne => if_neg fun heq => hne (Label.artificial.inj (Except.ok.inj heq)).symm
    · exact fun hout => absurd (Finset.mem_range.mpr (hcount i hunknown)) hout
  | _ =>
    refine Finset.sum_eq_zero fun k _ => if_neg fun heq => ?_
    cases heq

/-- Two rows with artificial variables have different ones. -/
theorem two_le_of_mem_aidedRows (h : t.Canonical) {count : Nat}
    (hcount : ∀ i, Label.artificial i ∈ t.unknowns → i < count) {row other : Nat}
    (hrow : row ∈ t.aidedRows) (hother : other ∈ t.aidedRows) (hne : row ≠ other) :
    2 ≤ count := by
  have hlabel : ∀ i ∈ t.aidedRows, ∃ k < count,
      (t.columnOf? (.artificial k) >>= t.basicRow?) = some i := by
    intro i hi
    obtain ⟨hmem, hartificial⟩ := mem_aidedRows.mp hi
    obtain ⟨label, hunknown, hlabel⟩ := h.exists_basicLabel_mem hmem
    rw [hasArtificial, hlabel] at hartificial
    cases label with
    | artificial k => exact ⟨k, hcount k hunknown, (h.basicLabel_eq_iff hmem).mp hlabel⟩
    | _ => cases hartificial
  obtain ⟨k, hk, hplace⟩ := hlabel row hrow
  obtain ⟨l, hl, hplace'⟩ := hlabel other hother
  by_contra hfew
  obtain rfl : k = l := by omega
  exact hne (Option.some.inj (hplace.symm.trans hplace'))

end Canonical

/-! ## The cost of a column -/

/-- The artificial variables of a tableau are those of the problem, as far as they have a
column. -/
theorem IsInitial.artificial_lt (h : s.IsInitial p) (hrestates : s.Restates t) {i : Nat}
    (hi : Label.artificial i ∈ t.unknowns) : i < p.layout.artificials := by
  have hmem := hrestates.unknowns_subset hi
  rw [h.unknowns_eq] at hmem
  exact Column.Layout.mem_unknowns.mp hmem

/-- In the first phase, the cost of a column is the negated sum of its entries in the
rows where an artificial variable is basic, and one more if the column is artificial. -/
theorem IsInitial.coeff_zero_eq (h : s.IsInitial p) (ht : t.Canonical) (hrestates : s.Restates t)
    (hphase : t.phase = .feasibility) {j : Nat} (hj : j ∈ t.variableColumns) :
    t.coeff 0 j =
      (if (t.labelAt j).isArtificial then 1 else 0) - ∑ row ∈ t.aidedRows, t.coeff row j := by
  have hcount : ∀ i, Label.artificial i ∈ t.unknowns → i < p.layout.artificials :=
    fun i => h.artificial_lt hrestates
  have hsingle : ∑ i ∈ Finset.range p.layout.artificials,
      (Pi.single (t.labelAt j) (1 : F) : Label → F) (.artificial i) =
      if (t.labelAt j).isArtificial then 1 else 0 := by
    have hunknown := labelAt_mem_unknowns hj
    cases hname : t.labelAt j with
    | artificial i =>
      rw [hname] at hunknown
      rw [Finset.sum_eq_single i, Pi.single_eq_same]
      · rfl
      · exact fun k _ hne => Pi.single_eq_of_ne (fun heq => hne (Label.artificial.inj heq)) _
      · exact fun hout => absurd (Finset.mem_range.mpr (hcount i hunknown)) hout
    | _ =>
      refine Finset.sum_eq_zero fun k _ => ?_
      rw [Pi.single_apply]
      exact if_neg nofun
  -- Row 0 at the basic solution, and one step along the ray of the column.
  have hbegin := h.residual_eq_of_restates hrestates hphase (ht.covers_basicAssignment _)
    ht.solves_basicValue
  have hstep := h.residual_eq_of_restates hrestates hphase (ht.covers_ray hj 1)
    (ht.solves_ray hj 1)
  rw [ht.sum_basicAssignment_artificial hcount] at hbegin
  change t.residual 0 t.basicValue = _ at hbegin
  rw [ht.residual_basicValue t.objectives_pos] at hbegin
  rw [ht.residual_ray t.objectives_pos hj, ray] at hstep
  simp only [Pi.add_apply, Finset.sum_add_distrib] at hstep
  rw [ht.sum_basicAssignment_artificial hcount, hsingle, Finset.sum_sub_distrib, ← hbegin] at hstep
  simp only [one_mul, mul_one] at hstep
  linear_combination hstep

variable [IsStrictOrderedRing F]

/-! ## Entries within the tolerance -/

/-- Numbers that exceed a bound only together are at least two. -/
theorem exists_two_pos_of_lt_sum {rows : Finset Nat} {f : Nat → F} {bound : F} (hbound : 0 ≤ bound)
    (hle : ∀ row ∈ rows, f row ≤ bound) (hsum : bound < ∑ row ∈ rows, f row) :
    0 < bound ∧ ∃ row ∈ rows, ∃ other ∈ rows, row ≠ other ∧ 0 < f row ∧ 0 < f other := by
  have hpositive : ∑ row ∈ rows, f row ≤ ∑ row ∈ rows.filter (0 < f ·), f row := by
    rw [← Finset.sum_filter_add_sum_filter_not rows (0 < f ·)]
    refine add_le_of_nonpos_right (Finset.sum_nonpos fun row hrow => ?_)
    exact not_lt.mp (Finset.mem_filter.mp hrow).2
  have hcard : ∑ row ∈ rows.filter (0 < f ·), f row ≤ (rows.filter (0 < f ·)).card • bound :=
    Finset.sum_le_card_nsmul _ _ _ fun row hrow => hle row (Finset.mem_filter.mp hrow).1
  have hmultiple : bound < (rows.filter (0 < f ·)).card • bound :=
    hsum.trans_le (hpositive.trans hcard)
  have hmany : 1 < (rows.filter (0 < f ·)).card := by
    by_contra hfew
    have hone := nsmul_le_nsmul_left hbound (not_lt.mp hfew)
    rw [one_nsmul] at hone
    exact absurd hmultiple (not_lt.mpr hone)
  obtain ⟨row, hrow, other, hother, hne⟩ := Finset.one_lt_card.mp hmany
  obtain ⟨hrow, hpos⟩ := Finset.mem_filter.mp hrow
  obtain ⟨hother, hpos'⟩ := Finset.mem_filter.mp hother
  exact ⟨hpos.trans_le (hle row hrow), row, hrow, other, hother, hne, hpos, hpos'⟩

/-- A profitable column that no row limits, although the artificial variables shrink as
its variable grows: no entry exceeds the tolerance, but those in the rows of artificial
variables do so together. -/
structure Slips (t : Tableau F) (j : Nat) : Prop where
  profitable : t.IsProfitable j
  entry_le : ∀ row ∈ t.constraintRows, t.coeff row j ≤ t.tolerance
  lt_sum : t.tolerance < ∑ row ∈ t.aidedRows, t.coeff row j
  two_pos : ∃ row ∈ t.aidedRows, ∃ other ∈ t.aidedRows, row ≠ other ∧
    0 < t.coeff row j ∧ 0 < t.coeff other j

/-- In the first phase there is no other way for a profitable column to be limited by
no row. -/
theorem IsInitial.slips (h : s.IsInitial p) (ht : t.Canonical) (hrestates : s.Restates t)
    (hphase : t.phase = .feasibility) (htolerance : 0 ≤ t.tolerance) {j : Nat}
    (hprofitable : t.IsProfitable j) (hunlimited : ∀ row, ¬t.Limits j row) :
    0 < t.tolerance ∧ t.Slips j := by
  have hle : ∀ row ∈ t.constraintRows, t.coeff row j ≤ t.tolerance := by
    intro row hrow
    refine not_lt.mp fun hlt => hunlimited row ⟨hrow, ?_⟩
    exact (Scalar.isPositive_iff_lt htolerance).mpr hlt
  have hcost : t.coeff 0 j < -t.tolerance :=
    (Scalar.isNegative_iff_lt htolerance).mp hprofitable.2
  have hsum : t.tolerance < ∑ row ∈ t.aidedRows, t.coeff row j := by
    rw [h.coeff_zero_eq ht hrestates hphase hprofitable.1] at hcost
    have hmark : (0 : F) ≤ if (t.labelAt j).isArtificial then 1 else 0 := by
      split
      · exact zero_le_one
      · exact le_refl 0
    linarith
  obtain ⟨hpos, htwo⟩ := exists_two_pos_of_lt_sum htolerance
    (fun row hrow => hle row (mem_aidedRows.mp hrow).1) hsum
  exact ⟨hpos, hprofitable, hle, hsum, htwo⟩

end PrimalSimplex.Tableau
