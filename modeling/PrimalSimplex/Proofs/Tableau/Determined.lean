/-
  `Proofs.Tableau.Determined`: a tableau does not remember how it was reached.

  Exchanges rewrite a tableau: other numbers, another basis, but the same solutions
  and, on these, the same objectives.  Two tableaus that rewrite each other and have
  the same basic columns are equal.  The reason is that each of them solves its
  equations along a ray, where one variable that is not basic grows and the basic
  ones make up for it.  The ray of one tableau is a solution of the other, and with
  the same basis it can be read there as well: what a basic variable loses on it is
  an entry of either tableau.  So exchanges in any order lead to the same tableau as
  soon as they lead to the same basis, and an exchange is undone by the opposite one.
-/
import PrimalSimplex.Proofs.Tableau.Consistency

set_option autoImplicit false

namespace PrimalSimplex.Tableau

open Column (Label)

variable {F : Type} [Field F] [LinearOrder F]

/-! ## Rewriting -/

/-- Only numbers and the basis differ, and these say the same: the solutions are the
same ones, and they have the same objectives. -/
structure Rewrites (s t : Tableau F) : Prop extends SameFrame s t where
  solves_iff : ∀ x, t.Solves x ↔ s.Solves x
  residual_eq : ∀ x, s.Solves x → ∀ i < s.objectives, t.residual i x = s.residual i x
  /-- The columns of the objectives are the same ones. -/
  coeff_eq : ∀ j < s.objectives, ∀ i < s.height, t.coeff i j = s.coeff i j

namespace Rewrites

variable {r s t : Tableau F}

theorem refl (t : Tableau F) : t.Rewrites t :=
  ⟨.refl t, fun _ => Iff.rfl, fun _ _ _ _ => rfl, fun _ _ _ _ => rfl⟩

theorem symm (h : s.Rewrites t) : t.Rewrites s where
  toSameFrame := h.toSameFrame.symm
  solves_iff x := (h.solves_iff x).symm
  residual_eq x hx i hi :=
    (h.residual_eq x ((h.solves_iff x).mp hx) i (h.objectives_eq ▸ hi)).symm
  coeff_eq j hj i hi := (h.coeff_eq j (h.objectives_eq ▸ hj) i (h.height_eq ▸ hi)).symm

theorem trans (hrs : r.Rewrites s) (hst : s.Rewrites t) : r.Rewrites t where
  toSameFrame := hrs.toSameFrame.trans hst.toSameFrame
  solves_iff x := (hst.solves_iff x).trans (hrs.solves_iff x)
  residual_eq x hx i hi :=
    (hst.residual_eq x ((hrs.solves_iff x).mpr hx) i (hrs.objectives_eq.symm ▸ hi)).trans
      (hrs.residual_eq x hx i hi)
  coeff_eq j hj i hi :=
    (hst.coeff_eq j (hrs.objectives_eq.symm ▸ hj) i (hrs.height_eq.symm ▸ hi)).trans
      (hrs.coeff_eq j hj i hi)

end Rewrites

/-- A pivot rewrites, where the objectives have no part in the pivot row. -/
theorem IsPivot.rewrites {t u : Tableau F} {row column : Nat} (h : t.IsPivot row column u)
    (ht : t.WellShaped) (hrow : row ∈ t.constraintRows) (hne : t.coeff row column ≠ 0)
    (hblank : ∀ j < t.objectives, t.coeff row j = 0) : t.Rewrites u where
  toSameFrame := h.sameFrame
  solves_iff := h.solves_iff ht.boundColumn_lt hrow hne
  residual_eq _ hx _ hi := h.residual_objective_eq ht.boundColumn_lt hrow hx hi
  coeff_eq j hj _ hi :=
    h.coeff_eq_of_row_eq_zero (hj.trans ht.objectives_lt_width) (hblank j hj) hi

/-! ## Exchanges -/

/-- The columns of the objectives are zero in every constraint row. -/
theorem ShowsObjectives.coeff_eq_zero {goal : Goal} {t : Tableau F} (h : t.ShowsObjectives goal)
    {row : Nat} (hrow : row ∈ t.constraintRows) {j : Nat} (hj : j < t.objectives) :
    t.coeff row j = 0 := by
  obtain ⟨hlow, hhigh⟩ := mem_constraintRows.mp hrow
  have hlast := t.objectiveRow_lt
  by_cases hobjective : j = t.objectiveRow
  · rw [hobjective, h.objective_coeff row hhigh, if_neg (by omega)]
  · -- There is another objective only in the first phase, and it is the first column.
    cases hphase : t.phase with
    | feasibility =>
      have hone := objectiveRow_of_feasibility hphase
      obtain rfl : j = 0 := by
        rw [objectiveRow] at hone hobjective
        omega
      rw [h.auxiliary_coeff hphase row hhigh, if_neg (by omega)]
    | optimality =>
      rw [objectives, hphase] at hj
      rw [objectiveRow_of_optimality hphase] at hobjective
      exact absurd (Nat.lt_one_iff.mp hj) hobjective

/-- Whatever is reached by exchanges rewrites the initial tableau. -/
theorem IsInitial.rewrites {p : Problem F} {s t : Tableau F} (h : s.IsInitial p)
    (hexchanges : s.Exchanges t) : t.Canonical ∧ s.Rewrites t := by
  induction hexchanges with
  | refl => exact ⟨h.canonical, .refl s⟩
  | @tail t u _ hstep ih =>
    obtain ⟨ht, hrewrites⟩ := ih
    obtain ⟨row, hrow, column, hcolumn, hne, hpivot⟩ := ht.exists_isPivot hstep
    have hrow' : row ∈ s.constraintRows := hrewrites.constraintRows_eq ▸ hrow
    refine ⟨hpivot.canonical ht hrow hcolumn hne, hrewrites.trans ?_⟩
    refine hpivot.rewrites ht.toWellShaped hrow hne fun j hj => ?_
    have hj' : j < s.objectives := hrewrites.objectives_eq ▸ hj
    rw [hrewrites.coeff_eq j hj' row (mem_constraintRows.mp hrow').2]
    exact h.showsObjectives.coeff_eq_zero hrow' hj'

/-! ## Two tableaus with one basis -/

namespace Rewrites

variable {t u : Tableau F}

/-- With the same basis, the same assignments are basic. -/
theorem basicAssignment_eq (h : t.Rewrites u) (hbasis : u.basis = t.basis) (value : Nat → F) :
    u.basicAssignment value = t.basicAssignment value := by
  funext label
  unfold basicAssignment columnOf? basicRow?
  rw [h.labels_eq, hbasis, h.objectives_eq]

/-- The ray of one tableau, read in the other one. -/
theorem lhs_ray (h : t.Rewrites u) (hu : u.Canonical) (hbasis : u.basis = t.basis) {i column : Nat}
    (hi : i < t.height) (hcolumn : column ∈ t.variableColumns) (amount : F) :
    u.lhs i (t.ray column amount) =
      (if t.objectives ≤ i then t.coeff i t.boundColumn - amount * t.coeff i column else 0)
        + u.coeff i column * amount := by
  rw [ray, ← h.basicAssignment_eq hbasis, ← h.labelAt_eq, lhs_add,
    hu.lhs_basicAssignment _ (h.height_eq.symm ▸ hi),
    hu.lhs_single i (h.variableColumns_eq.symm ▸ hcolumn), h.objectives_eq]

/-- Right hand sides are the values of the basic solution, which is the same. -/
theorem coeff_boundColumn_eq (h : t.Rewrites u) (ht : t.Canonical) (hu : u.Canonical)
    (hbasis : u.basis = t.basis) {i : Nat} (hi : i < t.height) :
    u.coeff i t.boundColumn = t.coeff i t.boundColumn := by
  have hsolves : u.Solves t.basicValue := (h.solves_iff _).mpr ht.solves_basicValue
  have hlhs : u.lhs i t.basicValue =
      if t.objectives ≤ i then t.coeff i t.boundColumn else 0 := by
    rw [basicValue, ← h.basicAssignment_eq hbasis,
      hu.lhs_basicAssignment _ (h.height_eq.symm ▸ hi), h.objectives_eq]
  rcases Nat.lt_or_ge i t.objectives with hobjective | hconstraint
  · have hresidual := h.residual_eq _ ht.solves_basicValue i hobjective
    rw [ht.residual_basicValue hobjective, residual, hlhs, if_neg (Nat.not_le.mpr hobjective),
      zero_sub, neg_inj, h.boundColumn_eq] at hresidual
    exact hresidual
  · have hrow : i ∈ u.constraintRows :=
      h.constraintRows_eq.symm ▸ mem_constraintRows.mpr ⟨hconstraint, hi⟩
    have hequation := hsolves i hrow
    rw [hlhs, if_pos hconstraint, h.boundColumn_eq] at hequation
    exact hequation.symm

/-- The entries of a column are what happens on its ray, which is the same. -/
theorem coeff_variable_eq (h : t.Rewrites u) (ht : t.Canonical) (hu : u.Canonical)
    (hbasis : u.basis = t.basis) {i column : Nat} (hi : i < t.height)
    (hcolumn : column ∈ t.variableColumns) : u.coeff i column = t.coeff i column := by
  have hray : t.Solves (t.ray column 1) := ht.solves_ray hcolumn 1
  have hbound := h.coeff_boundColumn_eq ht hu hbasis hi
  have hlhs := h.lhs_ray hu hbasis hi hcolumn 1
  rcases Nat.lt_or_ge i t.objectives with hobjective | hconstraint
  · have hresidual := h.residual_eq _ hray i hobjective
    rw [ht.residual_ray hobjective hcolumn, residual, hlhs, if_neg (Nat.not_le.mpr hobjective),
      h.boundColumn_eq, hbound, zero_add, mul_one, mul_one] at hresidual
    exact sub_left_inj.mp hresidual
  · have hrow : i ∈ u.constraintRows :=
      h.constraintRows_eq.symm ▸ mem_constraintRows.mpr ⟨hconstraint, hi⟩
    have hequation := (h.solves_iff _).mpr hray i hrow
    rw [hlhs, if_pos hconstraint, h.boundColumn_eq, hbound, one_mul, mul_one, sub_add,
      sub_eq_self, sub_eq_zero] at hequation
    exact hequation.symm

/-- Tableaus that rewrite each other differ in their bases or not at all. -/
theorem eq_of_basis_eq (h : t.Rewrites u) (ht : t.Canonical) (hu : u.Canonical)
    (hbasis : u.basis = t.basis) : u = t := by
  have hmatrix : u.matrix = t.matrix := by
    refine Matrix.eq_of_coeff_eq h.height_eq h.width_eq fun i hi j hj => ?_
    have hi : i < t.height := h.height_eq ▸ hi
    have hj : j < t.width := h.width_eq ▸ hj
    have hlast : t.boundColumn = t.width - 1 := rfl
    rcases Nat.lt_or_ge j t.objectives with hobjective | hvariable
    · exact h.coeff_eq j hobjective i hi
    · rcases Nat.lt_or_ge j t.boundColumn with hlt | hge
      · exact h.coeff_variable_eq ht hu hbasis hi (mem_variableColumns.mpr ⟨hvariable, hlt⟩)
      · obtain rfl : j = t.boundColumn := by omega
        exact h.coeff_boundColumn_eq ht hu hbasis hi
  rw [h.frame, hmatrix, hbasis]

end Rewrites

omit [Field F] [LinearOrder F] in
/-- The basis is what is basic in the rows. -/
theorem WellShaped.basis_eq_of_basicColumn_eq {t u : Tableau F} (ht : t.WellShaped)
    (hu : u.WellShaped) (hheight : u.height = t.height) (hobjectives : u.objectives = t.objectives)
    (hbasic : ∀ row ∈ t.constraintRows, u.basicColumn row = t.basicColumn row) :
    u.basis = t.basis := by
  have hlength : u.basis.length = t.basis.length := by
    have := ht.height_eq
    have := hu.height_eq
    omega
  refine List.ext_getElem hlength fun k hk hk' => ?_
  have hrow := ht.mem_constraintRows_of_getElem? (List.getElem?_eq_getElem hk')
  have hlow : ¬t.objectives + k < t.objectives := Nat.not_lt.mpr (Nat.le_add_right _ _)
  have hcolumn := hbasic _ hrow
  rw [basicColumn, basicColumn, hobjectives, if_neg hlow, if_neg hlow, Nat.add_sub_cancel_left,
    Fault.fetch_of_lt hk, Fault.fetch_of_lt hk'] at hcolumn
  exact Except.ok.inj hcolumn

/-! ## There and back -/

/-- An exchange can be followed by the opposite one, after which the basis is what it
was. -/
theorem Canonical.exists_return {t : Tableau F} (ht : t.Canonical) {row column left : Nat}
    (hrow : row ∈ t.constraintRows) (hcolumn : column ∈ t.variableColumns)
    (hne : t.coeff row column ≠ 0) (hleft : t.basicColumn row = .ok left) :
    ∃ u v, t.ExchangesTo u ∧ u.ExchangesTo v ∧ t.pivot row column = .ok u ∧
      u.pivot row left = .ok v ∧ v.basis = t.basis := by
  obtain ⟨k, rfl, hk⟩ := exists_getElem?_of_basicRow? (ht.basicColumn_eq_iff.mp hleft)
  have hhigh := (mem_constraintRows.mp hrow).2
  have hmem := ht.basis_mem left (List.mem_of_getElem? hk)
  have hwidth := ht.lt_width_of_mem hcolumn
  obtain ⟨u, hpivot, hthere⟩ := ht.pivot_spec hrow hwidth
  have hrow' : t.objectives + k ∈ u.constraintRows :=
    hthere.sameFrame.constraintRows_eq.symm ▸ hrow
  have hmem' : left ∈ u.variableColumns := hthere.sameFrame.variableColumns_eq.symm ▸ hmem
  -- The column that left has the inverse of the pivot entry in the row.
  have hinverse : u.coeff (t.objectives + k) left = 1 / t.coeff (t.objectives + k) column := by
    rw [hthere.coeff_eq _ hhigh left (ht.lt_width_of_mem hmem), if_pos rfl,
      ht.unit k left hk _ hhigh, if_pos rfl]
  have hne' : u.coeff (t.objectives + k) left ≠ 0 := hinverse ▸ one_div_ne_zero hne
  have hu := hthere.canonical ht hrow hcolumn hne
  have hwidth' := hu.lt_width_of_mem hmem'
  obtain ⟨v, hpivot', hback⟩ := hu.pivot_spec hrow' hwidth'
  refine ⟨u, v, ⟨_, hrow, _, hcolumn, _, entry_eq_ok hhigh hwidth, hne, hpivot⟩,
    ⟨_, hrow', _, hmem', _, entry_eq_ok (mem_constraintRows.mp hrow').2 hwidth', hne', hpivot'⟩,
    hpivot, hpivot', ?_⟩
  rw [hback.basis_eq, hthere.basis_eq, hthere.sameFrame.objectives_eq, Nat.add_sub_cancel_left,
    List.set_set]
  obtain ⟨hlt, hat⟩ := List.getElem?_eq_some_iff.mp hk
  rw [← hat, List.set_getElem_self]

/-! ## The result -/

variable {p : Problem F} {s t u : Tableau F} {tolerance : F}

/-- Exchanges that lead to the same basic columns lead to the same tableau, whatever
they are and however many.  In particular an exchange is undone when the column that
left enters again in the same row. -/
theorem eq_of_exchanges (hinitial : Tableau.initial p tolerance = .ok s) (ht : s.Exchanges t) :
    (∀ u, s.Exchanges u →
      (∀ row ∈ t.constraintRows, u.basicColumn row = t.basicColumn row) → u = t) ∧
      ∀ row ∈ t.constraintRows, ∀ column ∈ t.variableColumns, ∀ entry left,
        t.entry row column = .ok entry → entry ≠ 0 → t.basicColumn row = .ok left →
        ∃ u, t.pivot row column = .ok u ∧ u.pivot row left = .ok t := by
  obtain ⟨-, hisInitial⟩ := isInitial_of_initial_eq hinitial
  obtain ⟨hcanonical, hrewrites⟩ := hisInitial.rewrites ht
  have hsame : ∀ u, s.Exchanges u → u.basis = t.basis → u = t := by
    intro u hu hbasis
    obtain ⟨hcanonical', hrewrites'⟩ := hisInitial.rewrites hu
    exact (hrewrites.symm.trans hrewrites').eq_of_basis_eq hcanonical hcanonical' hbasis
  refine ⟨fun u hu hbasic => hsame u hu ?_, ?_⟩
  · obtain ⟨hcanonical', hrewrites'⟩ := hisInitial.rewrites hu
    have hbetween := hrewrites.symm.trans hrewrites'
    exact hcanonical.basis_eq_of_basicColumn_eq hcanonical'.toWellShaped hbetween.height_eq
      hbetween.objectives_eq hbasic
  · intro row hrow column hcolumn entry left hentry hne hleft
    obtain rfl : t.coeff row column = entry := Except.ok.inj
      ((entry_eq_ok (mem_constraintRows.mp hrow).2 (hcanonical.lt_width_of_mem hcolumn)).symm.trans
        hentry)
    obtain ⟨u, v, htu, huv, hthere, hback, hbasis⟩ :=
      hcanonical.exists_return hrow hcolumn hne hleft
    refine ⟨u, hthere, ?_⟩
    rw [hback, hsame v ((ht.tail htu).tail huv) hbasis]

theorem eq_of_exchanges_detourProblem :
    ∃ s t u v, Tableau.initial detourProblem (1 / 2) = .ok s ∧
      s.follow? [.exchange 2 2, .exchange 3 3] = some t ∧
      s.follow? [.exchange 3 3, .exchange 2 5, .exchange 4 8, .exchange 2 2, .exchange 4 6] =
        some u ∧
      u = t ∧ t.pivot 3 4 = .ok v ∧ v.pivot 3 3 = .ok t := by
  have hruns : ((Tableau.initial detourProblem (1 / 2)).toOption.bind fun s =>
      (s.follow? [.exchange 2 2, .exchange 3 3]).bind fun t =>
        (s.follow? [.exchange 3 3, .exchange 2 5, .exchange 4 8, .exchange 2 2,
          .exchange 4 6]).map fun u =>
          (decide (∀ row ∈ t.constraintRows, u.basicColumn row = t.basicColumn row),
            decide (3 ∈ t.constraintRows ∧ 4 ∈ t.variableColumns), t.entry 3 4,
            t.basicColumn 3)) =
      some (true, true, .ok (-1), .ok 3) := by
    decide +kernel
  obtain ⟨s, hinitial, hruns⟩ := Option.bind_eq_some_iff.mp hruns
  obtain ⟨t, ht, hruns⟩ := Option.bind_eq_some_iff.mp hruns
  obtain ⟨u, hu, hruns⟩ := Option.map_eq_some_iff.mp hruns
  obtain ⟨hbasic, hruns⟩ := Prod.mk.inj hruns
  obtain ⟨hplace, hruns⟩ := Prod.mk.inj hruns
  obtain ⟨hentry, hleft⟩ := Prod.mk.inj hruns
  have hinitial := Fault.eq_ok_of_toOption_eq_some hinitial
  obtain ⟨hrow, hcolumn⟩ := of_decide_eq_true hplace
  obtain ⟨hsame, hreturns⟩ :=
    eq_of_exchanges hinitial (exchanges_of_follow?_eq_some (by decide) ht)
  have hequal := hsame u (exchanges_of_follow?_eq_some (by decide) hu) (of_decide_eq_true hbasic)
  obtain ⟨v, hthere, hback⟩ := hreturns 3 hrow 4 hcolumn _ 3 hentry (by decide) hleft
  exact ⟨s, t, u, v, hinitial, ht, hu, hequal, hthere, hback⟩

end PrimalSimplex.Tableau
