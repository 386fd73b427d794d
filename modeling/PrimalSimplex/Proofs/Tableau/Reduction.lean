/-
  `Proofs.Tableau.Reduction`: what leaving the first phase does to a tableau.

  Row 0 goes, and with it the surplus columns.  A column that stays keeps its
  label and, below row 0, its entries; only its position changes, to the number
  of columns kept before it.  The equations lose the surplus variables and nothing
  else, so for an assignment that is zero on these they are the equations of
  before.
-/
import PrimalSimplex.Proofs.Tableau.Canonical

set_option autoImplicit false

namespace PrimalSimplex.Tableau

open Column (Label)

variable {F : Type}

/-! ## Columns that go and columns that stay -/

section Positions

variable [Scalar F]

/-- Whether a variable column goes: it has a positive auxiliary cost, or it is
artificial and not basic. -/
def isSurplusAt (t : Tableau F) (j : Nat) : Bool :=
  Scalar.isPositive (t.coeff 0 j) t.tolerance ||
    ((t.labelAt j).isArtificial && (t.basicRow? j).isNone)

/-- The columns that go. -/
def surplus (t : Tableau F) : List Nat := 0 :: t.variableColumns.filter t.isSurplusAt

/-- The variable columns that stay. -/
def staying (t : Tableau F) : List Nat := t.variableColumns.filter fun j => !t.isSurplusAt j

/-- The position of a column that stays. -/
def renumber (t : Tableau F) (j : Nat) : Nat := (keptPositions t.surplus j).length

theorem mem_staying {t : Tableau F} {j : Nat} :
    j ∈ t.staying ↔ j ∈ t.variableColumns ∧ t.isSurplusAt j = false := by
  rw [staying, List.mem_filter, Bool.not_eq_true']

theorem not_mem_surplus_of_mem_staying {t : Tableau F} {j : Nat} (hj : j ∈ t.staying) :
    j ∉ t.surplus := by
  obtain ⟨hmem, hstays⟩ := mem_staying.mp hj
  have hpos := t.objectives_pos
  have hlow := (mem_variableColumns.mp hmem).1
  intro hgoes
  obtain rfl | hgoes := List.mem_cons.mp hgoes
  · omega
  · rw [(List.mem_filter.mp hgoes).2] at hstays
    cases hstays

theorem WellShaped.surplusColumns_eq_ok {t : Tableau F} (h : t.WellShaped) :
    t.surplusColumns = .ok t.surplus := by
  have hfilter : Fault.filter t.isSurplus t.variableColumns =
      .ok (t.variableColumns.filter t.isSurplusAt) := by
    refine Fault.filter_eq_ok fun j hj => ?_
    have hwidth := h.lt_width_of_mem hj
    rw [isSurplus, h.cost_eq_ok hwidth, h.label_eq_ok hwidth]
    rfl
  rw [surplusColumns, hfilter]
  rfl

/-- With two objectives, the positions that are kept are those of the second
objective, of the staying variables and of the right hand sides. -/
theorem WellShaped.keptPositions_surplus {t : Tableau F} (h : t.WellShaped)
    (hphase : t.phase = .feasibility) :
    keptPositions t.surplus t.width = 1 :: (t.staying ++ [t.boundColumn]) := by
  have htwo : t.objectives = 2 := by rw [objectives, hphase]; rfl
  have hwidth := h.objectives_lt_width
  have hbound : t.boundColumn = t.width - 1 := rfl
  have hrange : List.range t.width = 0 :: 1 :: (t.variableColumns ++ [t.boundColumn]) := by
    have hsize : t.width = t.boundColumn - 2 + 1 + 1 + 1 := by omega
    have hlast : 1 + 1 + (t.boundColumn - 2) = t.boundColumn := by omega
    rw [variableColumns, htwo, List.range_eq_range', hsize, List.range'_succ, List.range'_succ,
      List.range'_1_concat, Nat.zero_add, hlast]
  have hone : 1 ∉ t.surplus := by
    intro hmem
    obtain hzero | hmem := List.mem_cons.mp hmem
    · omega
    · have := (mem_variableColumns.mp (List.mem_filter.mp hmem).1).1
      omega
  have hlast : t.boundColumn ∉ t.surplus := by
    intro hmem
    obtain hzero | hmem := List.mem_cons.mp hmem
    · omega
    · have := (mem_variableColumns.mp (List.mem_filter.mp hmem).1).2
      omega
  have hmiddle : (t.variableColumns.filter fun j => !t.surplus.contains j) = t.staying := by
    refine List.filter_congr fun j hj => congrArg (! ·) ?_
    have hpos : j ≠ 0 := by
      have := (mem_variableColumns.mp hj).1
      omega
    rw [Bool.eq_iff_iff, List.contains_iff_mem, surplus, List.mem_cons, List.mem_filter]
    exact ⟨fun hor => (hor.resolve_left hpos).2, fun hgoes => .inr ⟨hj, hgoes⟩⟩
  have hzero : 0 ∈ t.surplus := List.mem_cons_self ..
  rw [keptPositions, hrange, List.filter_cons, List.filter_cons, List.filter_append, hmiddle]
  simp [hzero, hone, hlast]

theorem renumber_eq_of_getElem? {t : Tableau F} {count k j : Nat}
    (h : (keptPositions t.surplus count)[k]? = some j) : t.renumber j = k := by
  obtain ⟨hlt, hkept⟩ := mem_keptPositions.mp (List.mem_of_getElem? h)
  have hnodup : (keptPositions t.surplus count).Nodup :=
    (pairwise_keptPositions _ _).imp fun hlt => Nat.ne_of_lt hlt
  have hplace := getElem?_keptPositions_length hlt hkept
  exact (List.getElem?_inj (List.getElem?_eq_some_iff.mp hplace).1 hnodup).mp
    (hplace.trans h.symm)

/-! ## The reduced tableau -/

/-- The second tableau is the first one after it has left the first phase. -/
structure IsReduction (t u : Tableau F) : Prop where
  phase_eq : t.phase = .feasibility
  frame : u = { t with
    matrix := u.matrix
    labels := dropPositions t.surplus t.labels
    basis := t.basis.map t.renumber
    artificials := 0
    phase := .optimality }
  height_eq : u.height + 1 = t.height
  width_eq : u.width = (keptPositions t.surplus t.width).length
  coeff_eq : ∀ i k j, i + 1 < t.height → (keptPositions t.surplus t.width)[k]? = some j →
    u.coeff i k = t.coeff (i + 1) j

theorem arePositions_surplus (t : Tableau F) (hwidth : t.objectives < t.width) :
    arePositions t.surplus t.width = true := by
  have hpos := t.objectives_pos
  have hbound : t.boundColumn = t.width - 1 := rfl
  unfold arePositions surplus
  rw [Bool.and_eq_true, decide_eq_true_iff, List.all_eq_true, List.pairwise_cons]
  refine ⟨⟨fun j hj => ?_, ?_⟩, fun j hj => ?_⟩
  · have := (mem_variableColumns.mp (List.mem_filter.mp hj).1).1
    omega
  · exact List.Pairwise.filter _ List.pairwise_lt_range'
  · rw [decide_eq_true_iff]
    obtain rfl | hj := List.mem_cons.mp hj
    · omega
    · have := (mem_variableColumns.mp (List.mem_filter.mp hj).1).2
      omega

theorem lt_width_of_mem_surplus {t : Tableau F} (hwidth : t.objectives < t.width) {j : Nat}
    (hj : j ∈ t.surplus) : j < t.width := by
  have hall := (Bool.and_eq_true_iff.mp (t.arePositions_surplus hwidth)).2
  exact decide_eq_true_iff.mp (List.all_eq_true.mp hall j hj)

/-- Without row 0, row `i` is what row `i + 1` was. -/
theorem keptPositions_zero (n : Nat) : keptPositions [0] (n + 1) = (List.range n).map (· + 1) := by
  rw [keptPositions, List.range_succ_eq_map, List.filter_cons, if_neg (by simp)]
  refine List.filter_eq_self.mpr fun i hi => ?_
  obtain ⟨k, _, rfl⟩ := List.mem_map.mp hi
  simp

/-- Leaving the first phase succeeds, and the variables that go are those of the
surplus columns. -/
theorem WellShaped.reduce_spec {t : Tableau F} (h : t.WellShaped)
    (hphase : t.phase = .feasibility) :
    ∃ u, t.reduce = .ok ⟨u, t.surplus.map t.labelAt⟩ ∧ t.IsReduction u := by
  have hpos := h.height_pos
  obtain ⟨n, hn⟩ : ∃ n, t.height = n + 1 := ⟨t.height - 1, by omega⟩
  have hcolumns := t.arePositions_surplus h.objectives_lt_width
  have hrows : arePositions [0] t.matrix.height = true := by
    have hlt : 0 < t.matrix.height := hpos
    simp [arePositions, hlt]
  have hlabels : t.surplus.mapM t.label = .ok (t.surplus.map t.labelAt) := by
    refine Fault.mapM_eq_ok fun j hj => h.label_eq_ok ?_
    exact lt_width_of_mem_surplus h.objectives_lt_width hj
  obtain ⟨m, hm, hheight, hwidth, hcoeff⟩ := Matrix.without_spec hrows hcolumns
  have hkept : keptPositions [0] t.matrix.height = (List.range n).map (· + 1) := by
    rw [show t.matrix.height = n + 1 from hn, keptPositions_zero]
  refine ⟨{ t with
    matrix := m
    labels := dropPositions t.surplus t.labels
    basis := t.basis.map t.renumber
    artificials := 0
    phase := .optimality }, ?_, hphase, rfl, ?_, hwidth, fun i k j hi hj => ?_⟩
  · unfold reduce
    rw [hphase]
    simp only [h.surplusColumns_eq_ok, hlabels, hm, bind, Except.bind, pure, Except.pure]
    rfl
  · show m.height + 1 = t.height
    rw [hheight, hkept, List.length_map, List.length_range, hn]
  · refine hcoeff i k (i + 1) j ?_ hj
    rw [hkept, List.getElem?_map, List.getElem?_range (by omega), Option.map_some]

theorem WellShaped.isReduction_of_reduce_eq {t u : Tableau F} (h : t.WellShaped)
    (hphase : t.phase = .feasibility) {removed : List Label}
    (hreduce : t.reduce = .ok ⟨u, removed⟩) : t.IsReduction u := by
  obtain ⟨v, hv, hreduction⟩ := h.reduce_spec hphase
  obtain rfl := congrArg Reduction.tableau (Except.ok.inj (hv.symm.trans hreduce))
  exact hreduction

theorem reduce_of_optimality {t : Tableau F} (hphase : t.phase = .optimality) :
    t.reduce = .ok ⟨t, []⟩ := by
  unfold reduce
  rw [hphase]
  rfl

/-- Whether or not there was a first phase to leave, the second one is next. -/
theorem phase_eq_of_reduce_eq {t u : Tableau F} {removed : List Label}
    (hreduce : t.reduce = .ok ⟨u, removed⟩) : u.phase = .optimality := by
  cases hphase : t.phase with
  | optimality =>
    rw [reduce_of_optimality hphase] at hreduce
    obtain rfl : t = u := congrArg Reduction.tableau (Except.ok.inj hreduce)
    exact hphase
  | feasibility =>
    rw [reduce, hphase] at hreduce
    obtain ⟨_, _, hlabels⟩ := Fault.bind_eq_ok_iff.mp hreduce
    obtain ⟨_, _, hmatrix⟩ := Fault.bind_eq_ok_iff.mp hlabels
    obtain ⟨m, _, hu⟩ := Fault.bind_eq_ok_iff.mp hmatrix
    obtain rfl := congrArg Reduction.tableau (Except.ok.inj hu)
    rfl

namespace IsReduction

variable {t u : Tableau F}

theorem objectives_eq (h : t.IsReduction u) : u.objectives = 1 := by
  rw [h.frame]
  rfl

theorem objectives_eq_two (h : t.IsReduction u) : t.objectives = 2 := by
  rw [objectives, h.phase_eq]
  rfl

theorem labels_eq (h : t.IsReduction u) : u.labels = dropPositions t.surplus t.labels := by
  rw [h.frame]

theorem basis_eq (h : t.IsReduction u) : u.basis = t.basis.map t.renumber := by
  rw [h.frame]

/-! ## Columns that stay -/

theorem width_eq_add_two (h : t.IsReduction u) (ht : t.WellShaped) :
    u.width = t.staying.length + 2 := by
  rw [h.width_eq, ht.keptPositions_surplus h.phase_eq]
  simp

theorem boundColumn_eq (h : t.IsReduction u) (ht : t.WellShaped) :
    u.boundColumn = t.staying.length + 1 := by
  rw [boundColumn, h.width_eq_add_two ht]
  omega

theorem variableColumns_eq (h : t.IsReduction u) (ht : t.WellShaped) :
    u.variableColumns = t.staying.map t.renumber := by
  have hlength : u.variableColumns = List.range' 1 t.staying.length := by
    rw [variableColumns, h.objectives_eq, h.boundColumn_eq ht, Nat.add_sub_cancel]
  rw [hlength]
  refine List.ext_getElem (by simp) fun k hk hk' => ?_
  have hlt : k < t.staying.length := by simpa using hk
  have hplace : (keptPositions t.surplus t.width)[k + 1]? = some t.staying[k] := by
    rw [ht.keptPositions_surplus h.phase_eq, List.getElem?_cons_succ,
      List.getElem?_append_left hlt, List.getElem?_eq_getElem hlt]
  rw [List.getElem_range', List.getElem_map, renumber_eq_of_getElem? hplace]
  omega

/-- A column that stays is found at its new position. -/
theorem getElem?_renumber {j : Nat} (ht : t.WellShaped) (hj : j ∈ t.staying) :
    (keptPositions t.surplus t.width)[t.renumber j]? = some j :=
  getElem?_keptPositions_length (ht.lt_width_of_mem (mem_staying.mp hj).1)
    (not_mem_surplus_of_mem_staying hj)

theorem labelAt_renumber (h : t.IsReduction u) (ht : t.WellShaped) {j : Nat}
    (hj : j ∈ t.staying) : u.labelAt (t.renumber j) = t.labelAt j := by
  apply labelAt_of_getElem?
  rw [h.labels_eq, getElem?_dropPositions (i := j)]
  · exact ht.getElem?_labels (ht.lt_width_of_mem (mem_staying.mp hj).1)
  · rw [ht.length_labels]
    exact getElem?_renumber ht hj

theorem unknowns_eq (h : t.IsReduction u) (ht : t.WellShaped) :
    u.unknowns = t.staying.map t.labelAt := by
  rw [unknowns, h.variableColumns_eq ht, List.map_map]
  exact List.map_congr_left fun j hj => h.labelAt_renumber ht hj

theorem coeff_renumber (h : t.IsReduction u) (ht : t.WellShaped) {i j : Nat}
    (hi : i + 1 < t.height) (hj : j ∈ t.staying) :
    u.coeff i (t.renumber j) = t.coeff (i + 1) j :=
  h.coeff_eq i _ j hi (getElem?_renumber ht hj)

theorem coeff_boundColumn (h : t.IsReduction u) (ht : t.WellShaped) {i : Nat}
    (hi : i + 1 < t.height) : u.coeff i u.boundColumn = t.coeff (i + 1) t.boundColumn := by
  apply h.coeff_eq i _ _ hi
  rw [ht.keptPositions_surplus h.phase_eq, h.boundColumn_eq ht, List.getElem?_cons_succ,
    List.getElem?_append_right (Nat.le_refl _), Nat.sub_self]
  rfl

/-- Constraint rows move up by one. -/
theorem mem_constraintRows_iff (h : t.IsReduction u) {i : Nat} :
    i ∈ u.constraintRows ↔ i + 1 ∈ t.constraintRows := by
  have hheight := h.height_eq
  rw [mem_constraintRows, mem_constraintRows, h.objectives_eq, h.objectives_eq_two]
  omega

/-- Sizes still fit together, wherever the basic columns go. -/
theorem wellShaped (h : t.IsReduction u) (ht : t.WellShaped) : u.WellShaped where
  length_labels := by rw [h.labels_eq, length_dropPositions, ht.length_labels, h.width_eq]
  height_eq := by
    have hheight := h.height_eq
    rw [ht.height_eq, h.objectives_eq_two] at hheight
    rw [h.objectives_eq, h.basis_eq, List.length_map]
    omega
  objectives_lt_width := by
    rw [h.objectives_eq, h.width_eq_add_two ht]
    omega
  basis_lt c hc := by
    rw [h.basis_eq] at hc
    obtain ⟨b, hb, rfl⟩ := List.mem_map.mp hc
    have hlt := ht.basis_lt b hb
    -- At least the last column is kept behind the ones before a basic column.
    have hlast : t.boundColumn ∈ keptPositions t.surplus t.width := by
      rw [ht.keptPositions_surplus h.phase_eq]
      exact List.mem_cons_of_mem _ (List.mem_append_right _ (List.mem_singleton_self _))
    have hplace := getElem?_keptPositions_length (mem_keptPositions.mp hlast).1
      (mem_keptPositions.mp hlast).2
    obtain ⟨rest, hrest⟩ : ∃ rest, t.boundColumn = b + rest :=
      ⟨t.boundColumn - b, by have : t.boundColumn = t.width - 1 := rfl; omega⟩
    have hle : t.renumber b ≤ (keptPositions t.surplus t.boundColumn).length := by
      rw [hrest, keptPositions_add, List.length_append]
      exact Nat.le_add_right _ _
    rw [h.width_eq]
    exact Nat.lt_of_le_of_lt hle (List.getElem?_eq_some_iff.mp hplace).1

end IsReduction

end Positions

namespace IsReduction

variable [Field F] [LinearOrder F] {t u : Tableau F}

/-! ## Equations -/

/-- A variable whose column goes has no other one. -/
theorem eq_zero_of_covers (h : t.IsReduction u) (ht : t.Canonical) {x : Label → F}
    (hx : u.Covers x) {j : Nat} (hj : j ∈ t.variableColumns) (hgoes : j ∉ t.staying) :
    x (t.labelAt j) = 0 := by
  refine hx _ fun hmem => hgoes ?_
  rw [h.unknowns_eq ht.toWellShaped] at hmem
  obtain ⟨k, hk, hlabel⟩ := List.mem_map.mp hmem
  exact ht.eq_of_labelAt_eq (ht.lt_width_of_mem (mem_staying.mp hk).1) (ht.lt_width_of_mem hj)
    hlabel ▸ hk

theorem lhs_eq (h : t.IsReduction u) (ht : t.Canonical) {x : Label → F} (hx : u.Covers x)
    {i : Nat} (hi : i + 1 < t.height) : u.lhs i x = t.lhs (i + 1) x := by
  have hstay : u.lhs i x =
      (t.staying.map fun j => t.coeff (i + 1) j * x (t.labelAt j)).sum := by
    rw [lhs, h.variableColumns_eq ht.toWellShaped, List.map_map]
    refine congrArg List.sum (List.map_congr_left fun j hj => ?_)
    rw [Function.comp_apply, h.coeff_renumber ht.toWellShaped hi hj,
      h.labelAt_renumber ht.toWellShaped hj]
  -- What goes contributes nothing to the sum.
  have hgoes : ∀ j ∈ t.variableColumns, t.coeff (i + 1) j * x (t.labelAt j) ≠ 0 →
      j ∈ t.staying := by
    intro j hj hne
    by_contra hout
    exact hne (by rw [h.eq_zero_of_covers ht hx hj hout, mul_zero])
  have hfinset : t.staying.toFinset ⊆ t.variableColumns.toFinset := by
    intro j hj
    exact List.mem_toFinset.mpr (mem_staying.mp (List.mem_toFinset.mp hj)).1
  have hnodup : t.staying.Nodup := t.nodup_variableColumns.filter _
  rw [hstay, lhs, ← List.sum_toFinset _ hnodup,
    ← List.sum_toFinset _ t.nodup_variableColumns]
  refine Finset.sum_subset hfinset fun j hj hout => ?_
  by_contra hne
  exact hout (List.mem_toFinset.mpr (hgoes j (List.mem_toFinset.mp hj) hne))

theorem residual_eq (h : t.IsReduction u) (ht : t.Canonical) {x : Label → F} (hx : u.Covers x)
    {i : Nat} (hi : i + 1 < t.height) : u.residual i x = t.residual (i + 1) x := by
  rw [residual, residual, h.lhs_eq ht hx hi, h.coeff_boundColumn ht.toWellShaped hi]

theorem solves_iff (h : t.IsReduction u) (ht : t.Canonical) {x : Label → F} (hx : u.Covers x) :
    u.Solves x ↔ t.Solves x := by
  constructor
  · intro hsolves i hi
    obtain ⟨hlow, hhigh⟩ := mem_constraintRows.mp hi
    have hpos := t.objectives_pos
    obtain ⟨i, rfl⟩ : ∃ k, i = k + 1 := ⟨i - 1, by omega⟩
    rw [← h.lhs_eq ht hx hhigh, ← h.coeff_boundColumn ht.toWellShaped hhigh]
    exact hsolves i (h.mem_constraintRows_iff.mpr hi)
  · intro hsolves i hi
    have hi := h.mem_constraintRows_iff.mp hi
    have hhigh := (mem_constraintRows.mp hi).2
    rw [h.lhs_eq ht hx hhigh, h.coeff_boundColumn ht.toWellShaped hhigh]
    exact hsolves _ hi

/-- A reduction restates the tableau. -/
theorem restates (h : t.IsReduction u) (ht : t.Canonical) : t.Restates u where
  unknowns_subset label hlabel := by
    rw [h.unknowns_eq ht.toWellShaped] at hlabel
    obtain ⟨j, hj, rfl⟩ := List.mem_map.mp hlabel
    exact labelAt_mem_unknowns (mem_staying.mp hj).1
  solves_iff x hx := h.solves_iff ht hx
  objective_eq x hx _ := by
    have hheight := ht.height_eq
    have htwo := h.objectives_eq_two
    rw [objectiveRow, objectiveRow, h.objectives_eq, htwo]
    exact h.residual_eq ht hx (by omega)
  auxiliary_eq hphase := by
    rw [h.frame] at hphase
    cases hphase
  nonNegative_eq := by rw [h.frame]
  tolerance_eq := by rw [h.frame]

/-! ## Shape -/

/-- A basic column costs nothing and so stays. -/
theorem mem_staying_of_mem_basis [IsStrictOrderedRing F] (ht : t.Canonical)
    (htolerance : 0 ≤ t.tolerance) {c : Nat} (hc : c ∈ t.basis) : c ∈ t.staying := by
  refine mem_staying.mpr ⟨ht.basis_mem c hc, ?_⟩
  have hcost : Scalar.isPositive (t.coeff 0 c) t.tolerance = false := by
    rw [ht.coeff_objective_eq_zero t.objectives_pos hc, ← Bool.not_eq_true,
      Scalar.isPositive_iff_lt htolerance, not_lt]
    exact htolerance
  obtain ⟨k, hk⟩ := List.mem_iff_getElem?.mp hc
  rw [isSurplusAt, hcost, ht.basicRow?_eq_some hk]
  exact Bool.and_false _

/-- The basis shows in what stays. -/
theorem canonical [IsStrictOrderedRing F] (h : t.IsReduction u) (ht : t.Canonical)
    (htolerance : 0 ≤ t.tolerance) : u.Canonical where
  toWellShaped := h.wellShaped ht.toWellShaped
  nodup_labels := by
    rw [h.labels_eq]
    exact ht.nodup_labels.sublist (dropPositions_sublist _ _)
  basis_mem c hc := by
    rw [h.basis_eq] at hc
    obtain ⟨b, hb, rfl⟩ := List.mem_map.mp hc
    rw [h.variableColumns_eq ht.toWellShaped]
    exact List.mem_map_of_mem (mem_staying_of_mem_basis ht htolerance hb)
  unit k c hk i hi := by
    rw [h.basis_eq, List.getElem?_map] at hk
    obtain ⟨b, hb, rfl⟩ := Option.map_eq_some_iff.mp hk
    have hstay := mem_staying_of_mem_basis ht htolerance (List.mem_of_getElem? hb)
    have hheight := h.height_eq
    rw [h.coeff_renumber ht.toWellShaped (by omega) hstay, ht.unit k b hb _ (by omega),
      h.objectives_eq, h.objectives_eq_two]
    exact if_congr (by omega) rfl rfl

end IsReduction

end PrimalSimplex.Tableau
