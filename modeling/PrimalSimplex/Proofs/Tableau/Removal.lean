/-
  `Proofs.Tableau.Removal`: leaving the first phase in place.

  A reduction was defined by the positions that are kept.  In place, the columns to remove
  are collected one reason after the other, and then sorted, and equal ones beside each
  other become one.  At these positions something is removed from the labels and from each
  row but the first one, by whatever function does that, and every basic column moves by as
  many places as smaller columns are removed, which a search by halving counts.  A column
  that moved below zero would be a fault.  None does, and all parts are those of the
  reduction, in any arithmetic.
-/
import Mathlib.Data.List.Destutter
import PrimalSimplex.Proofs.Matrix.Without
import PrimalSimplex.Proofs.Tableau.Reduction

set_option autoImplicit false

namespace PrimalSimplex

open Column (Label)

/-! ## Sorted lists -/

/-- Once sorted, a list is strictly increasing up to repetitions, and so it is known by its
elements. -/
theorem destutter_mergeSort_eq {found columns : List Nat} (hcolumns : columns.Pairwise (· < ·))
    (hmem : ∀ j, j ∈ found ↔ j ∈ columns) : found.mergeSort.destutter (· ≠ ·) = columns := by
  have hsorted : found.mergeSort.Pairwise (· ≤ ·) := by
    refine (List.pairwise_mergeSort (fun i j k hij hjk => ?_) (fun i j => ?_) found).imp
      fun h => of_decide_eq_true h
    · exact decide_eq_true ((of_decide_eq_true hij).trans (of_decide_eq_true hjk))
    · simpa using le_total i j
  rw [hsorted.destutter_eq_dedup]
  refine List.Perm.eq_of_pairwise (fun _ _ _ _ => Nat.le_antisymm)
    (hsorted.sublist (List.dedup_sublist _)) (hcolumns.imp Nat.le_of_lt) ?_
  refine (List.perm_ext_iff_of_nodup (List.nodup_dedup _) (hcolumns.imp Nat.ne_of_lt)).mpr
    fun j => ?_
  rw [List.mem_dedup, List.mem_mergeSort, hmem]

namespace Rows

/-- The number of elements that pass a test, if these are the first ones: the one in the
middle is tested, and then the half where the last of them can be. -/
def frontLength (test : Nat → Bool) (elements : List Nat) : Nat :=
  if h : 0 < elements.length then
    let middle := elements.length / 2
    have hmiddle : middle < elements.length := Nat.div_lt_self h Nat.one_lt_two
    if test elements[middle] then middle + 1 + frontLength test (elements.drop (middle + 1))
    else frontLength test (elements.take middle)
  else 0
termination_by elements.length
decreasing_by
  · rw [List.length_drop]
    exact Nat.sub_lt h (Nat.succ_pos _)
  · rw [List.length_take]
    exact Nat.lt_of_le_of_lt (Nat.min_le_left ..) hmiddle

theorem frontLength_eq_countP {test : Nat → Bool} {elements : List Nat}
    (h : elements.Pairwise fun i j => test j = true → test i = true) :
    frontLength test elements = elements.countP test := by
  -- The elements before the middle, this one, and those after it.
  have hsplit : ∀ {es : List Nat} {k : Nat} (hk : k < es.length),
      es = es.take k ++ es[k] :: es.drop (k + 1) := by
    intro es k hk
    rw [List.cons_getElem_drop_succ, List.take_append_drop]
  fun_induction frontLength test elements with
  | case1 elements hpos middle hmiddle hpasses ih =>
    have hcut := hsplit hmiddle
    have hfront : (elements.take middle).countP test = middle := by
      rw [List.countP_eq_length.mpr fun i hi => ?_, List.length_take,
        Nat.min_eq_left (Nat.le_of_lt hmiddle)]
      rw [hcut] at h
      exact (List.pairwise_append.mp h).2.2 i hi _ (List.mem_cons_self ..) hpasses
    rw [ih h.drop]
    conv_rhs => rw [hcut, List.countP_append, hfront, List.countP_cons_of_pos hpasses]
    omega
  | case2 elements hpos middle hmiddle hfails ih =>
    have hcut := hsplit hmiddle
    have hback : (elements.drop (middle + 1)).countP test = 0 := by
      refine List.countP_eq_zero.mpr fun i hi hpasses => hfails ?_
      rw [hcut] at h
      exact (List.pairwise_cons.mp (List.pairwise_append.mp h).2.1).1 i hi hpasses
    rw [ih h.take]
    conv_rhs => rw [hcut, List.countP_append, List.countP_cons_of_neg hfails, hback, Nat.add_zero]
  | case3 elements hpos =>
    obtain rfl := List.length_eq_zero_iff.mp (Nat.eq_zero_of_not_pos hpos)
    rfl

end Rows

/-- Subtracts a number that must not be the greater one. -/
def Fault.subtract (i j : Nat) : Except Fault Nat :=
  if j ≤ i then .ok (i - j) else .error .outOfRange

/-! ## Leaving the first phase -/

/-- What a tableau stores after columns were removed, and the variables of those columns. -/
structure Remains (F : Type) where
  rows : List (List F)
  labels : List Label
  basis : List Nat
  removed : List Label

namespace Tableau

variable {F : Type} [Scalar F]

/-- The columns to remove, with the column of the auxiliary objective first, then those
with a positive cost, and then those of artificial variables that are not basic. -/
def foundColumns (t : Tableau F) : Except Fault (List Nat) := do
  let costly ← Fault.filter (fun column => do
    return Scalar.isPositive (← t.cost column) t.tolerance) t.variableColumns
  let idle ← Fault.filter (fun column => do
    return (← t.label column).isArtificial && (t.basicRow? column).isNone) t.variableColumns
  return 0 :: (costly ++ idle)

/-- Removes the first row and what is found, given a function that removes the elements at
some positions. -/
def cutDown (remove : (α : Type) → List Nat → List α → List α) (t : Tableau F) :
    Except Fault (Remains F) := do
  let columns := (← t.foundColumns).mergeSort.destutter (· ≠ ·)
  let removed ← columns.mapM t.label
  let basis ← t.basis.mapM fun column =>
    Fault.subtract column (Rows.frontLength (fun j => j < column) columns)
  return ⟨Rows.leaveOut (remove F) [0] columns t.matrix.rows, remove Label columns t.labels, basis,
    removed⟩

variable {t u : Tableau F} {removed : List Label}

/-- In order and without repetitions, these are the surplus columns. -/
theorem WellShaped.exists_foundColumns (h : t.WellShaped) :
    ∃ found, t.foundColumns = .ok found ∧ found.mergeSort.destutter (· ≠ ·) = t.surplus := by
  have hcostly : Fault.filter (fun column => do
      return Scalar.isPositive (← t.cost column) t.tolerance) t.variableColumns =
      .ok (t.variableColumns.filter fun j => Scalar.isPositive (t.coeff 0 j) t.tolerance) := by
    refine Fault.filter_eq_ok fun j hj => ?_
    rw [h.cost_eq_ok (h.lt_width_of_mem hj)]
    rfl
  have hidle : Fault.filter (fun column => do
      return (← t.label column).isArtificial && (t.basicRow? column).isNone) t.variableColumns =
      .ok (t.variableColumns.filter fun j =>
        (t.labelAt j).isArtificial && (t.basicRow? j).isNone) := by
    refine Fault.filter_eq_ok fun j hj => ?_
    rw [h.label_eq_ok (h.lt_width_of_mem hj)]
    rfl
  refine ⟨_, by rw [foundColumns, hcostly, hidle]; rfl, ?_⟩
  have hpositions := arePositions_iff.mp (t.arePositions_surplus h.objectives_lt_width)
  refine destutter_mergeSort_eq hpositions.1 fun j => ?_
  rw [surplus, List.mem_cons, List.mem_cons, List.mem_append, List.mem_filter, List.mem_filter,
    List.mem_filter, ← and_or_left, isSurplusAt, Bool.or_eq_true]

/-- A basic column moves down to the number of columns that are kept before it. -/
theorem subtract_frontLength_eq {columns : List Nat} (hcolumns : columns.Pairwise (· < ·))
    (column : Nat) : Fault.subtract column (Rows.frontLength (fun j => j < column) columns) =
      .ok (keptPositions columns column).length := by
  have hfront : Rows.frontLength (fun j => j < column) columns = columns.countP (· < column) := by
    refine Rows.frontLength_eq_countP (hcolumns.imp fun hlt hpasses => ?_)
    exact decide_eq_true (hlt.trans (of_decide_eq_true hpasses))
  have hcount := countP_add_length_keptPositions (hcolumns.imp Nat.ne_of_lt) column
  rw [hfront, Fault.subtract, if_pos (by omega)]
  exact congrArg Except.ok (by omega)

/-- Whatever removes positions, what it leaves of a tableau is its reduction. -/
theorem WellShaped.cutDown_eq_ok (h : t.WellShaped) (hphase : t.phase = .feasibility)
    (hreduce : t.reduce = .ok ⟨u, removed⟩) {remove : (α : Type) → List Nat → List α → List α}
    (hremove : ∀ α, Rows.Removes (remove α)) :
    t.cutDown remove = .ok ⟨u.matrix.rows, u.labels, u.basis, removed⟩ := by
  obtain ⟨found, hfound, hcolumns⟩ := h.exists_foundColumns
  have hpositions := t.arePositions_surplus h.objectives_lt_width
  have hincreasing := (arePositions_iff.mp hpositions).1
  rw [Tableau.reduce, hphase] at hreduce
  obtain ⟨surplus, hsurplus, hreduce⟩ := Fault.bind_eq_ok_iff.mp hreduce
  obtain rfl := Except.ok.inj (h.surplusColumns_eq_ok.symm.trans hsurplus)
  obtain ⟨names, hnames, hreduce⟩ := Fault.bind_eq_ok_iff.mp hreduce
  obtain ⟨m, hm, hreduce⟩ := Fault.bind_eq_ok_iff.mp hreduce
  obtain ⟨rfl, rfl⟩ := Reduction.mk.inj (Except.ok.inj hreduce)
  have hrows : arePositions [0] t.matrix.height = true :=
    arePositions_iff.mpr ⟨List.pairwise_singleton .., fun i hi => by
      rw [List.mem_singleton.mp hi]
      exact h.height_pos⟩
  obtain ⟨n, hn, hleft, -⟩ := Matrix.exists_without hrows hpositions
  obtain rfl := Except.ok.inj (hm.symm.trans hn)
  have hmatrix : Rows.leaveOut (remove F) [0] t.surplus t.matrix.rows = m.rows := by
    rw [hleft]
    refine Rows.leaveOut_eq (hremove F) (List.pairwise_singleton ..) fun row hrow => ?_
    rwa [t.matrix.length_of_mem row hrow]
  have hlabels : remove Label t.surplus t.labels = dropPositions t.surplus t.labels := by
    refine List.ext_getElem? fun k => ?_
    rw [hremove Label t.surplus t.labels (h.length_labels.symm ▸ hpositions),
      getElem?_dropPositions_eq]
  have hbasis := Fault.mapM_eq_ok fun column (_ : column ∈ t.basis) =>
    subtract_frontLength_eq hincreasing column
  unfold cutDown
  simp only [hfound, hcolumns, hnames, hbasis, hmatrix, hlabels, bind, Except.bind, pure,
    Except.pure]

end Tableau

end PrimalSimplex
