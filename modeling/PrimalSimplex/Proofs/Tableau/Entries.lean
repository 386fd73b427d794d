/-
  `Proofs.Tableau.Entries`: tableaus as functions from positions to numbers.

  A tableau is well shaped when its labels, its basis and its matrix have sizes
  that fit together.  Then no operation of a run addresses anything that is not
  there, whatever the numbers are; each lemma below gives the answer of one
  operation in terms of `coeff` and `labelAt`, so that later proofs neither open
  the operation nor meet a fault.
-/
import PrimalSimplex.Proofs.Matrix.Entries
import PrimalSimplex.Tableau.BasicSolution
import PrimalSimplex.Tableau.Entering
import PrimalSimplex.Tableau.RatioTest
import PrimalSimplex.Tableau.Reduction

set_option autoImplicit false

namespace PrimalSimplex

open Column (Label)

theorem Phase.objectives_pos (p : Phase) : 0 < p.objectives := by
  cases p <;> decide

namespace Tableau

variable {F : Type}

/-! ## Positions -/

theorem objectives_pos (t : Tableau F) : 0 < t.objectives := t.phase.objectives_pos

theorem mem_constraintRows {t : Tableau F} {i : Nat} :
    i ∈ t.constraintRows ↔ t.objectives ≤ i ∧ i < t.height := by
  rw [constraintRows, List.mem_range'_1]
  omega

theorem mem_variableColumns {t : Tableau F} {j : Nat} :
    j ∈ t.variableColumns ↔ t.objectives ≤ j ∧ j < t.boundColumn := by
  rw [variableColumns, List.mem_range'_1]
  omega

theorem nodup_variableColumns (t : Tableau F) : t.variableColumns.Nodup :=
  List.nodup_range'

/-- The label of a column; outside of the tableau that of the right hand sides. -/
def labelAt (t : Tableau F) (j : Nat) : Label :=
  match t.label j with
  | .ok label => label
  | .error _ => .bound

theorem labelAt_of_getElem? {t : Tableau F} {j : Nat} {label : Label}
    (h : t.labels[j]? = some label) : t.labelAt j = label := by
  have hlabel : t.label j = .ok label := Fault.fetch_eq_ok_iff.mpr h
  rw [labelAt, hlabel]

/-- Where labels are unique, a label leads back to its column. -/
theorem columnOf?_of_label_eq {t : Tableau F} (hnodup : t.labels.Nodup) {column : Nat}
    {label : Label} (h : t.label column = .ok label) : t.columnOf? label = some column := by
  obtain ⟨hlt, hat⟩ := List.getElem?_eq_some_iff.mp (Fault.fetch_eq_ok_iff.mp h)
  refine List.idxOf?_eq_some_iff.mpr ⟨hlt, hat, fun k hk heq => ?_⟩
  have hsame : t.labels[k]? = t.labels[column]? := by
    rw [List.getElem?_eq_getElem hlt, List.getElem?_eq_getElem (Nat.lt_trans hk hlt), heq, hat]
  exact Nat.ne_of_lt hk ((List.getElem?_inj (Nat.lt_trans hk hlt) hnodup).mp hsame)

/-! ## Shape -/

/-- The sizes of the parts of a tableau fit together. -/
structure WellShaped (t : Tableau F) : Prop where
  length_labels : t.labels.length = t.width
  height_eq : t.height = t.objectives + t.basis.length
  objectives_lt_width : t.objectives < t.width
  basis_lt : ∀ c ∈ t.basis, c < t.width

namespace WellShaped

variable {t : Tableau F}

theorem height_pos (h : t.WellShaped) : 0 < t.height := by
  rw [h.height_eq]
  exact Nat.add_pos_left t.objectives_pos _

theorem boundColumn_lt (h : t.WellShaped) : t.boundColumn < t.width := by
  have hwidth := h.objectives_lt_width
  unfold boundColumn
  omega

theorem lt_width_of_mem (h : t.WellShaped) {j : Nat} (hj : j ∈ t.variableColumns) :
    j < t.width :=
  Nat.lt_trans (mem_variableColumns.mp hj).2 h.boundColumn_lt

theorem getElem?_labels (h : t.WellShaped) {j : Nat} (hj : j < t.width) :
    t.labels[j]? = some (t.labelAt j) := by
  have hlt : j < t.labels.length := h.length_labels ▸ hj
  rw [labelAt_of_getElem? (List.getElem?_eq_getElem hlt)]
  exact List.getElem?_eq_getElem hlt

theorem label_eq_ok (h : t.WellShaped) {j : Nat} (hj : j < t.width) :
    t.label j = .ok (t.labelAt j) :=
  Fault.fetch_eq_ok_iff.mpr (h.getElem?_labels hj)

/-- Every constraint row has an entry of the basis, and every entry a row. -/
theorem exists_basic (h : t.WellShaped) {i : Nat} (hi : i ∈ t.constraintRows) :
    ∃ c, t.basis[i - t.objectives]? = some c ∧ t.basicColumn i = .ok c := by
  obtain ⟨hlow, hhigh⟩ := mem_constraintRows.mp hi
  have hlt : i - t.objectives < t.basis.length := by
    have := h.height_eq
    omega
  refine ⟨_, List.getElem?_eq_getElem hlt, ?_⟩
  rw [basicColumn, if_neg (Nat.not_lt.mpr hlow)]
  exact Fault.fetch_of_lt hlt

theorem exists_basicLabel (h : t.WellShaped) {i : Nat} (hi : i ∈ t.constraintRows) :
    ∃ label, t.basicLabel i = .ok label := by
  obtain ⟨c, hc, hcolumn⟩ := h.exists_basic hi
  refine ⟨t.labelAt c, ?_⟩
  rw [basicLabel, hcolumn]
  exact h.label_eq_ok (h.basis_lt c (List.mem_of_getElem? hc))

theorem mem_constraintRows_of_getElem? (h : t.WellShaped) {k c : Nat}
    (hk : t.basis[k]? = some c) : t.objectives + k ∈ t.constraintRows := by
  have hlt : k < t.basis.length := (List.getElem?_eq_some_iff.mp hk).1
  have := h.height_eq
  exact mem_constraintRows.mpr ⟨Nat.le_add_right _ _, by omega⟩

end WellShaped

/-! ## Reading -/

variable [Scalar F]

/-- The number in a row and a column; zero outside of the tableau. -/
def coeff (t : Tableau F) (i j : Nat) : F := t.matrix.coeff i j

/-- Inside of a tableau, reading succeeds. -/
theorem entry_eq_ok {t : Tableau F} {i j : Nat} (hi : i < t.height) (hj : j < t.width) :
    t.entry i j = .ok (t.coeff i j) :=
  Matrix.entry_eq_ok hi hj

/-- The profitable columns are the variable columns whose cost is negative.  All that is
read is row 0. -/
theorem profitableColumns_eq_ok {t : Tableau F} (hrow : 0 < t.height) :
    t.profitableColumns = .ok ((t.variableColumns.map fun j => (j, t.coeff 0 j)).filter
      fun column => Scalar.isNegative column.2 t.tolerance) := by
  have hcosts : (t.variableColumns.mapM fun column => do return (column, ← t.cost column)) =
      .ok (t.variableColumns.map fun j => (j, t.coeff 0 j)) := by
    refine Fault.mapM_eq_ok fun j hj => ?_
    have hwidth : j < t.width :=
      Nat.lt_of_lt_of_le (mem_variableColumns.mp hj).2 (Nat.sub_le _ _)
    rw [show t.cost j = .ok (t.coeff 0 j) from entry_eq_ok hrow hwidth]
    rfl
  rw [profitableColumns, hcosts]
  rfl

namespace WellShaped

variable {t : Tableau F}

theorem bound_eq_ok (h : t.WellShaped) {i : Nat} (hi : i < t.height) :
    t.bound i = .ok (t.coeff i t.boundColumn) :=
  entry_eq_ok hi h.boundColumn_lt

theorem cost_eq_ok (h : t.WellShaped) {j : Nat} (hj : j < t.width) :
    t.cost j = .ok (t.coeff 0 j) :=
  entry_eq_ok h.height_pos hj

/-- The candidates of the ratio test are the constraint rows with a positive entry. -/
theorem candidateRows_eq_ok (h : t.WellShaped) {j : Nat} (hj : j < t.width) :
    t.candidateRows j =
      .ok ((t.constraintRows.filter fun i => Scalar.isPositive (t.coeff i j) t.tolerance).map
        fun i => (i, t.coeff i t.boundColumn / t.coeff i j)) := by
  have hentry : ∀ i ∈ t.constraintRows, t.entry i j = .ok (t.coeff i j) :=
    fun i hi => entry_eq_ok (mem_constraintRows.mp hi).2 hj
  have hfilter : Fault.filter
      (fun row => do return Scalar.isPositive (← t.entry row j) t.tolerance) t.constraintRows =
      .ok (t.constraintRows.filter fun i => Scalar.isPositive (t.coeff i j) t.tolerance) := by
    refine Fault.filter_eq_ok fun i hi => ?_
    rw [hentry i hi]
    rfl
  rw [candidateRows, hfilter]
  refine Fault.mapM_eq_ok fun i hi => ?_
  have hi := (List.mem_filter.mp hi).1
  rw [h.bound_eq_ok (mem_constraintRows.mp hi).2, hentry i hi]
  rfl

end WellShaped

/-! ## Frames -/

omit [Scalar F] in
/-- Two tableaus of the same size differ in their numbers and their bases only. -/
structure SameFrame (t u : Tableau F) : Prop where
  frame : u = { t with matrix := u.matrix, basis := u.basis }
  height_eq : u.height = t.height
  width_eq : u.width = t.width

namespace SameFrame

variable {s t u : Tableau F}

omit [Scalar F]

theorem labels_eq (h : t.SameFrame u) : u.labels = t.labels := by rw [h.frame]

theorem phase_eq (h : t.SameFrame u) : u.phase = t.phase := by rw [h.frame]

theorem nonNegative_eq (h : t.SameFrame u) : u.nonNegative = t.nonNegative := by rw [h.frame]

theorem tolerance_eq (h : t.SameFrame u) : u.tolerance = t.tolerance := by rw [h.frame]

theorem objectives_eq (h : t.SameFrame u) : u.objectives = t.objectives :=
  congrArg Phase.objectives h.phase_eq

theorem boundColumn_eq (h : t.SameFrame u) : u.boundColumn = t.boundColumn :=
  congrArg (· - 1) h.width_eq

theorem labelAt_eq (h : t.SameFrame u) (j : Nat) : u.labelAt j = t.labelAt j := by
  unfold labelAt label
  rw [h.labels_eq]

theorem variableColumns_eq (h : t.SameFrame u) : u.variableColumns = t.variableColumns := by
  unfold variableColumns
  rw [h.objectives_eq, h.boundColumn_eq]

theorem constraintRows_eq (h : t.SameFrame u) : u.constraintRows = t.constraintRows := by
  unfold constraintRows
  rw [h.objectives_eq, h.height_eq]

theorem refl (t : Tableau F) : t.SameFrame t := ⟨rfl, rfl, rfl⟩

theorem symm (h : t.SameFrame u) : u.SameFrame t :=
  ⟨by rw [h.frame], h.height_eq.symm, h.width_eq.symm⟩

theorem trans (hst : s.SameFrame t) (htu : t.SameFrame u) : s.SameFrame u where
  frame := by rw [htu.frame, hst.frame]
  height_eq := htu.height_eq.trans hst.height_eq
  width_eq := htu.width_eq.trans hst.width_eq

end SameFrame

/-! ## Pivots -/

omit [Scalar F] in
/-- In the second tableau a column is basic in place of the one that was, and
apart from that only numbers differ. -/
structure Replaces (t : Tableau F) (row column : Nat) (u : Tableau F) : Prop where
  frame : u = { t with matrix := u.matrix, basis := t.basis.set (row - t.objectives) column }
  height_eq : u.height = t.height
  width_eq : u.width = t.width

namespace Replaces

variable {t u : Tableau F} {row column : Nat}

omit [Scalar F]

theorem basis_eq (h : t.Replaces row column u) :
    u.basis = t.basis.set (row - t.objectives) column := by rw [h.frame]

theorem sameFrame (h : t.Replaces row column u) : t.SameFrame u :=
  ⟨by rw [h.frame], h.height_eq, h.width_eq⟩

/-- Sizes still fit together. -/
theorem wellShaped (h : t.Replaces row column u) (ht : t.WellShaped) (hcolumn : column < t.width) :
    u.WellShaped where
  length_labels := by rw [h.sameFrame.labels_eq, h.width_eq, ht.length_labels]
  height_eq := by
    rw [h.height_eq, h.sameFrame.objectives_eq, h.basis_eq, List.length_set, ht.height_eq]
  objectives_lt_width := by
    rw [h.sameFrame.objectives_eq, h.width_eq]
    exact ht.objectives_lt_width
  basis_lt c hc := by
    rw [h.basis_eq] at hc
    rw [h.width_eq]
    rcases List.mem_or_eq_of_mem_set hc with hc | rfl
    · exact ht.basis_lt c hc
    · exact hcolumn

end Replaces

/-- A pivot in a constraint row succeeds. -/
theorem WellShaped.exists_pivot {t : Tableau F} (h : t.WellShaped) {row column : Nat}
    (hrow : row ∈ t.constraintRows) (hcolumn : column < t.width) :
    ∃ u, t.pivot row column = .ok u ∧ t.Replaces row column u ∧
      ∀ i < t.height, ∀ j < t.width, u.coeff i j =
        if i = row then t.coeff row j / t.coeff row column
        else if Scalar.isEq (t.coeff i column) 0 then t.coeff i j
        else t.coeff i j - t.coeff i column * (t.coeff row j / t.coeff row column) := by
  obtain ⟨c, _, hbasic⟩ := h.exists_basic hrow
  obtain ⟨n, hn, hheight, hwidth, hcoeff⟩ :=
    Matrix.pivot_spec (mem_constraintRows.mp hrow).2 hcolumn
  refine ⟨{ t with matrix := n, basis := t.basis.set (row - t.objectives) column }, ?_,
    ⟨rfl, hheight, hwidth⟩, hcoeff⟩
  unfold pivot
  rw [hbasic, hn]
  rfl

theorem WellShaped.replaces_of_pivot_eq {t u : Tableau F} (h : t.WellShaped) {row column : Nat}
    (hrow : row ∈ t.constraintRows) (hcolumn : column < t.width)
    (hpivot : t.pivot row column = .ok u) : t.Replaces row column u := by
  obtain ⟨v, hv, hreplaces, _⟩ := h.exists_pivot hrow hcolumn
  obtain rfl : u = v := Except.ok.inj (hpivot.symm.trans hv)
  exact hreplaces

/-- A pivot does not leave the phase. -/
theorem phase_eq_of_pivot_eq {t u : Tableau F} {row column : Nat}
    (hpivot : t.pivot row column = .ok u) : u.phase = t.phase := by
  obtain ⟨_, _, hmatrix⟩ := Fault.bind_eq_ok_iff.mp hpivot
  obtain ⟨m, _, hu⟩ := Fault.bind_eq_ok_iff.mp hmatrix
  obtain rfl := Except.ok.inj hu
  rfl

/-! ## Basic values -/

/-- The assignment in which the basic variable of each row has the value that is
given for the row, and all other variables are zero. -/
def basicAssignment (t : Tableau F) (value : Nat → F) (label : Label) : F :=
  match t.columnOf? label >>= t.basicRow? with
  | some row => value row
  | none => 0

/-- The value of a variable in the basic solution. -/
def basicValue (t : Tableau F) : Label → F :=
  t.basicAssignment fun row => t.coeff row t.boundColumn

omit [Scalar F] in
/-- A column that is basic in a row is so by an entry of the basis. -/
theorem exists_getElem?_of_basicRow? {t : Tableau F} {j i : Nat} (h : t.basicRow? j = some i) :
    ∃ k, i = t.objectives + k ∧ t.basis[k]? = some j := by
  obtain ⟨k, hk, rfl⟩ := Option.map_eq_some_iff.mp h
  obtain ⟨hlt, hat, _⟩ := List.idxOf?_eq_some_iff.mp hk
  exact ⟨k, Nat.add_comm k _, List.getElem?_eq_some_iff.mpr ⟨hlt, hat⟩⟩

/-- In a well-shaped tableau every variable has a value. -/
theorem WellShaped.value_eq_ok {t : Tableau F} (h : t.WellShaped) (label : Label) :
    t.value label = .ok (t.basicValue label) := by
  unfold value basicValue basicAssignment
  cases hrow : t.columnOf? label >>= t.basicRow? with
  | none => rfl
  | some row =>
    obtain ⟨column, _, hbasic⟩ := Option.bind_eq_some_iff.mp hrow
    obtain ⟨k, rfl, hk⟩ := exists_getElem?_of_basicRow? hbasic
    exact h.bound_eq_ok (mem_constraintRows.mp (h.mem_constraintRows_of_getElem? hk)).2

/-- The offset of the basic solution. -/
def basicOffset (t : Tableau F) : F :=
  if t.nonNegative then 0 else t.basicValue .offset

/-- A well-shaped tableau has a solution: the basic values of the decision
variables, each less the offset. -/
theorem WellShaped.solution_eq_ok {t : Tableau F} (h : t.WellShaped) (objective : Objective F) :
    t.solution objective =
      let point := (List.range objective.variableCount).map fun i =>
        t.basicValue (.decision i) - t.basicOffset
      .ok ⟨point, objective.value point⟩ := by
  have hoffset : t.offset = .ok t.basicOffset := by
    unfold offset basicOffset
    cases t.nonNegative with
    | true => rfl
    | false => exact h.value_eq_ok .offset
  have hpoint : ((List.range objective.variableCount).mapM fun i => do
      return (← t.value (.decision i)) - t.basicOffset) =
      .ok ((List.range objective.variableCount).map fun i =>
        t.basicValue (.decision i) - t.basicOffset) := by
    refine Fault.mapM_eq_ok fun i _ => ?_
    rw [h.value_eq_ok]
    rfl
  exact Fault.bind_eq_ok_iff.mpr ⟨_, hoffset, Fault.bind_eq_ok_iff.mpr ⟨_, hpoint, rfl⟩⟩

end Tableau

end PrimalSimplex
