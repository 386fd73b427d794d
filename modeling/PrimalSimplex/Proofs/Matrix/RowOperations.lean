/-
  `Proofs.Matrix.RowOperations`: pivots made of row operations.

  A pivot is one formula for all entries.  By hand it is a loop over the rows: the
  row is divided by its number in the column, and every other row with a number there
  loses a multiple of it.  The loop reads each multiple from the matrix as it then
  is, and it must not take the row off itself.  Below, both are shown to be the same,
  and the loop to stay inside of the matrix, whatever the numbers are.
-/
import PrimalSimplex.Proofs.Matrix.Entries

set_option autoImplicit false

namespace PrimalSimplex.Matrix

variable {F : Type} [Scalar F] {m n : Matrix F}

/-! ## Single operations -/

omit [Scalar F] in
theorem modifyRow_spec {target : Nat} (htarget : target < m.height) (change : List F → List F)
    (h : ∀ row, (change row).length = row.length) :
    ∃ n, m.modifyRow target change h = .ok n ∧ n.height = m.height ∧ n.width = m.width ∧
      ∀ i row, m.rows[i]? = some row →
        n.rows[i]? = some (if i = target then change row else row) := by
  unfold modifyRow
  rw [if_pos htarget]
  refine ⟨_, rfl, height_mapRows .., width_mapRows .., fun i row hrow => ?_⟩
  show (m.rows.mapIdx _)[i]? = _
  rw [List.getElem?_mapIdx, hrow]
  rfl

/-- Inside of a matrix, a row is divided and all others stay. -/
theorem divideRow_spec {row : Nat} (hrow : row < m.height) (divisor : F) :
    ∃ n, m.divideRow row divisor = .ok n ∧ n.height = m.height ∧ n.width = m.width ∧
      ∀ i < m.height, ∀ j < m.width, n.coeff i j =
        if i = row then m.coeff i j / divisor else m.coeff i j := by
  obtain ⟨n, hn, hheight, hwidth, hrows⟩ := modifyRow_spec hrow (·.map (· / divisor)) fun _ =>
    List.length_map ..
  refine ⟨n, hn, hheight, hwidth, fun i hi j hj => ?_⟩
  obtain ⟨given, hgiven, _, hentries⟩ := exists_row hi
  refine coeff_of_getElem? (hrows i given hgiven) ?_
  split
  · rw [List.getElem?_map, hentries j hj, Option.map_some]
  · exact hentries j hj

/-- Two different rows can be subtracted, and no other row changes. -/
theorem subtractRow_spec {minuend subtrahend : Nat} (hne : minuend ≠ subtrahend)
    (hminuend : minuend < m.height) (hsubtrahend : subtrahend < m.height) (multiple : F) :
    ∃ n, m.subtractRow minuend subtrahend multiple = .ok n ∧ n.height = m.height ∧
      n.width = m.width ∧ ∀ i < m.height, ∀ j < m.width, n.coeff i j =
        if i = minuend then m.coeff i j - multiple * m.coeff subtrahend j else m.coeff i j := by
  obtain ⟨taken, htaken, _, htakenEntries⟩ := exists_row hsubtrahend
  obtain ⟨n, hn, hheight, hwidth, hrows⟩ := modifyRow_spec hminuend
    (Row.subtract multiple · taken) fun _ => Row.length_subtract ..
  refine ⟨n, ?_, hheight, hwidth, fun i hi j hj => ?_⟩
  · unfold subtractRow
    rw [if_neg hne]
    exact Fault.bind_eq_ok_iff.mpr ⟨taken, Fault.fetch_eq_ok_iff.mpr htaken, hn⟩
  · obtain ⟨given, hgiven, _, hentries⟩ := exists_row hi
    refine coeff_of_getElem? (hrows i given hgiven) ?_
    split
    · exact Row.getElem?_subtract _ (hentries j hj) (htakenEntries j hj)
    · exact hentries j hj

/-! ## Elimination -/

/-- Takes a row off another one, as often as that has it in the column. -/
def clearRow (pivotRow column : Nat) (m : Matrix F) (i : Nat) : Except Fault (Matrix F) :=
  if i = pivotRow then return m
  else do
    let multiple ← m.entry i column
    if Scalar.isEq multiple 0 then return m else m.subtractRow i pivotRow multiple

/-- A pivot, one row operation after another. -/
def eliminate (m : Matrix F) (pivotRow column : Nat) : Except Fault (Matrix F) := do
  let divided ← m.divideRow pivotRow (← m.entry pivotRow column)
  (List.range m.height).foldlM (clearRow pivotRow column) divided

variable {pivotRow column count : Nat}

/-- Inside of a matrix, another row is cleared and nothing else changes. -/
theorem clearRow_spec {i : Nat} (hne : i ≠ pivotRow) (hi : i < m.height)
    (hpivot : pivotRow < m.height) (hcolumn : column < m.width) :
    ∃ n, clearRow pivotRow column m i = .ok n ∧ n.height = m.height ∧ n.width = m.width ∧
      (∀ j < m.width, n.coeff i j = if Scalar.isEq (m.coeff i column) 0 then m.coeff i j
        else m.coeff i j - m.coeff i column * m.coeff pivotRow j) ∧
      ∀ k < m.height, k ≠ i → ∀ j < m.width, n.coeff k j = m.coeff k j := by
  unfold clearRow
  rw [if_neg hne, entry_eq_ok hi hcolumn]
  cases hzero : Scalar.isEq (m.coeff i column) 0 with
  | true =>
    exact ⟨m, if_pos hzero, rfl, rfl, fun j _ => (if_pos rfl).symm, fun _ _ _ _ _ => rfl⟩
  | false =>
    obtain ⟨n, hn, hheight, hwidth, hcoeff⟩ := subtractRow_spec hne hi hpivot (m.coeff i column)
    refine ⟨n, (if_neg (Bool.eq_false_iff.mp hzero)).trans hn, hheight, hwidth, fun j hj => ?_,
      fun k hk hki j hj => ?_⟩
    · rw [hcoeff i hi j hj, if_pos rfl, if_neg Bool.false_ne_true]
    · rw [hcoeff k hk j hj, if_neg hki]

/-- The entries when the row is divided and all rows before a certain one are
cleared. -/
structure IsCleared (m : Matrix F) (pivotRow column count : Nat) (n : Matrix F) : Prop where
  height_eq : n.height = m.height
  width_eq : n.width = m.width
  coeff_pivot : ∀ j < m.width,
    n.coeff pivotRow j = m.coeff pivotRow j / m.coeff pivotRow column
  coeff_cleared : ∀ i < m.height, i ≠ pivotRow → i < count → ∀ j < m.width, n.coeff i j =
    if Scalar.isEq (m.coeff i column) 0 then m.coeff i j
    else m.coeff i j - m.coeff i column * (m.coeff pivotRow j / m.coeff pivotRow column)
  coeff_pending : ∀ i < m.height, i ≠ pivotRow → count ≤ i → ∀ j < m.width,
    n.coeff i j = m.coeff i j

/-- One more row is cleared. -/
theorem IsCleared.exists_clearRow (h : m.IsCleared pivotRow column count n)
    (hpivot : pivotRow < m.height) (hcolumn : column < m.width) (hcount : count < m.height) :
    ∃ n', clearRow pivotRow column n count = .ok n' ∧
      m.IsCleared pivotRow column (count + 1) n' := by
  by_cases hsame : count = pivotRow
  · -- The row itself is passed over.
    refine ⟨n, if_pos hsame, h.height_eq, h.width_eq, h.coeff_pivot, fun i hi hne hlt => ?_,
      fun i hi hne hle => h.coeff_pending i hi hne (by omega)⟩
    exact h.coeff_cleared i hi hne (by omega)
  · have hpending := h.coeff_pending count hcount hsame (Nat.le_refl _)
    have hheight := h.height_eq
    have hwidth := h.width_eq
    obtain ⟨n', hn', hheight', hwidth', hcleared, hkept⟩ := clearRow_spec (m := n) hsame
      (hheight.symm ▸ hcount) (hheight.symm ▸ hpivot) (hwidth.symm ▸ hcolumn)
    rw [hwidth] at hcleared hkept
    rw [hheight] at hkept
    refine ⟨n', hn', hheight'.trans hheight, hwidth'.trans hwidth, fun j hj => ?_,
      fun i hi hne hlt j hj => ?_, fun i hi hne hle j hj => ?_⟩
    · rw [hkept pivotRow hpivot (Ne.symm hsame) j hj, h.coeff_pivot j hj]
    · by_cases hi' : i = count
      · subst hi'
        rw [hcleared j hj, hpending column hcolumn, hpending j hj, h.coeff_pivot j hj]
      · rw [hkept i hi hi' j hj, h.coeff_cleared i hi hne (by omega) j hj]
    · rw [hkept i hi (by omega) j hj, h.coeff_pending i hi hne (by omega) j hj]

/-- Row by row, a pivot succeeds inside of a matrix and is the pivot at once. -/
theorem eliminate_eq_pivot (hpivot : pivotRow < m.height) (hcolumn : column < m.width) :
    m.eliminate pivotRow column = m.pivot pivotRow column := by
  obtain ⟨divided, hdivided, hheight, hwidth, hcoeff⟩ :=
    divideRow_spec hpivot (m.coeff pivotRow column)
  have hloop : ∀ count ≤ m.height, ∃ n,
      (List.range count).foldlM (clearRow pivotRow column) divided = .ok n ∧
        m.IsCleared pivotRow column count n := by
    intro count hcount
    induction count with
    | zero =>
      refine ⟨divided, rfl, hheight, hwidth, fun j hj => ?_, nofun, fun i hi hne _ j hj => ?_⟩
      · rw [hcoeff pivotRow hpivot j hj, if_pos rfl]
      · rw [hcoeff i hi j hj, if_neg hne]
    | succ count ih =>
      obtain ⟨n, hn, hcleared⟩ := ih (by omega)
      obtain ⟨n', hn', hcleared'⟩ := hcleared.exists_clearRow hpivot hcolumn (by omega)
      refine ⟨n', ?_, hcleared'⟩
      rw [List.range_succ, List.foldlM_append, hn]
      exact Fault.bind_eq_ok_iff.mpr ⟨n, rfl, Fault.bind_eq_ok_iff.mpr ⟨n', hn', rfl⟩⟩
  obtain ⟨n, hn, hcleared⟩ := hloop m.height (Nat.le_refl _)
  obtain ⟨u, hu, huHeight, huWidth, huCoeff⟩ := pivot_spec hpivot hcolumn
  have heq : n = u := by
    refine eq_of_coeff_eq (hcleared.height_eq.trans huHeight.symm)
      (hcleared.width_eq.trans huWidth.symm) fun i hi j hj => ?_
    have hi' : i < m.height := hcleared.height_eq ▸ hi
    have hj' : j < m.width := hcleared.width_eq ▸ hj
    rw [huCoeff i hi' j hj']
    by_cases hsame : i = pivotRow
    · rw [if_pos hsame, hsame, hcleared.coeff_pivot j hj']
    · rw [if_neg hsame, hcleared.coeff_cleared i hi' hsame hi' j hj']
  rw [hu, ← heq]
  unfold eliminate
  rw [entry_eq_ok hpivot hcolumn]
  show (m.divideRow pivotRow (m.coeff pivotRow column) >>= fun divided =>
    (List.range m.height).foldlM (clearRow pivotRow column) divided) = .ok n
  rw [hdivided]
  exact hn

end PrimalSimplex.Matrix
