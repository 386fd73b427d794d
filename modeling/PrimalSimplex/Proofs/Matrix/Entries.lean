/-
  `Proofs.Matrix.Entries`: matrices as functions from positions to numbers.

  Row operations answer with a fault outside of a matrix.  Inside of it they
  always succeed, and then they are determined by one formula for each entry.
  The lemmas below say both at once, so that no later proof opens a matrix.
-/
import PrimalSimplex.Matrix.Without

set_option autoImplicit false

namespace PrimalSimplex

/-! ## Positions that are kept -/

theorem mem_keptPositions {positions : List Nat} {count i : Nat} :
    i ∈ keptPositions positions count ↔ i < count ∧ i ∉ positions := by
  simp [keptPositions]

theorem pairwise_keptPositions (positions : List Nat) (count : Nat) :
    (keptPositions positions count).Pairwise (· < ·) :=
  List.pairwise_lt_range.filter _

/-- The kept positions below a sum are those below its first part, and after them
those of the second part. -/
theorem keptPositions_add (positions : List Nat) (first second : Nat) :
    keptPositions positions (first + second) =
      keptPositions positions first ++
        ((List.range second).map (first + ·)).filter fun i => !positions.contains i := by
  rw [keptPositions, keptPositions, List.range_add, List.filter_append]

/-- A kept position has as many kept ones before it as its place says. -/
theorem getElem?_keptPositions_length {positions : List Nat} {count i : Nat} (hi : i < count)
    (hkept : i ∉ positions) :
    (keptPositions positions count)[(keptPositions positions i).length]? = some i := by
  obtain ⟨rest, rfl⟩ : ∃ rest, count = i + (1 + rest) := ⟨count - i - 1, by omega⟩
  rw [keptPositions_add, List.getElem?_append_right (Nat.le_refl _), Nat.sub_self,
    List.range_add, List.map_append, List.filter_append]
  simp [hkept]

/-- Dropping leaves the elements at the kept positions. -/
theorem map_some_dropPositions {α : Type} (positions : List Nat) (elements : List α) :
    (dropPositions positions elements).map some =
      (keptPositions positions elements.length).map (elements[·]?) := by
  have hsnd : elements.zipIdx.map Prod.snd = List.range elements.length := by
    rw [List.zipIdx_map_snd, List.range_eq_range']
  have hat : ∀ e ∈ elements.zipIdx.filter (fun e => !positions.contains e.2),
      (some ∘ Prod.fst) e = ((elements[·]?) ∘ Prod.snd) e := by
    intro e he
    exact (List.mem_zipIdx_iff_getElem?.mp (List.mem_filter.mp he).1).symm
  rw [dropPositions, List.map_map, List.map_congr_left hat, ← List.map_map, keptPositions, ← hsnd,
    List.filter_map]
  rfl

theorem dropPositions_sublist {α : Type} (positions : List Nat) (elements : List α) :
    (dropPositions positions elements).Sublist elements := by
  have hall : elements.zipIdx.map Prod.fst = elements := List.zipIdx_map_fst ..
  have hsublist := (List.filter_sublist
    (p := fun e : α × Nat => !positions.contains e.2) (l := elements.zipIdx)).map Prod.fst
  rwa [hall] at hsublist

/-- What is left was at a position that is kept. -/
theorem exists_getElem?_of_mem_dropPositions {α : Type} {positions : List Nat} {elements : List α}
    {a : α} (h : a ∈ dropPositions positions elements) :
    ∃ i, i ∉ positions ∧ elements[i]? = some a := by
  obtain ⟨⟨a, i⟩, hmem, rfl⟩ := List.mem_map.mp h
  obtain ⟨helement, hkept⟩ := List.mem_filter.mp hmem
  refine ⟨i, fun hlisted => ?_, List.mem_zipIdx_iff_getElem?.mp helement⟩
  rw [Bool.not_eq_true', List.contains_eq_mem, decide_eq_false_iff_not] at hkept
  exact hkept hlisted

/-- The element at a place after dropping is the one at that place's kept
position. -/
theorem getElem?_dropPositions {α : Type} {positions : List Nat} {elements : List α} {k i : Nat}
    (h : (keptPositions positions elements.length)[k]? = some i) :
    (dropPositions positions elements)[k]? = elements[i]? := by
  have hmap := congrArg (·[k]?) (map_some_dropPositions positions elements)
  simp only [List.getElem?_map, h, Option.map_some] at hmap
  cases hk : (dropPositions positions elements)[k]? with
  | none => rw [hk] at hmap; cases hmap
  | some a => rw [hk] at hmap; exact Option.some.inj hmap

namespace Matrix

variable {F : Type} [Scalar F]

/-- The number in a row and a column; zero outside of the matrix. -/
def coeff (m : Matrix F) (i j : Nat) : F :=
  match m.entry i j with
  | .ok x => x
  | .error _ => 0

theorem coeff_of_getElem? {m : Matrix F} {i j : Nat} {row : List F} {x : F}
    (hrow : m.rows[i]? = some row) (hx : row[j]? = some x) : m.coeff i j = x := by
  have hentry : m.entry i j = .ok x := entry_eq_ok_iff.mpr ⟨row, hrow, hx⟩
  rw [coeff, hentry]

/-- Inside of a matrix, reading succeeds. -/
theorem entry_eq_ok {m : Matrix F} {i j : Nat} (hi : i < m.height) (hj : j < m.width) :
    m.entry i j = .ok (m.coeff i j) := by
  obtain ⟨x, hx⟩ := exists_entry hi hj
  rw [coeff, hx]

/-- A row of a matrix, and its entries. -/
theorem exists_row {m : Matrix F} {i : Nat} (hi : i < m.height) :
    ∃ row, m.rows[i]? = some row ∧ row.length = m.width ∧
      ∀ j < m.width, row[j]? = some (m.coeff i j) := by
  have hlength : m.rows[i].length = m.width := m.length_of_mem _ (List.getElem_mem hi)
  refine ⟨m.rows[i], List.getElem?_eq_getElem hi, hlength, fun j hj => ?_⟩
  have hx : m.rows[i][j]? = some m.rows[i][j] := List.getElem?_eq_getElem (hlength ▸ hj)
  rw [hx, coeff_of_getElem? (List.getElem?_eq_getElem hi) hx]

omit [Scalar F] in
/-- A matrix is determined by its rows and its width. -/
theorem eq_of_rows_eq {m n : Matrix F} (hrows : m.rows = n.rows) (hwidth : m.width = n.width) :
    m = n := by
  cases m
  cases n
  obtain rfl := hrows
  obtain rfl := hwidth
  rfl

/-- A matrix is determined by its sizes and its numbers. -/
theorem eq_of_coeff_eq {m n : Matrix F} (hheight : m.height = n.height) (hwidth : m.width = n.width)
    (hcoeff : ∀ i < m.height, ∀ j < m.width, m.coeff i j = n.coeff i j) : m = n := by
  have hrows : m.rows = n.rows := by
    refine List.ext_getElem? fun i => ?_
    rcases Nat.lt_or_ge i m.height with hi | hi
    · obtain ⟨row, hrow, hlength, hentries⟩ := exists_row hi
      obtain ⟨row', hrow', hlength', hentries'⟩ := exists_row (hheight ▸ hi : i < n.height)
      rw [hrow, hrow', Option.some.injEq]
      refine List.ext_getElem? fun j => ?_
      rcases Nat.lt_or_ge j m.width with hj | hj
      · rw [hentries j hj, hentries' j (hwidth ▸ hj), hcoeff i hi j hj]
      · rw [List.getElem?_eq_none (hlength ▸ hj),
          List.getElem?_eq_none (by rw [hlength', ← hwidth]; exact hj)]
    · rw [List.getElem?_eq_none hi, List.getElem?_eq_none (hheight ▸ hi : n.height ≤ i)]
  exact eq_of_rows_eq hrows hwidth

/-- Reading after a change of rows is reading the changed row. -/
theorem coeff_mapRows {m : Matrix F} {change : Nat → List F → List F}
    {h : ∀ i row, (change i row).length = row.length} {i j : Nat} {row : List F} {x : F}
    (hrow : m.rows[i]? = some row) (hx : (change i row)[j]? = some x) :
    (m.mapRows change h).coeff i j = x := by
  have hchanged : (m.rows.mapIdx change)[i]? = some (change i row) := by
    rw [List.getElem?_mapIdx, hrow]
    rfl
  exact coeff_of_getElem? hchanged hx

/-- Clearing a column succeeds inside of a matrix.  The row is divided, and every
other row with a number in the column loses that multiple of the divided row. -/
theorem pivot_spec {m : Matrix F} {pivotRow column : Nat} (hrow : pivotRow < m.height)
    (hcolumn : column < m.width) :
    ∃ n, m.pivot pivotRow column = .ok n ∧ n.height = m.height ∧ n.width = m.width ∧
      ∀ i < m.height, ∀ j < m.width, n.coeff i j =
        if i = pivotRow then m.coeff pivotRow j / m.coeff pivotRow column
        else if Scalar.isEq (m.coeff i column) 0 then m.coeff i j
        else m.coeff i j - m.coeff i column * (m.coeff pivotRow j / m.coeff pivotRow column) := by
  obtain ⟨pivot, hpivot, _, hpivotAt⟩ := exists_row hrow
  have hfetch : m.row pivotRow = .ok pivot := Fault.fetch_eq_ok_iff.mpr hpivot
  have hdivisor : Fault.fetch pivot column = .ok (m.coeff pivotRow column) :=
    Fault.fetch_eq_ok_iff.mpr (hpivotAt column hcolumn)
  have hunit : ∀ j < m.width, (pivot.map (· / m.coeff pivotRow column))[j]? =
      some (m.coeff pivotRow j / m.coeff pivotRow column) := by
    intro j hj
    rw [List.getElem?_map, hpivotAt j hj, Option.map_some]
  simp only [Matrix.pivot, hfetch, hdivisor, bind, Except.bind, pure, Except.pure]
  refine ⟨_, rfl, height_mapRows .., width_mapRows .., fun i hi j hj => ?_⟩
  obtain ⟨row, hrowAt, _, hentries⟩ := exists_row hi
  apply coeff_mapRows hrowAt
  by_cases hpi : i = pivotRow
  · subst hpi
    obtain rfl : row = pivot := Option.some.inj (hrowAt.symm.trans hpivot)
    rw [if_pos rfl, if_pos rfl]
    exact hunit j hj
  · have hmultiple : row.getD column 0 = m.coeff i column := by
      rw [List.getD_eq_getElem?_getD, hentries column hcolumn, Option.getD_some]
    rw [if_neg hpi, if_neg hpi]
    simp only [hmultiple]
    split
    · exact hentries j hj
    · exact Row.getElem?_subtract _ (hentries j hj) (hunit j hj)

/-- Leaving out rows and columns of a matrix succeeds, and the entries that stay
are those at the kept positions. -/
theorem without_spec {m : Matrix F} {rows columns : List Nat}
    (hrows : arePositions rows m.height = true) (hcolumns : arePositions columns m.width = true) :
    ∃ n, m.without rows columns = .ok n ∧
      n.height = (keptPositions rows m.height).length ∧
      n.width = (keptPositions columns m.width).length ∧
      ∀ k l i j, (keptPositions rows m.height)[k]? = some i →
        (keptPositions columns m.width)[l]? = some j → n.coeff k l = m.coeff i j := by
  unfold without
  rw [if_pos (by rw [hrows, hcolumns]; rfl)]
  refine ⟨_, rfl, ?_, rfl, fun k l i j hk hl => ?_⟩
  · show ((dropPositions rows m.rows).map (dropPositions columns)).length = _
    rw [List.length_map, length_dropPositions]
    rfl
  · have hi : i < m.height := (mem_keptPositions.mp (List.mem_of_getElem? hk)).1
    have hj : j < m.width := (mem_keptPositions.mp (List.mem_of_getElem? hl)).1
    obtain ⟨row, hrow, hlength, hentries⟩ := exists_row hi
    have hkept : (dropPositions rows m.rows)[k]? = some row :=
      (getElem?_dropPositions hk).trans hrow
    have hdropped : ((dropPositions rows m.rows).map (dropPositions columns))[k]? =
        some (dropPositions columns row) := by
      rw [List.getElem?_map, hkept, Option.map_some]
    apply coeff_of_getElem? hdropped
    rw [← hlength] at hl
    rw [getElem?_dropPositions hl]
    exact hentries j hj

end Matrix

end PrimalSimplex
