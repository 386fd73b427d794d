/-
  `Proofs.Tableau.InPlace`: pivots in place.

  A pivot answers with a new tableau, whose entries are all read off the old one.  In
  place it is a loop: the rows are overwritten one after another, each multiple is read
  from the rows as they then are, and for a subtraction they are cut in two, so that a
  row in one part can be written while a row in the other part is read.  Over exact
  numbers the loop ends in the same rows as the pivot, also if it passes over rows whose
  multiple is zero, and their numbers are those of the textbook.
-/
import PrimalSimplex.Proofs.Matrix.RowOperations
import PrimalSimplex.Proofs.Scalar.Exact
import PrimalSimplex.Proofs.Tableau.Entries

set_option autoImplicit false

namespace PrimalSimplex

variable {F : Type}

/-! ## Rows in place -/

namespace Rows

variable [Scalar F]

/-- Takes a multiple of one row off another one.  The rows are cut at the later one of
the two, which then is the first of the second part. -/
def subtract (multiple : F) (minuend subtrahend : Nat) (rows : List (List F)) :
    Except Fault (List (List F)) :=
  if minuend < subtrahend then do
    let (head, tail) := rows.splitAt subtrahend
    let row := Row.subtract multiple (← Fault.fetch head minuend) (← Fault.fetch tail 0)
    return head.set minuend row ++ tail
  else if subtrahend < minuend then do
    let (head, tail) := rows.splitAt minuend
    let row := Row.subtract multiple (← Fault.fetch tail 0) (← Fault.fetch head subtrahend)
    return head ++ tail.set 0 row
  else .error (.sameRow minuend)

/-- Takes a row off another one, as often as that has it in the column.  It may be passed
over, which the multiple decides. -/
def clear (skips : F → Bool) (pivotRow column : Nat) (rows : List (List F)) (i : Nat) :
    Except Fault (List (List F)) :=
  if i = pivotRow then return rows
  else do
    let multiple ← Fault.fetch (← Fault.fetch rows i) column
    if skips multiple then return rows else subtract multiple i pivotRow rows

/-- Divides a row by its number in a column, and clears that column in all others from
the first one down. -/
def eliminate (skips : F → Bool) (pivotRow column : Nat) (rows : List (List F)) :
    Except Fault (List (List F)) := do
  let divisor ← Fault.fetch (← Fault.fetch rows pivotRow) column
  let divided := rows.modify pivotRow (·.map (· / divisor))
  (List.range rows.length).foldlM (clear skips pivotRow column) divided

/-- Wherever the rows are cut, one of them is changed. -/
theorem subtract_eq_ok {minuend subtrahend : Nat} (hne : minuend ≠ subtrahend) (multiple : F)
    {rows : List (List F)} {x y : List F} (hx : rows[minuend]? = some x)
    (hy : rows[subtrahend]? = some y) :
    subtract multiple minuend subtrahend rows =
      .ok (rows.set minuend (Row.subtract multiple x y)) := by
  have hfetch {part : List (List F)} {i : Nat} {row : List F} (h : part[i]? = some row) :
      Fault.fetch part i = .ok row := Fault.fetch_eq_ok_iff.mpr h
  unfold subtract
  rcases Nat.lt_or_gt_of_ne hne with hlt | hgt
  · have hwrite : (rows.take subtrahend)[minuend]? = some x := by
      rw [List.getElem?_take_of_lt hlt, hx]
    have hread : (rows.drop subtrahend)[0]? = some y := by
      rw [List.getElem?_drop, Nat.add_zero, hy]
    have hjoin := List.take_append_drop subtrahend (rows.set minuend (Row.subtract multiple x y))
    rw [List.take_set, List.drop_set_of_lt hlt] at hjoin
    rw [if_pos hlt, ← hjoin]
    simp only [List.splitAt_eq, hfetch hwrite, hfetch hread, bind, Except.bind, pure, Except.pure]
  · have hread : (rows.take minuend)[subtrahend]? = some y := by
      rw [List.getElem?_take_of_lt hgt, hy]
    have hwrite : (rows.drop minuend)[0]? = some x := by
      rw [List.getElem?_drop, Nat.add_zero, hx]
    have hjoin := List.take_append_drop minuend (rows.set minuend (Row.subtract multiple x y))
    rw [List.take_set_of_le (Nat.le_refl _), List.drop_set, if_neg (Nat.lt_irrefl _),
      Nat.sub_self] at hjoin
    rw [if_neg hgt.not_gt, if_pos hgt, ← hjoin]
    simp only [List.splitAt_eq, hfetch hwrite, hfetch hread, bind, Except.bind, pure, Except.pure]

end Rows

/-! ## Single rows -/

theorem Row.subtract_zero [Field F] [LinearOrder F] (minuend subtrahend : List F) :
    Row.subtract 0 minuend subtrahend = minuend := by
  induction minuend generalizing subtrahend with
  | nil => rfl
  | cons x minuend ih =>
    cases subtrahend with
    | nil => rfl
    | cons y subtrahend =>
      have hx : x - 0 * y = x := by rw [zero_mul, sub_zero]
      show (x - 0 * y) :: Row.subtract 0 minuend subtrahend = x :: minuend
      rw [hx, ih]

namespace Matrix

section Storage

variable [Scalar F] {m n : Matrix F}

omit [Scalar F] in
theorem lt_of_entry_eq_ok {i j : Nat} {x : F} (h : m.entry i j = .ok x) :
    i < m.height ∧ j < m.width := by
  obtain ⟨row, hrow, hx⟩ := entry_eq_ok_iff.mp h
  refine ⟨(List.getElem?_eq_some_iff.mp hrow).1, ?_⟩
  rw [← m.length_of_mem row (List.mem_of_getElem? hrow)]
  exact (List.getElem?_eq_some_iff.mp hx).1

theorem coeff_of_entry_eq_ok {i j : Nat} {x : F} (h : m.entry i j = .ok x) : m.coeff i j = x := by
  rw [coeff, h]

omit [Scalar F] in
/-- A changed row takes the place of the old one. -/
theorem rows_of_modifyRow_eq {target : Nat} {change : List F → List F}
    {h : ∀ row, (change row).length = row.length} (hn : m.modifyRow target change h = .ok n) :
    n.rows = m.rows.modify target change := by
  unfold modifyRow at hn
  split at hn
  · obtain rfl := Except.ok.inj hn
    refine List.ext_getElem? fun i => ?_
    show (m.rows.mapIdx _)[i]? = _
    rw [List.getElem?_mapIdx, List.getElem?_modify]
    cases m.rows[i]? with
    | none => rfl
    | some row => exact congrArg some (if_congr eq_comm rfl rfl)
  · cases hn

theorem subtract_rows_eq {minuend subtrahend : Nat} {multiple : F}
    (hn : m.subtractRow minuend subtrahend multiple = .ok n) :
    Rows.subtract multiple minuend subtrahend m.rows = .ok n.rows := by
  unfold subtractRow at hn
  split at hn
  · cases hn
  · rename_i hne
    obtain ⟨y, hy, hmodify⟩ := Fault.bind_eq_ok_iff.mp hn
    have hminuend : minuend < m.rows.length := by
      by_contra hge
      cases (if_neg (c := minuend < m.height) hge).symm.trans hmodify
    rw [Rows.subtract_eq_ok hne multiple (List.getElem?_eq_getElem hminuend)
      (Fault.fetch_eq_ok_iff.mp hy), rows_of_modifyRow_eq hmodify,
      List.modify_eq_set_getElem?, List.getElem?_eq_getElem hminuend]
    rfl

theorem sizes_of_clearRow_eq {pivotRow column i : Nat} (hi : i < m.height)
    (hpivot : pivotRow < m.height) (hcolumn : column < m.width)
    (hn : clearRow pivotRow column m i = .ok n) :
    n.height = m.height ∧ n.width = m.width := by
  by_cases hsame : i = pivotRow
  · obtain rfl := Except.ok.inj ((if_pos hsame).symm.trans hn)
    exact ⟨rfl, rfl⟩
  · obtain ⟨n', hn', hheight, hwidth, -⟩ := clearRow_spec hsame hi hpivot hcolumn
    obtain rfl := Except.ok.inj (hn.symm.trans hn')
    exact ⟨hheight, hwidth⟩

end Storage

/-! ## The loop -/

variable [Field F] [LinearOrder F] {m n : Matrix F} {skips : F → Bool} {pivotRow column : Nat}

/-- Inside of a matrix, a row is cleared in place.  A row whose multiple is zero may be
passed over or not. -/
theorem clear_rows_eq (hskips : ∀ a, skips a = true → a = 0) {i : Nat} (hi : i < m.height)
    (hpivot : pivotRow < m.height) (hcolumn : column < m.width)
    (hn : clearRow pivotRow column m i = .ok n) :
    Rows.clear skips pivotRow column m.rows i = .ok n.rows := by
  unfold clearRow at hn
  unfold Rows.clear
  by_cases hsame : i = pivotRow
  · rw [if_pos hsame] at hn ⊢
    obtain rfl := Except.ok.inj hn
    rfl
  · obtain ⟨row, hrow, -, hentries⟩ := exists_row hi
    obtain ⟨taken, htaken, -⟩ := exists_row hpivot
    have hmultiple : Fault.fetch row column = .ok (m.coeff i column) :=
      Fault.fetch_eq_ok_iff.mpr (hentries column hcolumn)
    rw [if_neg hsame, entry_eq_ok hi hcolumn] at hn
    rw [if_neg hsame, Fault.fetch_eq_ok_iff.mpr hrow]
    simp only [bind, Except.bind, hmultiple] at hn ⊢
    by_cases hzero : m.coeff i column = 0
    · -- Without a skip, a multiple of zero is subtracted.
      have hunchanged : Rows.subtract 0 i pivotRow m.rows = .ok m.rows := by
        obtain ⟨hlt, rfl⟩ := List.getElem?_eq_some_iff.mp hrow
        rw [Rows.subtract_eq_ok hsame 0 hrow htaken, Row.subtract_zero, List.set_getElem_self]
      rw [if_pos (Scalar.isEq_iff.mpr hzero)] at hn
      obtain rfl := Except.ok.inj hn
      rw [hzero, hunchanged]
      exact ite_self _
    · rw [if_neg fun hskip => hzero (Scalar.isEq_iff.mp hskip)] at hn
      rw [if_neg fun hskip => hzero (hskips _ hskip)]
      exact subtract_rows_eq hn

theorem foldlM_clear_rows_eq (hskips : ∀ a, skips a = true → a = 0) {is : List Nat}
    (his : ∀ i ∈ is, i < m.height) (hpivot : pivotRow < m.height) (hcolumn : column < m.width)
    (hn : is.foldlM (clearRow pivotRow column) m = .ok n) :
    is.foldlM (Rows.clear skips pivotRow column) m.rows = .ok n.rows := by
  induction is generalizing m with
  | nil =>
    obtain rfl := Except.ok.inj hn
    rfl
  | cons i is ih =>
    obtain ⟨hi, his⟩ := List.forall_mem_cons.mp his
    obtain ⟨m', hm', hrest⟩ := Fault.bind_eq_ok_iff.mp hn
    obtain ⟨hheight, hwidth⟩ := sizes_of_clearRow_eq hi hpivot hcolumn hm'
    refine Fault.bind_eq_ok_iff.mpr ⟨m'.rows, clear_rows_eq hskips hi hpivot hcolumn hm', ?_⟩
    exact ih (fun k hk => hheight ▸ his k hk) (hheight ▸ hpivot) (hwidth ▸ hcolumn) hrest

/-- A pivot is done in place, whichever rows with a multiple of zero are passed over. -/
theorem eliminate_rows_eq (hskips : ∀ a, skips a = true → a = 0)
    (hpivot : pivotRow < m.height) (hcolumn : column < m.width)
    (hn : m.pivot pivotRow column = .ok n) :
    Rows.eliminate skips pivotRow column m.rows = .ok n.rows := by
  rw [← eliminate_eq_pivot hpivot hcolumn] at hn
  obtain ⟨row, hrow, -, hentries⟩ := exists_row hpivot
  have hdivisor : Fault.fetch row column = .ok (m.coeff pivotRow column) :=
    Fault.fetch_eq_ok_iff.mpr (hentries column hcolumn)
  obtain ⟨divided, hdivided, hheight, hwidth, -⟩ := divideRow_spec hpivot (m.coeff pivotRow column)
  unfold eliminate at hn
  unfold Rows.eliminate
  rw [entry_eq_ok hpivot hcolumn] at hn
  rw [Fault.fetch_eq_ok_iff.mpr hrow]
  simp only [bind, Except.bind, hdivisor, hdivided] at hn ⊢
  rw [← rows_of_modifyRow_eq hdivided]
  refine foldlM_clear_rows_eq hskips (fun i hi => ?_) (hheight ▸ hpivot) (hwidth ▸ hcolumn) hn
  rw [hheight]
  exact List.mem_range.mp hi

/-- The numbers after a pivot.  Where the multiple is zero, nothing need be subtracted. -/
theorem pivot_entries {p : F} (hp : m.entry pivotRow column = .ok p) :
    ∃ n, m.pivot pivotRow column = .ok n ∧ n.height = m.height ∧ n.width = m.width ∧
      ∀ i j x y a, m.entry i j = .ok x → m.entry pivotRow j = .ok y → m.entry i column = .ok a →
        n.entry i j = .ok (if i = pivotRow then y / p else x - a * y / p) := by
  obtain ⟨hpivot, hcolumn⟩ := lt_of_entry_eq_ok hp
  obtain ⟨n, hn, hheight, hwidth, hcoeff⟩ := pivot_spec hpivot hcolumn
  refine ⟨n, hn, hheight, hwidth, fun i j x y a hx hy ha => ?_⟩
  obtain ⟨hi, hj⟩ := lt_of_entry_eq_ok hx
  rw [entry_eq_ok (hheight ▸ hi) (hwidth ▸ hj), hcoeff i hi j hj, coeff_of_entry_eq_ok hp,
    coeff_of_entry_eq_ok hx, coeff_of_entry_eq_ok hy, coeff_of_entry_eq_ok ha]
  congr 1
  split
  · rfl
  · split
    · rename_i hzero
      rw [Scalar.isEq_iff.mp hzero, zero_mul, zero_div, sub_zero]
    · exact congrArg (x - ·) (mul_div_assoc a y p).symm

end Matrix

/-! ## Basic columns -/

namespace Tableau

theorem basicColumn_eq_ok_iff {t : Tableau F} {row column : Nat} :
    t.basicColumn row = .ok column ↔
      t.objectives ≤ row ∧ t.basis[row - t.objectives]? = some column := by
  unfold basicColumn
  split
  · rename_i hlt
    simp [hlt.not_ge]
  · rename_i hge
    rw [Fault.fetch_eq_ok_iff]
    exact (and_iff_right (Nat.le_of_not_lt hge)).symm

namespace Replaces

variable {t u : Tableau F} {row column : Nat}

theorem basicColumn_eq (h : t.Replaces row column u) {leaving : Nat}
    (hbasic : t.basicColumn row = .ok leaving) : u.basicColumn row = .ok column := by
  obtain ⟨hrow, hleaving⟩ := basicColumn_eq_ok_iff.mp hbasic
  rw [basicColumn_eq_ok_iff, h.sameFrame.objectives_eq, h.basis_eq]
  exact ⟨hrow, List.getElem?_set_self (List.getElem?_eq_some_iff.mp hleaving).1⟩

theorem basicColumn_of_ne (h : t.Replaces row column u) (hrow : t.objectives ≤ row) {i : Nat}
    (hne : i ≠ row) : u.basicColumn i = t.basicColumn i := by
  unfold basicColumn
  rw [h.sameFrame.objectives_eq, h.basis_eq]
  split
  · rfl
  · rename_i hi
    have hother : row - t.objectives ≠ i - t.objectives := by omega
    rw [Fault.fetch, Fault.fetch, List.getElem?_set_ne hother]

end Replaces

/-! ## The result -/

variable [Field F] [LinearOrder F]

/-- Over exact numbers, a pivot in a constraint row and a column where that row has a
number `p` other than zero is the simultaneous one: the entries of the row are divided by
`p`, and every other entry loses its row's entry in the column times its column's entry
in the row, divided by `p`.  The column becomes the unit column of the row, and the basic
column of the row; nothing else changes.  In place, row by row, the same rows are
reached, whether or not rows with a zero in the column are passed over. -/
theorem pivot_eq_simultaneous {t : Tableau F} {row column leaving : Nat} {p : F}
    (hbasic : t.basicColumn row = .ok leaving) (hentry : t.entry row column = .ok p)
    (hp : p ≠ 0) :
    ∃ u, t.pivot row column = .ok u ∧
      (∀ skips : F → Bool, (∀ a, skips a = true → a = 0) →
        Rows.eliminate skips row column t.matrix.rows = .ok u.matrix.rows) ∧
      u = { t with matrix := u.matrix, basis := t.basis.set (row - t.objectives) column } ∧
      u.height = t.height ∧ u.width = t.width ∧
      (∀ i j x y a, t.entry i j = .ok x → t.entry row j = .ok y → t.entry i column = .ok a →
        u.entry i j = .ok (if i = row then y / p else x - a * y / p)) ∧
      (∀ i < t.height, u.entry i column = .ok (if i = row then 1 else 0)) ∧
      u.basicColumn row = .ok column ∧ ∀ i, i ≠ row → u.basicColumn i = t.basicColumn i := by
  obtain ⟨hrow, hcolumn⟩ := Matrix.lt_of_entry_eq_ok hentry
  obtain ⟨n, hn, hheight, hwidth, hentries⟩ := Matrix.pivot_entries hentry
  obtain ⟨u, hu, hreplaces, hmatrix⟩ : ∃ u, t.pivot row column = .ok u ∧
      t.Replaces row column u ∧ u.matrix = n := by
    refine ⟨{ t with matrix := n, basis := t.basis.set (row - t.objectives) column }, ?_,
      ⟨rfl, hheight, hwidth⟩, rfl⟩
    unfold pivot
    rw [hbasic, hn]
    rfl
  obtain rfl := hmatrix
  refine ⟨u, hu, fun skips hskips => Matrix.eliminate_rows_eq hskips hrow hcolumn hn,
    hreplaces.frame, hheight, hwidth, hentries, fun i hi => ?_,
    hreplaces.basicColumn_eq hbasic,
    fun i hne => hreplaces.basicColumn_of_ne (basicColumn_eq_ok_iff.mp hbasic).1 hne⟩
  obtain ⟨a, ha⟩ := Matrix.exists_entry hi hcolumn
  refine (hentries i column a p a ha hentry ha).trans ?_
  rw [div_self hp, mul_div_cancel_right₀ a hp, sub_self]

/-- Of `3 x + y` at most, where `2 x + y ≤ 8` and `y ≤ 5`, with the slack variables basic. -/
def startingTableau : Tableau ℚ where
  matrix := ⟨[[1, -3, -1, 0, 0, 0], [0, 2, 1, 1, 0, 8], [0, 0, 1, 0, 1, 5]], 6, by simp⟩
  labels := [.objective, .decision 0, .decision 1, .slack 0, .slack 1, .bound]
  basis := [3, 4]
  tolerance := 0
  decisions := 2
  slacks := 2
  artificials := 0
  phase := .optimality
  nonNegative := true

/-- The row of `y ≤ 5` has a zero in the column of `x`, and may have it subtracted. -/
theorem pivot_eq_simultaneous_startingTableau :
    ∃ u, startingTableau.pivot 1 1 = .ok u ∧
      Rows.eliminate (fun _ => false) 1 1 startingTableau.matrix.rows = .ok u.matrix.rows ∧
      u.entry 0 5 = .ok 12 ∧ u.basicColumn 1 = .ok 1 := by
  have hleaving : startingTableau.basicColumn 1 = .ok 3 := rfl
  have hentry : startingTableau.entry 1 1 = .ok 2 := rfl
  obtain ⟨u, hu, hinPlace, -, -, -, hentries, -, hbasic, -⟩ :=
    pivot_eq_simultaneous hleaving hentry (by norm_num)
  refine ⟨u, hu, hinPlace _ nofun, ?_, hbasic⟩
  rw [hentries 0 5 0 8 (-3) rfl rfl rfl]
  norm_num

end Tableau

end PrimalSimplex
