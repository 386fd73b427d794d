/-
  `Matrix.Basic`: dense matrices as lists of rows, and the row operations.

  All rows have the same length, which the type records once: the width is a
  field, so that a matrix without rows still has its number of columns.  An
  operation that addresses a row or a column that is not there is a fault.

  Row operations map every row to a row of the same length (`mapRows`).  Nothing
  is updated in place, so what an operation does to one entry is one formula in
  the entries before it.
-/
import PrimalSimplex.Fault
import PrimalSimplex.Scalar.Basic

set_option autoImplicit false

namespace PrimalSimplex

/-- A rectangular table of numbers. -/
structure Matrix (F : Type) where
  rows : List (List F)
  width : Nat
  length_of_mem : ∀ row ∈ rows, row.length = width

/-- The row `minuend - multiple * subtrahend`, of the length of `minuend`. -/
def Row.subtract {F : Type} [Scalar F] (multiple : F) : (minuend subtrahend : List F) → List F
  | x :: minuend, y :: subtrahend => (x - multiple * y) :: subtract multiple minuend subtrahend
  | minuend, _ => minuend

@[simp] theorem Row.length_subtract {F : Type} [Scalar F] (multiple : F)
    (minuend subtrahend : List F) :
    (Row.subtract multiple minuend subtrahend).length = minuend.length := by
  induction minuend generalizing subtrahend with
  | nil => cases subtrahend <;> rfl
  | cons x minuend ih =>
    cases subtrahend with
    | nil => rfl
    | cons y subtrahend => simp [Row.subtract, ih]

/-- One number of a difference of rows. -/
theorem Row.getElem?_subtract {F : Type} [Scalar F] (multiple : F) {minuend subtrahend : List F}
    {j : Nat} {x y : F} (hx : minuend[j]? = some x) (hy : subtrahend[j]? = some y) :
    (Row.subtract multiple minuend subtrahend)[j]? = some (x - multiple * y) := by
  induction minuend generalizing subtrahend j with
  | nil => simp at hx
  | cons x' minuend ih =>
    cases subtrahend with
    | nil => simp at hy
    | cons y' subtrahend =>
      cases j with
      | zero =>
        cases hx
        cases hy
        rfl
      | succ j => exact ih hx hy

namespace Matrix

variable {F : Type}

/-- The number of rows. -/
def height (m : Matrix F) : Nat := m.rows.length

/-! ## Construction -/

/-- The matrix of zeros. -/
def zeros [Scalar F] (height width : Nat) : Matrix F where
  rows := List.replicate height (List.replicate width 0)
  width := width
  length_of_mem row h := by rw [List.eq_of_mem_replicate h, List.length_replicate]

/-- The matrix of the given rows, as wide as the first of them; none if another
row has a different length. -/
def ofRows? (rows : List (List F)) : Option (Matrix F) :=
  let width := (rows.head?.map List.length).getD 0
  if h : ∀ row ∈ rows, row.length = width then some ⟨rows, width, h⟩ else none

/-! ## Access -/

/-- A row. -/
def row (m : Matrix F) (i : Nat) : Except Fault (List F) :=
  Fault.fetch m.rows i

/-- The number in a row and a column. -/
def entry (m : Matrix F) (i j : Nat) : Except Fault F := do
  Fault.fetch (← m.row i) j

/-- A column, from the first row down. -/
def column (m : Matrix F) (j : Nat) : Except Fault (List F) :=
  m.rows.mapM fun row => Fault.fetch row j

/-! ## Row operations -/

/-- Changes every row, given its position, to a row of the same length. -/
def mapRows (m : Matrix F) (change : Nat → List F → List F)
    (h : ∀ i row, (change i row).length = row.length) : Matrix F where
  rows := m.rows.mapIdx change
  width := m.width
  length_of_mem row hrow := by
    obtain ⟨i, hi, rfl⟩ := List.mem_mapIdx.mp hrow
    rw [h]
    exact m.length_of_mem _ (List.getElem_mem hi)

/-- Changes one row to a row of the same length. -/
def modifyRow (m : Matrix F) (target : Nat) (change : List F → List F)
    (h : ∀ row, (change row).length = row.length) : Except Fault (Matrix F) :=
  if target < m.height then
    .ok (m.mapRows (fun i row => if i = target then change row else row)
      fun i row => by by_cases hi : i = target <;> simp [hi, h])
  else .error .outOfRange

/-- Puts a number into a row and a column. -/
def set (m : Matrix F) (i j : Nat) (value : F) : Except Fault (Matrix F) :=
  if j < m.width then m.modifyRow i (·.set j value) fun _ => List.length_set ..
  else .error .outOfRange

variable [Scalar F]

/-- Divides all numbers of a row. -/
def divideRow (m : Matrix F) (i : Nat) (divisor : F) : Except Fault (Matrix F) :=
  m.modifyRow i (·.map (· / divisor)) fun _ => List.length_map ..

/-- Subtracts a multiple of one row from another one.  That they differ is
checked before either is looked up. -/
def subtractRow (m : Matrix F) (minuend subtrahend : Nat) (multiple : F) :
    Except Fault (Matrix F) :=
  if minuend = subtrahend then .error (.sameRow minuend)
  else do
    let row ← m.row subtrahend
    m.modifyRow minuend (Row.subtract multiple · row) fun _ => Row.length_subtract ..

/-- Clears a column outside of one row: that row is divided by its number in the
column, and every other row with a nonzero number there loses that multiple of
the divided row. -/
def pivot (m : Matrix F) (pivotRow column : Nat) : Except Fault (Matrix F) := do
  let row ← m.row pivotRow
  let divisor ← Fault.fetch row column
  let unit := row.map (· / divisor)
  /- The column was just found in one row, so it is there in all of them and the
  default is never used. -/
  return m.mapRows
    (fun i row =>
      if i = pivotRow then row.map (· / divisor)
      else
        let multiple := row.getD column 0
        if Scalar.isEq multiple 0 then row else Row.subtract multiple row unit)
    fun i row => by
      by_cases hi : i = pivotRow
      · simp [hi]
      · simp only [hi, if_false]
        split <;> simp

/-! ## Comparison -/

/-- Equality of the width and of all numbers, as the scalars compare. -/
def isEq (m n : Matrix F) : Bool :=
  m.width == n.width && m.rows.isEqv n.rows fun r s => r.isEqv s Scalar.isEq

/-- Whether every number is finite. -/
def isFinite (m : Matrix F) : Bool :=
  m.rows.all fun row => row.all Scalar.isFinite

/-! ## Lemmas -/

omit [Scalar F] in
/-- The view of a matrix: an entry is read exactly where its row and column are. -/
theorem entry_eq_ok_iff {m : Matrix F} {i j : Nat} {x : F} :
    m.entry i j = .ok x ↔ ∃ row, m.rows[i]? = some row ∧ row[j]? = some x := by
  simp only [entry, row, Fault.fetch]
  cases m.rows[i]? with
  | none => simp [bind, Except.bind]
  | some row =>
    simp only [bind, Except.bind, Option.some.injEq, exists_eq_left']
    exact Fault.fetch_eq_ok_iff

omit [Scalar F] in
/-- Inside a matrix there is always an entry. -/
theorem exists_entry {m : Matrix F} {i j : Nat} (hi : i < m.height) (hj : j < m.width) :
    ∃ x, m.entry i j = .ok x := by
  have hrow : m.rows[i].length = m.width := m.length_of_mem _ (List.getElem_mem hi)
  exact ⟨m.rows[i].get ⟨j, hrow ▸ hj⟩,
    entry_eq_ok_iff.mpr ⟨_, List.getElem?_eq_getElem hi, List.getElem?_eq_getElem (hrow ▸ hj)⟩⟩

omit [Scalar F] in
@[simp] theorem height_mapRows (m : Matrix F) (change : Nat → List F → List F)
    (h : ∀ i row, (change i row).length = row.length) : (m.mapRows change h).height = m.height := by
  simp [height, mapRows]

omit [Scalar F] in
@[simp] theorem width_mapRows (m : Matrix F) (change : Nat → List F → List F)
    (h : ∀ i row, (change i row).length = row.length) : (m.mapRows change h).width = m.width := rfl

end Matrix

end PrimalSimplex
