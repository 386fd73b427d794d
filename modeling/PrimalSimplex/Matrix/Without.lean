/-
  `Matrix.Without`: leaving out rows and columns.

  Positions to leave out are given in strictly increasing order, each of them a
  position of the matrix; anything else is a fault.  What stays keeps its order.
-/
import PrimalSimplex.Matrix.Basic

set_option autoImplicit false

namespace PrimalSimplex

/-- The elements of a list whose positions are not listed. -/
def dropPositions {α : Type} (positions : List Nat) (elements : List α) : List α :=
  (elements.zipIdx.filter fun element => !positions.contains element.2).map (·.1)

/-- The positions below `count` that are not listed. -/
def keptPositions (positions : List Nat) (count : Nat) : List Nat :=
  (List.range count).filter fun i => !positions.contains i

/-- As many elements stay as there are positions that are not listed. -/
theorem length_dropPositions {α : Type} (positions : List Nat) (elements : List α) :
    (dropPositions positions elements).length =
      (keptPositions positions elements.length).length := by
  have hsnd : elements.zipIdx.map Prod.snd = List.range elements.length := by
    rw [List.zipIdx_map_snd, List.range_eq_range']
  rw [dropPositions, keptPositions, List.length_map, ← hsnd, List.filter_map, List.length_map]
  rfl

/-- Whether positions are strictly increasing and below `count`. -/
def arePositions (positions : List Nat) (count : Nat) : Bool :=
  decide (positions.Pairwise (· < ·)) && positions.all (· < count)

namespace Matrix

variable {F : Type}

/-- The matrix without some rows and some columns. -/
def without (m : Matrix F) (rows columns : List Nat) : Except Fault (Matrix F) :=
  if arePositions rows m.height && arePositions columns m.width then
    .ok
      { rows := (dropPositions rows m.rows).map (dropPositions columns)
        width := (keptPositions columns m.width).length
        length_of_mem := by
          intro row hrow
          simp only [dropPositions, List.mem_map, List.mem_filter] at hrow
          obtain ⟨row, ⟨⟨row, i⟩, ⟨hmem, _⟩, rfl⟩, rfl⟩ := hrow
          have hlength := m.length_of_mem row (List.fst_mem_of_mem_zipIdx hmem)
          rw [← hlength]
          exact length_dropPositions columns row }
  else .error .outOfRange

end Matrix

end PrimalSimplex
