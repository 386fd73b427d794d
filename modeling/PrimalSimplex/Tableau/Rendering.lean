/-
  `Tableau.Rendering`: a tableau as a table of text.

  Columns are headed by their labels, and every row starts with the objective or
  the basic variable it belongs to.  Cells are padded to a fixed width but never
  cut, so that a long number moves the rest of its row and loses nothing.
-/
import PrimalSimplex.Decimal.Text
import PrimalSimplex.Tableau.Basic

set_option autoImplicit false

namespace PrimalSimplex

/-! ## Padding -/

/-- Pads a text with blanks on both sides; an odd blank goes to the right. -/
def center (width : Nat) (text : String) : String :=
  let blanks := width - text.length
  String.ofList (List.replicate (blanks / 2) ' ') ++ text
    ++ String.ofList (List.replicate (blanks - blanks / 2) ' ')

/-- Pads a text with blanks on the left. -/
def alignRight (width : Nat) (text : String) : String :=
  String.ofList (List.replicate (width - text.length) ' ') ++ text

/-- The measures of a rendered tableau. -/
structure TableStyle where
  /-- Width of the cell in front of a row. -/
  headWidth : Nat
  cellWidth : Nat
  /-- Digits after the point. -/
  places : Nat

/-- The measures used throughout. -/
def TableStyle.standard : TableStyle := ⟨8, 10, 4⟩

/-! ## Rows -/

namespace Tableau

variable {F : Type}

/-- The variable a row belongs to: its objective, or what is basic in it. -/
def rowLabel (t : Tableau F) (row : Nat) : Except Fault Column.Label :=
  if row < t.objectives then t.label row else t.basicLabel row

variable [DecimalText F]

/-- One row of numbers. -/
def renderRow (style : TableStyle) (t : Tableau F) (row : Nat) : Except Fault String := do
  let label ← t.rowLabel row
  let cells := (← t.matrix.row row).map fun x =>
    center style.cellWidth (DecimalText.fixed style.places x)
  return alignRight style.headWidth (label.text ++ "  |") ++ String.join cells ++ "\n"

/-- The whole table: a title, the labels, a line, and the rows. -/
def render (t : Tableau F) : Except Fault String := do
  let style := TableStyle.standard
  let labels := t.labels.map fun label => center style.cellWidth label.text
  let line := List.replicate (style.headWidth + t.width * style.cellWidth) '-'
  let rows ← (List.range t.height).mapM (t.renderRow style)
  return "Tableau:\n" ++ alignRight style.headWidth "" ++ String.join labels ++ "\n"
    ++ String.ofList line ++ "\n" ++ String.join rows

end Tableau

end PrimalSimplex
