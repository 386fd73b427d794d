/-
  `Column.Label`: the variable that a column of a tableau stands for.

  Columns are removed between the phases, so a position does not identify a
  variable; its label does.
-/
set_option autoImplicit false

namespace PrimalSimplex.Column

/-- What a column holds the coefficients of.  Numbered labels count within their
own kind. -/
inductive Label where
  /-- The auxiliary objective of the first phase, which measures how far the
  artificial variables are from zero. -/
  | auxiliary
  /-- The objective of the problem. -/
  | objective
  | decision (index : Nat)
  /-- The variable that is subtracted from all decision variables at once, so
  that they can be negative. -/
  | offset
  | slack (index : Nat)
  | artificial (index : Nat)
  /-- The right hand sides. -/
  | bound
  deriving DecidableEq, Repr

namespace Label

/-- Whether the column belongs to an artificial variable. -/
def isArtificial : Label → Bool
  | artificial _ => true
  | _ => false

/-- The label as it is shown. -/
def text : Label → String
  | auxiliary => "W"
  | objective => "Z"
  | decision index => "x" ++ toString index
  | offset => "x-"
  | slack index => "s" ++ toString index
  | artificial index => "a" ++ toString index
  | bound => "RHS"

end Label

end PrimalSimplex.Column
