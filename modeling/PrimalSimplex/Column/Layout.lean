/-
  `Column.Layout`: the order of the columns of a tableau before any is removed.

  Columns come in consecutive groups:

      [W] Z | x0 x1 … [x-] | s0 s1 … | a0 a1 … | RHS

  The column `W` is there exactly when some variable is artificial, the column
  `x-` exactly when the decision variables may be negative.
-/
import PrimalSimplex.Column.Label

set_option autoImplicit false

namespace PrimalSimplex.Column

/-- A kind of columns, which form a group of consecutive ones. -/
inductive Kind where
  | objective
  | decision
  | offset
  | slack
  | artificial
  | bound
  deriving DecidableEq, Repr

/-- All kinds, in the order of their columns. -/
def Kind.all : List Kind :=
  [objective, decision, offset, slack, artificial, bound]

/-- How many variables of each kind there are. -/
structure Layout where
  decisions : Nat
  hasOffset : Bool
  slacks : Nat
  artificials : Nat
  deriving DecidableEq, Repr

namespace Layout

/-- The labels of a group, in order. -/
def groupLabels (l : Layout) : Kind → List Label
  | .objective => if 0 < l.artificials then [.auxiliary, .objective] else [.objective]
  | .decision => (List.range l.decisions).map .decision
  | .offset => if l.hasOffset then [.offset] else []
  | .slack => (List.range l.slacks).map .slack
  | .artificial => (List.range l.artificials).map .artificial
  | .bound => [.bound]

/-- The number of columns of a group. -/
def size (l : Layout) : Kind → Nat
  | .objective => if 0 < l.artificials then 2 else 1
  | .decision => l.decisions
  | .offset => if l.hasOffset then 1 else 0
  | .slack => l.slacks
  | .artificial => l.artificials
  | .bound => 1

/-- The number of columns of several groups. -/
def totalSize (l : Layout) (groups : List Kind) : Nat :=
  groups.foldr (fun group total => l.size group + total) 0

/-- The position of the first column of a group, or of the column after it when
the group is empty. -/
def start (l : Layout) (group : Kind) : Nat :=
  l.totalSize (Kind.all.takeWhile (· ≠ group))

/-- The position after the last column of a group. -/
def stop (l : Layout) (group : Kind) : Nat :=
  l.start group + l.size group

/-- The number of columns. -/
def width (l : Layout) : Nat :=
  l.totalSize Kind.all

/-- The label of every column. -/
def labels (l : Layout) : List Label :=
  Kind.all.flatMap l.groupLabels

@[simp] theorem length_groupLabels (l : Layout) (group : Kind) :
    (l.groupLabels group).length = l.size group := by
  cases group with
  | objective => simp only [groupLabels, size]; split <;> rfl
  | offset => simp only [groupLabels, size]; split <;> rfl
  | _ => simp [groupLabels, size]

/-- Groups one after another are as long as their sizes together. -/
theorem length_flatMap_groupLabels (l : Layout) (groups : List Kind) :
    (groups.flatMap l.groupLabels).length = l.totalSize groups := by
  induction groups with
  | nil => rfl
  | cons group rest ih =>
    rw [List.flatMap_cons, List.length_append, length_groupLabels, ih]
    rfl

@[simp] theorem length_labels (l : Layout) : l.labels.length = l.width :=
  length_flatMap_groupLabels l Kind.all

end Layout

end PrimalSimplex.Column
