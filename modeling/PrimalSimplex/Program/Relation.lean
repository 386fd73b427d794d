/-
  `Program.Relation`: how the two sides of a constraint compare, and the
  direction of optimization.
-/
import PrimalSimplex.Scalar.Basic

set_option autoImplicit false

namespace PrimalSimplex

/-- The relation of a left hand side to a right hand side. -/
inductive Relation where
  | equal
  | atLeast
  | atMost
  deriving DecidableEq, Repr

namespace Relation

/-- The relation that holds after both sides are negated. -/
def flip : Relation → Relation
  | equal => equal
  | atLeast => atMost
  | atMost => atLeast

/-- Whether the relation takes a slack variable to become an equation. -/
def hasSlack : Relation → Bool
  | equal => false
  | atLeast | atMost => true

/-- The coefficient of the slack variable, which is itself nonnegative: it fills
up a left hand side that is too small and is taken off one that is too great. -/
def slackCoefficient? {F : Type} [Scalar F] : Relation → Option F
  | equal => none
  | atLeast => some (-1)
  | atMost => some 1

/-- Whether a row with a nonnegative right hand side needs an artificial variable
to be basic in it at the start.  The slack variable of `atMost` can be basic. -/
def needsArtificial : Relation → Bool
  | equal | atLeast => true
  | atMost => false

/-- The relations with a slack variable are those with a coefficient for it. -/
theorem isSome_slackCoefficient? {F : Type} [Scalar F] (r : Relation) :
    (r.slackCoefficient? : Option F).isSome = r.hasSlack := by
  cases r <;> rfl

@[simp] theorem flip_flip (r : Relation) : r.flip.flip = r := by
  cases r <;> rfl

end Relation

/-- The direction of optimization. -/
inductive Goal where
  | maximize
  | minimize
  deriving DecidableEq, Repr

namespace Goal

/-- Without a stated goal, an objective is a cost. -/
def standard : Goal := minimize

/-- The goal's name in messages. -/
def name : Goal → String
  | maximize => "Maximize"
  | minimize => "Minimize"

end Goal

end PrimalSimplex
