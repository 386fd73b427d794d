/-
  `Proofs.Program.Feasible`: what a linear program asks for, over exact numbers.

  A point answers a program when it has one entry for each variable, meets every
  constraint without a tolerance, and is nonnegative where that is asked for.
  Nothing below mentions a tableau: these are the terms in which the answers of
  a solver are judged.
-/
import PrimalSimplex.Program.Problem
import PrimalSimplex.Proofs.Scalar.Exact

set_option autoImplicit false

namespace PrimalSimplex

open LinearForm (dot)

variable {F : Type} [Field F] [LinearOrder F]

/-! ## Constraints -/

namespace Constraint

/-- The point is on the right side of the constraint. -/
def Holds (c : Constraint F) (point : List F) : Prop :=
  match c.relation with
  | .equal => dot c.coefficients point = c.bound
  | .atLeast => c.bound ≤ dot c.coefficients point
  | .atMost => dot c.coefficients point ≤ c.bound

/-- A constraint may be missed by the tolerance. -/
theorem isSatisfiedBy_iff {c : Constraint F} {point : List F} {tolerance : F} :
    c.isSatisfiedBy point tolerance = true ↔
      match c.relation with
      | .equal => |dot c.coefficients point - c.bound| ≤ tolerance
      | .atLeast => c.bound - tolerance ≤ dot c.coefficients point
      | .atMost => dot c.coefficients point ≤ c.bound + tolerance := by
  have hleft : LinearForm.eval 0 c.coefficients point = dot c.coefficients point := by
    rw [LinearForm.eval_eq_add_dot, zero_add]
  rw [← hleft, isSatisfiedBy]
  cases c.relation with
  | equal => exact Scalar.near_iff
  | atLeast => exact Scalar.isLe_iff
  | atMost => exact Scalar.isLe_iff

variable [IsStrictOrderedRing F]

/-- Being satisfied up to no tolerance is being satisfied. -/
theorem isSatisfiedBy_zero_iff {c : Constraint F} {point : List F} :
    c.isSatisfiedBy point 0 = true ↔ c.Holds point := by
  rw [isSatisfiedBy_iff, Holds]
  cases c.relation with
  | equal =>
    show |_| ≤ (0 : F) ↔ _
    rw [abs_nonpos_iff, sub_eq_zero]
  | atLeast =>
    show c.bound - 0 ≤ _ ↔ _
    rw [sub_zero]
  | atMost =>
    show _ ≤ c.bound + 0 ↔ _
    rw [add_zero]

/-- Negating both sides and turning the relation around changes nothing. -/
theorem isSatisfiedBy_negate {c : Constraint F} {point : List F} {tolerance : F} :
    c.negate.isSatisfiedBy point tolerance = true ↔ c.isSatisfiedBy point tolerance = true := by
  have hneg : dot c.negate.coefficients point = -dot c.coefficients point :=
    LinearForm.dot_map_neg c.coefficients point
  have hbound : c.negate.bound = -c.bound := rfl
  rw [isSatisfiedBy_iff, isSatisfiedBy_iff, hneg, hbound]
  show (match c.relation.flip with | .equal => _ | .atLeast => _ | .atMost => _) ↔ _
  cases c.relation with
  | equal =>
    show |-dot c.coefficients point - -c.bound| ≤ tolerance ↔ _
    rw [neg_sub_neg, abs_sub_comm]
  | atLeast =>
    show -dot c.coefficients point ≤ -c.bound + tolerance ↔ _
    rw [neg_le, neg_add_rev, neg_neg, neg_add_eq_sub]
  | atMost =>
    show -c.bound - tolerance ≤ -dot c.coefficients point ↔ _
    rw [le_neg, neg_sub, sub_neg_eq_add, add_comm]

/-- The standard form is missed by no more and no less. -/
theorem isSatisfiedBy_standardize {c : Constraint F} {point : List F} {tolerance : F} :
    c.standardize.isSatisfiedBy point tolerance = true ↔
      c.isSatisfiedBy point tolerance = true := by
  unfold standardize
  split
  · exact isSatisfiedBy_negate
  · exact Iff.rfl

/-- The standard form of a constraint is met by the same points. -/
theorem holds_standardize {c : Constraint F} {point : List F} :
    c.standardize.Holds point ↔ c.Holds point :=
  isSatisfiedBy_zero_iff.symm.trans (isSatisfiedBy_standardize.trans isSatisfiedBy_zero_iff)

/-- The bound of a standard form is not below zero. -/
theorem bound_standardize_nonneg (c : Constraint F) : 0 ≤ c.standardize.bound := by
  unfold standardize
  split
  · rename_i hneg
    exact neg_nonneg.mpr (Scalar.isLt_iff.mp hneg).le
  · rename_i hnonneg
    exact not_lt.mp fun hneg => hnonneg (Scalar.isLt_iff.mpr hneg)

omit [IsStrictOrderedRing F] in
theorem standardize_of_nonneg {c : Constraint F} (h : 0 ≤ c.bound) : c.standardize = c :=
  if_neg fun hneg => not_lt.mpr h (Scalar.isLt_iff.mp hneg)

omit [IsStrictOrderedRing F] in
theorem standardize_of_neg {c : Constraint F} (h : c.bound < 0) : c.standardize = c.negate :=
  if_pos (Scalar.isLt_iff.mpr h)

/-- The constraints in standard form are those whose bound is not below zero. -/
theorem standardize_eq_self_iff {c : Constraint F} : c.standardize = c ↔ 0 ≤ c.bound := by
  constructor
  · intro h
    rw [← h]
    exact c.bound_standardize_nonneg
  · exact standardize_of_nonneg

omit [IsStrictOrderedRing F] in
/-- Negating twice changes nothing. -/
theorem negate_negate (c : Constraint F) : c.negate.negate = c := by
  have hcoefficients : (c.coefficients.map fun a => -a).map (fun a => -a) = c.coefficients := by
    rw [List.map_map]
    exact List.map_id'' neg_neg _
  show Constraint.mk ((c.coefficients.map fun a => -a).map fun a => -a) c.relation.flip.flip
    (- -c.bound) = c
  rw [hcoefficients, Relation.flip_flip, neg_neg]

/-- Unless its bound is zero, a constraint has the standard form of its negated one.  With
a bound of zero both are in standard form. -/
theorem standardize_negate {c : Constraint F} (h : c.bound ≠ 0) :
    c.negate.standardize = c.standardize := by
  rcases lt_or_gt_of_ne h with hneg | hpos
  · have hbound : 0 ≤ c.negate.bound := neg_nonneg.mpr hneg.le
    rw [standardize_of_nonneg hbound, standardize_of_neg hneg]
  · have hbound : c.negate.bound < 0 := neg_lt_zero.mpr hpos
    rw [standardize_of_neg hbound, negate_negate, standardize_of_nonneg hpos.le]

end Constraint

/-! ## Objectives -/

/-- The value of an objective is its constant and the sum of the products. -/
theorem Objective.value_eq_add_dot (o : Objective F) (point : List F) :
    o.value point = o.constant + dot o.coefficients point :=
  LinearForm.eval_eq_add_dot o.constant o.coefficients point

namespace Goal

/-- One value is as good as another one, or better. -/
def AtLeastAsGood : Goal → F → F → Prop
  | maximize, a, b => b ≤ a
  | minimize, a, b => a ≤ b

/-- One value is better than another one. -/
def Better : Goal → F → F → Prop
  | maximize, a, b => b < a
  | minimize, a, b => a < b

omit [LinearOrder F] in
/-- Lower is better: the value of a cost, the negated value of a gain. -/
def loss : Goal → F → F
  | maximize, value => -value
  | minimize, value => value

variable [IsStrictOrderedRing F]

theorem atLeastAsGood_iff {g : Goal} {a b : F} : g.AtLeastAsGood a b ↔ g.loss a ≤ g.loss b := by
  cases g with
  | maximize => exact neg_le_neg_iff.symm
  | minimize => exact Iff.rfl

theorem better_iff {g : Goal} {a b : F} : g.Better a b ↔ g.loss a < g.loss b := by
  cases g with
  | maximize => exact neg_lt_neg_iff.symm
  | minimize => exact Iff.rfl

end Goal

/-! ## Programs -/

namespace Problem

/-- The point meets all that the program asks of a point. -/
structure IsFeasible (p : Problem F) (point : List F) : Prop where
  length_eq : point.length = p.objective.variableCount
  holds : ∀ c ∈ p.constraints, c.Holds point
  nonneg : p.nonNegative = true → ∀ a ∈ point, 0 ≤ a

/-- The point is feasible, it has the value that is given with it, and no feasible
point has a better one. -/
structure IsOptimum (p : Problem F) (solution : Solution F) : Prop where
  isFeasible : p.IsFeasible solution.point
  value_eq : solution.value = p.objective.value solution.point
  best : ∀ point, p.IsFeasible point →
    p.goal.AtLeastAsGood solution.value (p.objective.value point)

variable [IsStrictOrderedRing F]

/-- Standard forms ask for the same points. -/
theorem isFeasible_standardize {p : Problem F} {point : List F} :
    p.standardize.IsFeasible point ↔ p.IsFeasible point := by
  constructor
  · intro h
    refine ⟨h.length_eq, fun c hc => ?_, h.nonneg⟩
    exact Constraint.holds_standardize.mp (h.holds _ (List.mem_map_of_mem hc))
  · intro h
    refine ⟨h.length_eq, fun c hc => ?_, h.nonneg⟩
    obtain ⟨given, hgiven, rfl⟩ := List.mem_map.mp hc
    exact Constraint.holds_standardize.mpr (h.holds given hgiven)

/-- No bound of a program in standard form is below zero. -/
theorem bound_nonneg_of_mem_standardize {p : Problem F} :
    ∀ c ∈ p.standardize.constraints, 0 ≤ c.bound := by
  intro c hc
  obtain ⟨c, _, rfl⟩ := List.mem_map.mp hc
  exact c.bound_standardize_nonneg

end Problem

end PrimalSimplex
