/-
  `Proofs.Solver.Defects`: what the checks of an input find, and what they find first.

  What is wrong with an input can be said of the numbers that were given: no constraint is
  standardized for it and no tableau is built.  The one exception is an auxiliary objective
  that overflows.  What is found first follows a fixed order, which is stated below without
  the lists that the checks make: the tolerance, the objective, the first constraint that
  is flawed, the sum of the objective's coefficients, the tableau.
-/
import PrimalSimplex.Proofs.Tableau.FiniteEntries
import PrimalSimplex.Solver.Validation

set_option autoImplicit false

namespace PrimalSimplex

open Malformation (require)

variable {F : Type} [Scalar F]

/-! ## Reasons -/

/-- What is wrong first with a constraint at a position. -/
inductive Constraint.Flawed (variableCount : Nat) (nonNegative : Bool) (position : Nat)
    (c : Constraint F) : Malformation F → Prop
  | count (hlength : c.coefficients.length ≠ variableCount) :
      Flawed variableCount nonNegative position c
        (.coefficientCount position c.coefficients.length variableCount)
  | notFinite (hlength : c.coefficients.length = variableCount)
      (hnumber : ∃ a ∈ c.coefficients ++ [c.bound], Scalar.isFinite a = false) :
      Flawed variableCount nonNegative position c (.constraintNotFinite position)
  | sum (hlength : c.coefficients.length = variableCount)
      (hfinite : ∀ a ∈ c.coefficients ++ [c.bound], Scalar.isFinite a = true)
      (hfree : nonNegative = false)
      (hsum : Scalar.isFinite (c.coefficients.foldl (· + ·) 0) = false) :
      Flawed variableCount nonNegative position c (.constraintSum position)

/-- What is wrong first with an objective. -/
inductive Objective.Flawed (o : Objective F) : Malformation F → Prop
  | empty (hempty : o.coefficients = []) : Flawed o .noVariables
  | notFinite (hvariables : o.coefficients ≠ [])
      (hnumber : ∃ a ∈ o.coefficients ++ [o.constant], Scalar.isFinite a = false) :
      Flawed o .objectiveNotFinite

/-- What is wrong first with a problem and a tolerance. -/
inductive Problem.Rejected (p : Problem F) (tolerance : F) : Malformation F → Prop
  | tolerance (htolerance : ¬Scalar.IsTolerance tolerance) :
      Rejected p tolerance (.tolerance tolerance)
  | objective {m : Malformation F} (htolerance : Scalar.IsTolerance tolerance)
      (hflawed : p.objective.Flawed m) : Rejected p tolerance m
  | constraint {before after : List (Constraint F)} {c : Constraint F} {m : Malformation F}
      (htolerance : Scalar.IsTolerance tolerance) (hobjective : p.objective.IsSound)
      (hsplit : p.constraints = before ++ c :: after)
      (hbefore : ∀ d ∈ before, d.IsSound p.objective.variableCount p.nonNegative)
      (hflawed : c.Flawed p.objective.variableCount p.nonNegative before.length m) :
      Rejected p tolerance m
  | objectiveSum (htolerance : Scalar.IsTolerance tolerance) (hobjective : p.objective.IsSound)
      (hconstraints : ∀ c ∈ p.constraints, c.IsSound p.objective.variableCount p.nonNegative)
      (hfree : p.nonNegative = false)
      (hsum : Scalar.isFinite (p.objective.coefficients.foldl (· + ·) 0) = false) :
      Rejected p tolerance .objectiveSum
  | tableau {t : Tableau F} (hsound : p.IsSound tolerance)
      (hinitial : Tableau.initial p.standardize tolerance = .ok t) (hoverflows : t.Overflows) :
      Rejected p tolerance .tableauNotFinite

/-! ## Checks -/

namespace Malformation

variable {m n : Malformation F} {condition : Bool}

omit [Scalar F] in
@[simp] theorem head?_require :
    (require condition n).head? = some m ↔ condition = false ∧ n = m := by
  cases condition <;> simp [require]

end Malformation

/-- The first element of two lists is that of the first list, if it has one. -/
theorem head?_append_eq_some_iff {α : Type} {l r : List α} {a : α} :
    (l ++ r).head? = some a ↔ l.head? = some a ∨ l = [] ∧ r.head? = some a := by
  rw [List.head?_append, Option.or_eq_some_iff, List.head?_eq_none_iff]

/-- The test that the checks of an objective and of a constraint share. -/
theorem all_isFinite_iff {l : List F} {a : F} :
    (l.all Scalar.isFinite && Scalar.isFinite a) = true ↔
      ∀ x ∈ l ++ [a], Scalar.isFinite x = true := by
  simp [or_imp, forall_and]

theorem all_isFinite_eq_false_iff {l : List F} {a : F} :
    (l.all Scalar.isFinite && Scalar.isFinite a) = false ↔
      ∃ x ∈ l ++ [a], Scalar.isFinite x = false := by
  rw [← Bool.not_eq_true, all_isFinite_iff]
  simp

/-- A sum is looked at only where there is an offset. -/
theorem or_isFinite_iff {nonNegative : Bool} {a : F} :
    (nonNegative || Scalar.isFinite a) = true ↔
      (nonNegative = false → Scalar.isFinite a = true) := by
  cases nonNegative <;> simp

theorem toleranceDefects_eq_nil_iff {tolerance : F} :
    toleranceDefects tolerance = [] ↔ Scalar.IsTolerance tolerance := by
  simp only [toleranceDefects, Malformation.require_eq_nil_iff, Bool.and_eq_true, Bool.not_eq_true']
  constructor
  · rintro ⟨hfinite, hnonneg⟩
    exact ⟨hfinite, hnonneg⟩
  · rintro ⟨hfinite, hnonneg⟩
    exact ⟨hfinite, hnonneg⟩

theorem head?_toleranceDefects {tolerance : F} {m : Malformation F} :
    (toleranceDefects tolerance).head? = some m ↔
      ¬Scalar.IsTolerance tolerance ∧ .tolerance tolerance = m := by
  rw [← toleranceDefects_eq_nil_iff, toleranceDefects, Malformation.head?_require,
    Malformation.require_eq_nil_iff, Bool.not_eq_true]

namespace Objective

variable {o : Objective F} {m : Malformation F}

theorem defects_eq_nil_iff : o.defects = [] ↔ o.IsSound := by
  simp only [defects, variableCount, List.append_eq_nil_iff, Malformation.require_eq_nil_iff,
    all_isFinite_iff]
  constructor
  · rintro ⟨hcount, hfinite⟩
    exact ⟨by simpa using hcount, hfinite⟩
  · rintro ⟨hvariables, hfinite⟩
    exact ⟨by simpa using hvariables, hfinite⟩

theorem head?_defects : o.defects.head? = some m ↔ o.Flawed m := by
  simp only [defects, variableCount, head?_append_eq_some_iff, Malformation.head?_require,
    Malformation.require_eq_nil_iff, all_isFinite_eq_false_iff]
  constructor
  · rintro (⟨hempty, rfl⟩ | ⟨hvariables, hnumber, rfl⟩)
    · exact .empty (by simpa using hempty)
    · exact .notFinite (by simpa using hvariables) hnumber
  · rintro (hempty | ⟨hvariables, hnumber⟩)
    · exact .inl ⟨by simpa using hempty, rfl⟩
    · exact .inr ⟨by simpa using hvariables, hnumber, rfl⟩

end Objective

namespace Constraint

variable {variableCount position : Nat} {nonNegative : Bool} {c : Constraint F}
  {m : Malformation F}

theorem defects_eq_nil_iff (hF : Scalar.IsSignBlind F) :
    c.defects variableCount nonNegative position = [] ↔ c.IsSound variableCount nonNegative := by
  simp only [defects, List.append_eq_nil_iff, Malformation.require_eq_nil_iff, all_isFinite_iff,
    or_isFinite_iff, beq_iff_eq, offsetCoefficient, LinearForm.negatedSum, hF.neg]
  constructor
  · rintro ⟨⟨hlength, hfinite⟩, hsum⟩
    exact ⟨hlength, hfinite, hsum⟩
  · rintro ⟨hlength, hfinite, hsum⟩
    exact ⟨⟨hlength, hfinite⟩, hsum⟩

theorem head?_defects (hF : Scalar.IsSignBlind F) :
    (c.defects variableCount nonNegative position).head? = some m ↔
      c.Flawed variableCount nonNegative position m := by
  simp only [defects, head?_append_eq_some_iff, List.append_eq_nil_iff, Malformation.head?_require,
    Malformation.require_eq_nil_iff, all_isFinite_iff, all_isFinite_eq_false_iff, beq_iff_eq,
    beq_eq_false_iff_ne, Bool.or_eq_false_iff, offsetCoefficient, LinearForm.negatedSum, hF.neg]
  constructor
  · rintro ((⟨hlength, rfl⟩ | ⟨hlength, hnumber, rfl⟩) | ⟨⟨hlength, hfinite⟩, ⟨hfree, hsum⟩, rfl⟩)
    · exact .count hlength
    · exact .notFinite hlength hnumber
    · exact .sum hlength hfinite hfree hsum
  · rintro (hlength | ⟨hlength, hnumber⟩ | ⟨hlength, hfinite, hfree, hsum⟩)
    · exact .inl (.inl ⟨hlength, rfl⟩)
    · exact .inl (.inr ⟨hlength, hnumber, rfl⟩)
    · exact .inr ⟨⟨hlength, hfinite⟩, ⟨hfree, hsum⟩, rfl⟩

end Constraint

/-! ## Scans -/

namespace Problem

variable {p : Problem F} {tolerance : F} {m : Malformation F}

/-- The scan of the constraints stops at the first one that is flawed. -/
theorem head?_constraintDefects (hF : Scalar.IsSignBlind F) {variableCount : Nat}
    {nonNegative : Bool} (constraints : List (Constraint F)) (start : Nat) :
    ((constraints.zipIdx start).flatMap fun c =>
        c.1.defects variableCount nonNegative c.2).head? = some m ↔
      ∃ before c after, constraints = before ++ c :: after ∧
        (∀ d ∈ before, d.IsSound variableCount nonNegative) ∧
        c.Flawed variableCount nonNegative (start + before.length) m := by
  induction constraints generalizing start with
  | nil => simp
  | cons first rest ih =>
    rw [List.zipIdx_cons, List.flatMap_cons, head?_append_eq_some_iff, ih,
      Constraint.head?_defects hF, Constraint.defects_eq_nil_iff hF]
    constructor
    · rintro (hflawed | ⟨hsound, before, c, after, rfl, hbefore, hflawed⟩)
      · exact ⟨[], first, rest, rfl, nofun, hflawed⟩
      · refine ⟨first :: before, c, after, rfl, List.forall_mem_cons.mpr ⟨hsound, hbefore⟩, ?_⟩
        rwa [List.length_cons, Nat.add_comm before.length, ← Nat.add_assoc]
    · rintro ⟨before, c, after, hsplit, hbefore, hflawed⟩
      cases before with
      | nil =>
        obtain ⟨rfl, rfl⟩ := List.cons.inj hsplit
        exact .inl hflawed
      | cons d before =>
        obtain ⟨rfl, rfl⟩ := List.cons.inj hsplit
        obtain ⟨hsound, hbefore⟩ := List.forall_mem_cons.mp hbefore
        refine .inr ⟨hsound, before, c, after, rfl, hbefore, ?_⟩
        rwa [List.length_cons, Nat.add_comm before.length, ← Nat.add_assoc] at hflawed

theorem constraintDefects_eq_nil_iff (hF : Scalar.IsSignBlind F) {variableCount : Nat}
    {nonNegative : Bool} {constraints : List (Constraint F)} :
    (constraints.zipIdx.flatMap fun c => c.1.defects variableCount nonNegative c.2) = [] ↔
      ∀ c ∈ constraints, c.IsSound variableCount nonNegative := by
  simp only [List.flatMap_eq_nil_iff, Constraint.defects_eq_nil_iff hF]
  constructor
  · intro h c hc
    obtain ⟨k, hk⟩ := List.mem_iff_getElem?.mp hc
    exact h (c, k) (List.mem_zipIdx_iff_getElem?.mpr hk)
  · intro h c hc
    exact h c.1 (List.fst_mem_of_mem_zipIdx hc)

/-- Nothing is found exactly where there is nothing to be found. -/
theorem defects_eq_nil_iff_isSound (hF : Scalar.IsSignBlind F) :
    p.defects tolerance = [] ↔ p.IsSound tolerance := by
  simp only [defects, List.append_eq_nil_iff, toleranceDefects_eq_nil_iff,
    Objective.defects_eq_nil_iff, constraintDefects_eq_nil_iff hF, Malformation.require_eq_nil_iff,
    or_isFinite_iff, LinearForm.negatedSum, hF.neg]
  constructor
  · rintro ⟨⟨⟨htolerance, hobjective⟩, hconstraints⟩, hsum⟩
    exact ⟨htolerance, hobjective, hconstraints, hsum⟩
  · rintro ⟨htolerance, hobjective, hconstraints, hsum⟩
    exact ⟨⟨⟨htolerance, hobjective⟩, hconstraints⟩, hsum⟩

/-- What is found first is the reason for a rejection, and the only other one is the
tableau of a problem that has nothing wrong with it. -/
theorem rejected_iff (hF : Scalar.IsSignBlind F) : p.Rejected tolerance m ↔
    (p.defects tolerance).head? = some m ∨ p.IsSound tolerance ∧ .tableauNotFinite = m ∧
      ∃ t, Tableau.initial p.standardize tolerance = .ok t ∧ t.Overflows := by
  simp only [defects, head?_append_eq_some_iff, List.append_eq_nil_iff,
    toleranceDefects_eq_nil_iff, head?_toleranceDefects, Objective.defects_eq_nil_iff,
    Objective.head?_defects, constraintDefects_eq_nil_iff hF, head?_constraintDefects hF,
    Malformation.head?_require, Bool.or_eq_false_iff, LinearForm.negatedSum, hF.neg, Nat.zero_add]
  constructor
  · intro h
    cases h with
    | tolerance htolerance => exact .inl (.inl (.inl (.inl ⟨htolerance, rfl⟩)))
    | objective htolerance hflawed => exact .inl (.inl (.inl (.inr ⟨htolerance, hflawed⟩)))
    | constraint htolerance hobjective hsplit hbefore hflawed =>
      exact .inl (.inl (.inr ⟨⟨htolerance, hobjective⟩, _, _, _, hsplit, hbefore, hflawed⟩))
    | objectiveSum htolerance hobjective hconstraints hfree hsum =>
      exact .inl (.inr ⟨⟨⟨htolerance, hobjective⟩, hconstraints⟩, ⟨hfree, hsum⟩, rfl⟩)
    | tableau hsound hinitial hoverflows => exact .inr ⟨hsound, rfl, _, hinitial, hoverflows⟩
  · rintro ((((⟨htolerance, rfl⟩ | ⟨htolerance, hflawed⟩) |
      ⟨⟨htolerance, hobjective⟩, before, c, after, hsplit, hbefore, hflawed⟩) |
      ⟨⟨⟨htolerance, hobjective⟩, hconstraints⟩, ⟨hfree, hsum⟩, rfl⟩) |
      ⟨hsound, rfl, t, hinitial, hoverflows⟩)
    · exact .tolerance htolerance
    · exact .objective htolerance hflawed
    · exact .constraint htolerance hobjective hsplit hbefore hflawed
    · exact .objectiveSum htolerance hobjective hconstraints hfree hsum
    · exact .tableau hsound hinitial hoverflows

/-- There is a reason exactly where the problem is not sound or its tableau overflows. -/
theorem exists_rejected_iff (hF : Scalar.IsSignBlind F) : (∃ m, p.Rejected tolerance m) ↔
    ¬p.IsSound tolerance ∨
      ∃ t, Tableau.initial p.standardize tolerance = .ok t ∧ t.Overflows := by
  simp only [rejected_iff hF, ← defects_eq_nil_iff_isSound hF]
  cases p.defects tolerance with
  | nil => simp
  | cons m rest => simp

end Problem

end PrimalSimplex
