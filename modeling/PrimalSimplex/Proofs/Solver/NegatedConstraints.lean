/-
  `Proofs.Solver.NegatedConstraints`: a solver sees standard forms only.

  A solver looks for defects in the problem as it is given, and then solves its standard
  form.  Over exact numbers, negating a constraint neither makes nor mends a defect, and
  unless the bound is zero it does not change the standard form either.  So it makes no
  difference to an answer in which of the two ways each constraint is written.
-/
import PrimalSimplex.Proofs.Solver.Outcome

set_option autoImplicit false

namespace PrimalSimplex

variable {F : Type}

/-! ## Problems with the same standard form -/

section Standard

variable [Scalar F]

/-- The problem with some of its constraints negated, chosen by their positions. -/
def Problem.negateAt (p : Problem F) (chosen : Nat → Bool) : Problem F :=
  { p with constraints := p.constraints.mapIdx fun i c => if chosen i then c.negate else c }

/-- What is solved is the standard form, unless there is a defect. -/
theorem Problem.solve_eq_of_standardize_eq {p q : Problem F} {settings : Settings F}
    (hstandard : q.standardize = p.standardize)
    (hdefects : q.defects settings.tolerance = p.defects settings.tolerance)
    (rule : EnteringRule) : q.solve settings rule = p.solve settings rule := by
  obtain ⟨hobjective, hconstraints, hgoal, -⟩ := Problem.mk.inj hstandard
  have hlength : q.constraints.length = p.constraints.length := by
    simpa using congrArg List.length hconstraints
  have hrun : ∀ initial limit, q.solveFrom initial limit rule = p.solveFrom initial limit rule := by
    intro initial limit
    unfold solveFrom
    rw [hobjective, hgoal, hlength]
  simp only [solve, hdefects, hstandard, hrun]

end Standard

/-! ## Negated constraints -/

section Exact

variable [Field F] [LinearOrder F]

/-- Of exact numbers, only how many there are can be a defect of a constraint. -/
theorem Constraint.defects_negate (c : Constraint F) (variableCount : Nat) (nonNegative : Bool)
    (position : Nat) :
    c.negate.defects variableCount nonNegative position =
      c.defects variableCount nonNegative position := by
  have hlength : c.negate.coefficients.length = c.coefficients.length := List.length_map _
  have hfinite : ∀ cs : List F, cs.all Scalar.isFinite = true := fun cs =>
    List.all_eq_true.mpr fun a _ => Scalar.isFinite_eq_true a
  simp only [defects, hlength, hfinite, Scalar.isFinite_eq_true]

namespace Problem

variable {p : Problem F} {chosen : Nat → Bool}

theorem defects_negateAt (tolerance : F) :
    (p.negateAt chosen).defects tolerance = p.defects tolerance := by
  have hplaces : (p.negateAt chosen).constraints.zipIdx =
      p.constraints.zipIdx.map fun c => (if chosen c.2 then c.1.negate else c.1, c.2) := by
    refine List.ext_getElem? fun i => ?_
    rw [negateAt, List.getElem?_zipIdx, List.getElem?_mapIdx, List.getElem?_map,
      List.getElem?_zipIdx]
    cases p.constraints[i]? with
    | none => rfl
    | some c => simp
  unfold defects
  rw [hplaces, List.flatMap_map]
  have hsame : ∀ c : Constraint F × Nat,
      (if chosen c.2 then c.1.negate else c.1).defects p.objective.variableCount p.nonNegative c.2 =
        c.1.defects p.objective.variableCount p.nonNegative c.2 := by
    intro c
    split
    · exact c.1.defects_negate _ _ _
    · rfl
  simp only [negateAt, hsame]

variable [IsStrictOrderedRing F]

theorem standardize_negateAt
    (h : ∀ i c, p.constraints[i]? = some c → chosen i = true → c.bound ≠ 0) :
    (p.negateAt chosen).standardize = p.standardize := by
  have hconstraints : (p.negateAt chosen).constraints.map Constraint.standardize =
      p.constraints.map Constraint.standardize := by
    refine List.ext_getElem? fun i => ?_
    rw [negateAt, List.getElem?_map, List.getElem?_map, List.getElem?_mapIdx]
    cases hc : p.constraints[i]? with
    | none => rfl
    | some c =>
      cases hchosen : chosen i with
      | false => simp
      | true => simpa using Constraint.standardize_negate (h i c hc hchosen)
  exact congrArg (fun constraints => { p with constraints }) hconstraints

end Problem

/-! ## The result -/

variable [IsStrictOrderedRing F]

/-- The standard form of a constraint has a bound that is not below zero, is the
constraint itself if that is so already, and is satisfied by the same points at every
tolerance.  Unless the bound is zero, it is that of the negated constraint too; so a
solver gives the same report on a problem, and counts the same iterations, when any such
constraints of it are negated. -/
theorem Solver.optimize_negateAt :
    (∀ c : Constraint F, 0 ≤ c.standardize.bound ∧ (c.standardize = c ↔ 0 ≤ c.bound) ∧
      c.standardize.standardize = c.standardize ∧
      ∀ point tolerance,
        c.isSatisfiedBy point tolerance = c.standardize.isSatisfiedBy point tolerance) ∧
    (∀ c : Constraint F, c.bound ≠ 0 → c.negate.standardize = c.standardize) ∧
    ∀ (s : Solver F) (p : Problem F) (chosen : Nat → Bool),
      (∀ i c, p.constraints[i]? = some c → chosen i = true → c.bound ≠ 0) →
      s.optimize (p.negateAt chosen) = s.optimize p := by
  refine ⟨fun c => ?_, fun c => Constraint.standardize_negate, fun s p chosen h => ?_⟩
  · have hnonneg := c.bound_standardize_nonneg
    refine ⟨hnonneg, Constraint.standardize_eq_self_iff,
      Constraint.standardize_of_nonneg hnonneg, fun point tolerance => ?_⟩
    exact Bool.eq_iff_iff.mpr Constraint.isSatisfiedBy_standardize.symm
  · have hsolve := Problem.solve_eq_of_standardize_eq (Problem.standardize_negateAt h)
      (Problem.defects_negateAt s.settings.tolerance) s.rule
    unfold optimize
    rw [hsolve]

end Exact

/-- Two of three constraints are negated: one with a bound below zero, which thereby gets
its standard form, and one with a bound above, which loses it. -/
theorem Solver.optimize_negateAt_mixedProblem :
    (⟨[1, -1], .equal, -2⟩ : Constraint ℚ).negate.standardize =
        (⟨[1, -1], .equal, -2⟩ : Constraint ℚ).standardize ∧
      (create ⟨0, 10⟩ .steepest).answer? (mixedProblem.negateAt fun i => i != 1) =
        some (.ok ⟨[1, 3], 10⟩) := by
  obtain ⟨-, hnegate, hoptimize⟩ := optimize_negateAt (F := ℚ)
  have hbounds : ∀ c ∈ mixedProblem.constraints, c.bound ≠ 0 := by decide +kernel
  have hsame := hoptimize (create ⟨0, 10⟩ .steepest) mixedProblem (fun i => i != 1)
    fun i c hc _ => hbounds c (List.mem_of_getElem? hc)
  refine ⟨hnegate _ (by decide +kernel), ?_⟩
  rw [answer?, hsame]
  exact answer?_mixedProblem

end PrimalSimplex
