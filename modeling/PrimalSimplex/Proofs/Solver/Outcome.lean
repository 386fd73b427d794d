/-
  `Proofs.Solver.Outcome`: what a solver answers is true.

  Over exact numbers and without a tolerance, a solution that is reported is an
  optimum of the given problem, a problem that is reported infeasible has no
  feasible point, and one that is reported unbounded has feasible points as good as
  one likes.  The rule, the limit and what happened before make no difference: a
  phase ends at tableaus that speak for themselves, however they were reached.
-/
import Mathlib.Algebra.Field.Rat
import Mathlib.Algebra.Order.Ring.Rat
import PrimalSimplex.Proofs.Solver.Run
import PrimalSimplex.Proofs.Tableau.SecondPhase

set_option autoImplicit false

namespace PrimalSimplex

open Tableau (InFirstPhase Presents)

deriving instance DecidableEq for Solution

variable {F : Type} [Field F] [LinearOrder F] [IsStrictOrderedRing F]

/-! ## The first phase -/

section Feasibility

variable {p : Problem F} {s : Tableau F} {limit : Nat} {begun : Progress F} {stage : Stage F}

/-- All tableaus of the first phase are such. -/
theorem Pivoting.inFirstPhase (h : Pivoting limit begun stage)
    (hbegun : InFirstPhase p s begun.tableau) : InFirstPhase p s stage.progress.tableau :=
  (h.invariant (fun _ _ _ _ ht hj hrow hpivot => ht.exchange hj hrow hpivot) hbegun).1

namespace FeasibilityRun

/-- A first phase that succeeds ends with row 0 at zero. -/
theorem reached_spec {q : Progress F} (h : FeasibilityRun limit begun ⟨none, q⟩)
    (hbegun : InFirstPhase p s begun.tableau) :
    InFirstPhase p s q.tableau ∧ (∀ j, ¬q.tableau.IsProfitable j) ∧
      q.tableau.coeff 0 q.tableau.boundColumn = 0 := by
  cases h with
  | reached hpivoting hvalue hnear =>
    have hend := hpivoting.inFirstPhase hbegun
    refine ⟨hend, hpivoting.settled, ?_⟩
    obtain rfl := Except.ok.inj ((hend.bound_eq_ok hend.height_pos).symm.trans hvalue)
    change Scalar.near _ 0 _ = true at hnear
    rw [hend.tolerance_eq] at hnear
    exact Scalar.near_zero_iff.mp hnear

/-- A first phase that fails otherwise than by the limit shows that there is no
feasible point. -/
theorem stopped_spec {q : Progress F} {f : Failure (Malformation F)}
    (h : FeasibilityRun limit begun ⟨some f, q⟩) (hbegun : InFirstPhase p s begun.tableau) :
    (∃ count, f = .iterationLimitExceeded count) ∨
      f = .infeasible ∧ ∀ point, ¬p.IsFeasible point := by
  cases h with
  | stopped hpivoting =>
    have hend := hpivoting.inFirstPhase hbegun
    have hsettled := hpivoting.settled
    cases f with
    | iterationLimitExceeded count => exact .inl ⟨count, rfl⟩
    | unbounded =>
      obtain ⟨j, hj, hunlimited⟩ := hsettled
      obtain ⟨i, hlimits⟩ := hend.exists_limits hj
      exact absurd hlimits (hunlimited i)
    | infeasible => exact hsettled.elim
    | malformedInput _ => exact hsettled.elim
  | missed hpivoting hvalue hfar =>
    have hend := hpivoting.inFirstPhase hbegun
    refine .inr ⟨rfl, hend.not_isFeasible hpivoting.settled fun hzero => ?_⟩
    obtain rfl := Except.ok.inj ((hend.bound_eq_ok hend.height_pos).symm.trans hvalue)
    rw [hend.tolerance_eq, hzero, Scalar.near_zero_iff.mpr rfl] at hfar
    cases hfar

end FeasibilityRun

end Feasibility

/-! ## The second phase -/

section Optimality

variable {p : Problem F} {limit : Nat} {begun : Progress F} {stage : Stage F}

theorem Pivoting.presents (h : Pivoting limit begun stage) (hbegun : Presents p begun.tableau) :
    Presents p stage.progress.tableau :=
  (h.invariant (fun _ _ _ _ ht hj hrow hpivot => ht.exchange hj hrow hpivot) hbegun).1

/-- The second phase ends at a tableau that presents the problem and is as the
reason for the end says. -/
theorem OptimalityRun.spec (h : OptimalityRun limit begun stage)
    (hbegun : Presents p begun.tableau) : Presents p stage.progress.tableau ∧ stage.Settled := by
  cases h with
  | stopped hpivoting => exact ⟨hpivoting.presents hbegun, hpivoting.settled⟩
  | reached hpivoting => exact ⟨hpivoting.presents hbegun, hpivoting.settled⟩

end Optimality

/-! ## Both phases -/

/-- Whatever a run of a problem in standard form answers is true. -/
theorem PhasesRun.spec {p : Problem F} {s : Tableau F} {limit : Nat} {event : Event F}
    {stage : Stage F} (h : PhasesRun limit (.start s event) stage)
    (hinitial : Tableau.initial p.standardize 0 = .ok s) :
    Presents p.standardize stage.progress.tableau ∧ stage.Settled ∨
      (∃ count, stage.failure? = some (.iterationLimitExceeded count)) ∨
      stage.failure? = some .infeasible ∧ ∀ point, ¬p.standardize.IsFeasible point := by
  obtain ⟨htolerance, hisInitial⟩ := Tableau.isInitial_of_initial_eq hinitial
  have hbounds := Problem.bound_nonneg_of_mem_standardize (p := p)
  cases h with
  | direct hphase hoptimality =>
    exact .inl (hoptimality.spec (hisInitial.presents_of_optimality htolerance hbounds hphase))
  | stopped hphase hfeasibility =>
    have hbegun := InFirstPhase.ofIsInitial hisInitial htolerance hbounds hphase
    rcases hfeasibility.stopped_spec hbegun with ⟨count, rfl⟩ | ⟨rfl, hnone⟩
    · exact .inr (.inl ⟨count, rfl⟩)
    · exact .inr (.inr ⟨rfl, hnone⟩)
  | both hphase hfeasibility hleave hoptimality =>
    have hbegun := InFirstPhase.ofIsInitial hisInitial htolerance hbounds hphase
    obtain ⟨hend, hoptimal, hzero⟩ := hfeasibility.reached_spec hbegun
    obtain ⟨_, hreduction⟩ := hfeasibility.isReduction hisInitial.wellShaped hphase hleave
    exact .inl (hoptimality.spec (hend.presents_reduction hoptimal hzero hreduction))

/-! ## Answers -/

namespace Solver

variable {s s' : Solver F} {p : Problem F} {report : Report F}

/-- A reported solution is an optimum of the problem. -/
theorem isOptimum_of_optimize_eq {solution : Solution F} (htolerance : s.settings.tolerance = 0)
    (h : s.optimize p = .ok (report, s')) (hresult : report.result = .ok solution) :
    p.IsOptimum solution := by
  cases solving_of_optimize_eq h with
  | malformed m => cases hresult
  | failed _ _ => cases hresult
  | @solved initial solution q hinitial hrun hsolution =>
    obtain rfl := Except.ok.inj hresult
    rw [htolerance] at hinitial
    rcases hrun.spec hinitial with ⟨hpresents, hoptimal⟩ | ⟨_, hnone⟩ | ⟨hnone, _⟩
    · obtain rfl := Except.ok.inj (hsolution.symm.trans hpresents.solution_eq_ok)
      refine ⟨Problem.isFeasible_standardize.mp ?_, rfl, fun point hfeasible => ?_⟩
      · exact hpresents.isFeasible _ hpresents.region_basicValue
      · exact Goal.atLeastAsGood_iff.mpr
          (hpresents.loss_le hoptimal (Problem.isFeasible_standardize.mpr hfeasible))
    · cases hnone
    · cases hnone

/-- A problem with all relations, whose variables may be negative. -/
def mixedProblem : Problem ℚ where
  objective := ⟨[3, 2], 1⟩
  constraints := [⟨[1, 1], .atMost, 4⟩, ⟨[1, 0], .atLeast, 1⟩, ⟨[1, -1], .equal, -2⟩]
  goal := .maximize
  nonNegative := false

theorem answer?_mixedProblem :
    (create ⟨0, 10⟩ .steepest).answer? mixedProblem = some (.ok ⟨[1, 3], 10⟩) := by
  decide +kernel

theorem isOptimum_mixedProblem :
    (create ⟨0, 10⟩ .steepest).answer? mixedProblem = some (.ok ⟨[1, 3], 10⟩) ∧
      mixedProblem.IsOptimum ⟨[1, 3], 10⟩ := by
  obtain ⟨report, s', h, hresult⟩ := exists_of_answer?_eq_some answer?_mixedProblem
  exact ⟨answer?_mixedProblem, isOptimum_of_optimize_eq rfl h hresult⟩

/-- A problem that is reported infeasible has no feasible point. -/
theorem not_isFeasible_of_optimize_eq (htolerance : s.settings.tolerance = 0)
    (h : s.optimize p = .ok (report, s')) (hresult : report.result = .error .infeasible) :
    ¬∃ point, p.IsFeasible point := by
  cases solving_of_optimize_eq h with
  | malformed m => cases hresult
  | solved _ _ _ => cases hresult
  | failed hinitial hrun =>
    obtain rfl := Except.error.inj hresult
    rw [htolerance] at hinitial
    rcases hrun.spec hinitial with ⟨_, hsettled⟩ | ⟨_, hlimit⟩ | ⟨_, hnone⟩
    · exact hsettled.elim
    · cases hlimit
    · rintro ⟨point, hfeasible⟩
      exact hnone point (Problem.isFeasible_standardize.mpr hfeasible)

/-- A problem that asks two variables to be close together and far apart. -/
def contradictoryProblem : Problem ℚ where
  objective := ⟨[1, 0], 0⟩
  constraints := [⟨[1, -1], .atMost, 2⟩, ⟨[-1, 1], .equal, -3⟩]
  goal := .minimize
  nonNegative := false

theorem not_isFeasible_contradictoryProblem :
    (create ⟨0, 10⟩ .first).answer? contradictoryProblem = some (.error .infeasible) ∧
      ¬∃ point, contradictoryProblem.IsFeasible point := by
  have hanswer :
      (create ⟨0, 10⟩ .first).answer? contradictoryProblem = some (.error .infeasible) := by
    decide +kernel
  obtain ⟨report, s', h, hresult⟩ := exists_of_answer?_eq_some hanswer
  exact ⟨hanswer, not_isFeasible_of_optimize_eq rfl h hresult⟩

/-- A problem that is reported unbounded has feasible points that are better than
any bound. -/
theorem exists_better_of_optimize_eq (htolerance : s.settings.tolerance = 0)
    (h : s.optimize p = .ok (report, s')) (hresult : report.result = .error .unbounded) :
    ∀ bound, ∃ point, p.IsFeasible point ∧ p.goal.Better (p.objective.value point) bound := by
  intro bound
  cases solving_of_optimize_eq h with
  | malformed m => cases hresult
  | solved _ _ _ => cases hresult
  | failed hinitial hrun =>
    obtain rfl := Except.error.inj hresult
    rw [htolerance] at hinitial
    rcases hrun.spec hinitial with ⟨hpresents, hsettled⟩ | ⟨_, hlimit⟩ | ⟨hnone, _⟩
    · obtain ⟨j, hj, hunlimited⟩ := hsettled
      obtain ⟨point, hfeasible, hlt⟩ := hpresents.exists_loss_lt hj hunlimited (p.goal.loss bound)
      exact ⟨point, Problem.isFeasible_standardize.mp hfeasible, Goal.better_iff.mpr hlt⟩
    · cases hlimit
    · cases hnone

/-- A problem whose variables can fall together forever. -/
def endlessProblem : Problem ℚ where
  objective := ⟨[2, 1], 0⟩
  constraints := [⟨[1, -1], .equal, 1⟩, ⟨[1, 1], .atMost, 5⟩]
  goal := .minimize
  nonNegative := false

theorem exists_better_endlessProblem :
    (create ⟨0, 10⟩ .roundRobin).answer? endlessProblem = some (.error .unbounded) ∧
      ∀ bound, ∃ point, endlessProblem.IsFeasible point ∧
        endlessProblem.goal.Better (endlessProblem.objective.value point) bound := by
  have hanswer :
      (create ⟨0, 10⟩ .roundRobin).answer? endlessProblem = some (.error .unbounded) := by
    decide +kernel
  obtain ⟨report, s', h, hresult⟩ := exists_of_answer?_eq_some hanswer
  exact ⟨hanswer, exists_better_of_optimize_eq rfl h hresult⟩

end Solver

end PrimalSimplex
