/-
  `Proofs.Solver.Tolerance`: solutions that are found with a tolerance.

  A tolerance is absolute, and a step may be long.  So a solution can miss a
  constraint by far more than the tolerance: the ratio test overlooks a row with a
  small entry, or a variable that should have stayed zero is kept for its small
  cost.  These are the only two ways.  A run in which the row that leaves always
  has the least ratio of all, and in which no variable with a cost is kept, finds
  a point that meets every constraint up to the tolerance.
-/
import PrimalSimplex.Proofs.Solver.Outcome
import PrimalSimplex.Proofs.Solver.Visited
import PrimalSimplex.Proofs.Tableau.NearlyFeasible

set_option autoImplicit false

namespace PrimalSimplex

variable {F : Type} [Field F] [LinearOrder F]

/-! ## Exact steps -/

namespace Tableau

/-- The tolerance makes no difference to the step from one tableau to the next: the
row that leaves has the least ratio of all rows with a positive entry, and no column
with a positive cost stays. -/
structure StepsExactly (t u : Tableau F) : Prop where
  leaving : ∀ row column, t.IsProfitable column → t.leavingRow? column = .ok (some row) →
    t.pivot row column = .ok u → t.IsLeaving column row
  staying : t.phase = .feasibility → ∀ removed, t.reduce = .ok ⟨u, removed⟩ →
    ∀ j ∈ t.staying, t.coeff 0 j ≤ 0

instance (t : Tableau F) (j row : Nat) : Decidable (t.IsLeaving j row) :=
  decidable_of_iff (row ∈ t.constraintRows ∧ 0 < t.coeff row j ∧
      ∀ i ∈ t.constraintRows, 0 < t.coeff i j →
        t.coeff row t.boundColumn / t.coeff row j ≤ t.coeff i t.boundColumn / t.coeff i j)
    ⟨fun h => ⟨h.1, h.2.1, h.2.2⟩, fun h => ⟨h.mem, h.pos, h.least⟩⟩

/-- Whether all steps from a tableau are exact, whichever column enters. -/
def isExact (t : Tableau F) : Bool :=
  (t.variableColumns.all fun column =>
    match t.leavingRow? column with
    | .ok (some row) => decide (t.IsLeaving column row)
    | _ => true) &&
  (t.phase == .optimality || t.staying.all fun j => decide (t.coeff 0 j ≤ 0))

theorem stepsExactly_of_isExact {t u : Tableau F} (h : t.isExact = true) : t.StepsExactly u := by
  obtain ⟨hcolumns, hstaying⟩ := Bool.and_eq_true_iff.mp h
  refine ⟨fun row column hcolumn hrow _ => ?_, fun hphase _ _ j hj => ?_⟩
  · have hexact := List.all_eq_true.mp hcolumns column hcolumn.1
    rw [hrow] at hexact
    exact of_decide_eq_true hexact
  · rw [hphase] at hstaying
    exact of_decide_eq_true (List.all_eq_true.mp hstaying j hj)

variable [IsStrictOrderedRing F] {p : Problem F} {s t u : Tableau F}

/-- Without a tolerance every step is exact. -/
theorem WellShaped.stepsExactly (h : t.WellShaped) (htolerance : t.tolerance = 0) :
    t.StepsExactly u where
  leaving _ _ hcolumn hrow _ :=
    h.isLeaving_of_leavingRow? htolerance (h.lt_width_of_mem hcolumn.1) hrow
  staying _ _ _ j hj := by
    have hcost : Scalar.isPositive (t.coeff 0 j) t.tolerance = false :=
      (Bool.or_eq_false_iff.mp (mem_staying.mp hj).2).1
    rw [← Bool.not_eq_true, Scalar.isPositive_iff_lt htolerance.ge, htolerance] at hcost
    exact not_lt.mp hcost

/-- So it is enough to know that steps are exact where the tolerance is positive. -/
theorem NearlyFeasible.stepsExactly (h : NearlyFeasible p s t) (htolerance : 0 ≤ s.tolerance)
    (hexact : 0 < s.tolerance → t.StepsExactly u) : t.StepsExactly u := by
  obtain hzero | hpos := htolerance.eq_or_lt
  · exact h.toWellShaped.stepsExactly (h.restates.tolerance_eq.trans hzero.symm)
  · exact hexact hpos

theorem NearlyFeasible.advances (h : NearlyFeasible p s t) (htolerance : 0 ≤ s.tolerance)
    (hstep : t.Advances u) (hexact : t.StepsExactly u) : NearlyFeasible p s u := by
  cases hstep with
  | exchange hcolumn hrow hpivot =>
    exact h.exchange hcolumn.1 (hexact.leaving _ _ hcolumn hrow hpivot) hpivot
  | leave hphase _ hvalue hnear hreduce =>
    obtain rfl := Except.ok.inj ((h.bound_eq_ok h.height_pos).symm.trans hvalue)
    have hzero : |t.coeff 0 t.boundColumn - 0| ≤ t.tolerance := Scalar.near_iff.mp hnear
    rw [sub_zero] at hzero
    exact h.reduction (h.restates.tolerance_eq ▸ htolerance)
      (h.isReduction_of_reduce_eq hphase hreduce) hzero (hexact.staying hphase _ hreduce)
  | begin _ => exact h

end Tableau

/-! ## Solutions -/

namespace Solver

/-- A problem with a row that is overlooked by the ratio test. -/
def steepProblem : Problem ℚ where
  objective := ⟨[1], 0⟩
  constraints := [⟨[1 / 2000000], .atMost, 1⟩, ⟨[1], .atMost, 10000000⟩]
  goal := .maximize
  nonNegative := true

/-- A problem with a variable that is kept though it has to be zero. -/
def shallowProblem : Problem ℚ where
  objective := ⟨[1], 0⟩
  constraints := [⟨[-1 / 2500000], .equal, 0⟩, ⟨[1], .atMost, 10000000⟩]
  goal := .maximize
  nonNegative := true

/-- With the standard settings, both are answered with a point that misses the first
constraint by more than a million times the tolerance. -/
theorem not_isSatisfiedBy_steepProblem :
    ((create .standard standardRule).answer? steepProblem =
        some (.ok ⟨[10000000], 10000000⟩) ∧
      ∃ c ∈ steepProblem.constraints,
        c.isSatisfiedBy [10000000] (Settings.standard : Settings ℚ).tolerance = false) ∧
    (create .standard standardRule).answer? shallowProblem =
        some (.ok ⟨[10000000], 10000000⟩) ∧
      ∃ c ∈ shallowProblem.constraints,
        c.isSatisfiedBy [10000000] (Settings.standard : Settings ℚ).tolerance = false := by
  decide +kernel

variable [IsStrictOrderedRing F] {s s' : Solver F} {p : Problem F} {report : Report F}

/-- In a run of exact steps, as any run without a tolerance is, a solution that is found
misses no constraint by more than the tolerance, and has no negative entry where there
must be none. -/
theorem isSatisfiedBy_of_optimize_eq {solution : Solution F}
    (htolerance : 0 ≤ s.settings.tolerance) (h : s.optimize p = .ok (report, s'))
    (hresult : report.result = .ok solution)
    (hexact : 0 < s.settings.tolerance →
      (visited report.journal).IsChain Tableau.StepsExactly) :
    (∀ c ∈ p.constraints, c.isSatisfiedBy solution.point s.settings.tolerance = true) ∧
      (p.nonNegative = true → ∀ a ∈ solution.point, 0 ≤ a) := by
  have hknown : (visited report.journal).IsChain fun t u =>
      0 < s.settings.tolerance → t.StepsExactly u :=
    List.isChain_iff_getElem.mpr fun k hk hpos =>
      List.isChain_iff_getElem.mp (hexact hpos) k hk
  cases solving_of_optimize_eq h with
  | malformed m _ => cases hresult
  | failed _ _ => cases hresult
  | @solved initial solution q hinitial hrun hsolution =>
    obtain rfl := Except.ok.inj hresult
    obtain ⟨hequal, hisInitial⟩ := Tableau.isInitial_of_initial_eq hinitial
    have hphase := hrun.phase_eq hisInitial.wellShaped
    have hnonneg : 0 ≤ initial.tolerance := hequal ▸ htolerance
    obtain ⟨start, hstart, hleads⟩ := (Solving.solved hinitial hrun hsolution).leads rfl
    obtain rfl := Except.ok.inj (hinitial.symm.trans hstart)
    have hbegins := Tableau.NearlyFeasible.ofIsInitial hisInitial hnonneg
      Problem.bound_nonneg_of_mem_standardize
    -- The induction is over the tableaus of the journal; each of its steps is exact.
    have hall := hleads.forall_visited_of_isChain hknown hbegins fun _ _ hstep hexact ht =>
      ht.advances hnonneg hstep (ht.stepsExactly hnonneg fun hpos => hexact (hequal ▸ hpos))
    have hend := hall q.tableau hleads.mem_last
    have htoleranceEnd : q.tableau.tolerance = s.settings.tolerance :=
      hend.restates.tolerance_eq.trans hequal
    have hdecode := hend.solution_eq_decode (p := p.standardize)
      (hend.restates.nonNegative_eq.trans hisInitial.nonNegative_eq)
    obtain rfl := Except.ok.inj (hsolution.symm.trans hdecode)
    refine ⟨fun c hc => ?_, fun hsign => hend.nonneg_decode hsign⟩
    have hstandard := hend.isSatisfiedBy_decode hphase (htoleranceEnd ▸ htolerance)
      (List.mem_map_of_mem hc)
    rw [htoleranceEnd] at hstandard
    exact Constraint.isSatisfiedBy_standardize.mp hstandard

/-- A problem of two equations that contradict each other by as much as the tolerance
allows. -/
def strainedProblem : Problem ℚ where
  objective := ⟨[1, 1], 0⟩
  constraints := [⟨[1, 1], .equal, 2⟩, ⟨[1, 1], .equal, 21 / 10⟩, ⟨[1, 0], .atMost, 1⟩]
  goal := .maximize
  nonNegative := true

theorem isSatisfiedBy_strainedProblem :
    (create ⟨1 / 10, 10⟩ .steepest).answer? strainedProblem = some (.ok ⟨[1, 1], 2⟩) ∧
      ∀ c ∈ strainedProblem.constraints, c.isSatisfiedBy [1, 1] (1 / 10) = true := by
  have hruns : ((create ⟨1 / 10, 10⟩ .steepest).optimize strainedProblem).toOption.map
      (fun answer => (answer.1.result, (visited answer.1.journal).all Tableau.isExact)) =
      some (.ok ⟨[1, 1], 2⟩, true) := by
    decide +kernel
  obtain ⟨⟨report, s'⟩, hanswer, hrun⟩ := Option.map_eq_some_iff.mp hruns
  obtain ⟨hresult, hall⟩ := Prod.mk.inj hrun
  have hexact : (visited report.journal).IsChain Tableau.StepsExactly :=
    List.isChain_iff_getElem.mpr fun k hk =>
      Tableau.stepsExactly_of_isExact (List.all_eq_true.mp hall _ (List.getElem_mem _))
  have hmeets := isSatisfiedBy_of_optimize_eq (by decide +kernel)
    (Fault.eq_ok_of_toOption_eq_some hanswer) hresult fun _ => hexact
  refine ⟨?_, hmeets.1⟩
  rw [answer?, hanswer, Option.map_some, hresult]

end Solver

end PrimalSimplex
