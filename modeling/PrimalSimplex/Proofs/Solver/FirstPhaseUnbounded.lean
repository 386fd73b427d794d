/-
  `Proofs.Solver.FirstPhaseUnbounded`: when a first phase is called unbounded.

  The artificial variables cannot fall below zero, so with exact comparisons some row
  limits every column that is profitable in the first phase.  With a tolerance this is
  not so: a cost is compared with it once, and the entries that the cost is the sum of
  are compared with it one by one.  If two of them or more exceed it only together, the
  run ends as unbounded, even where there is an optimum.  In no other case does it.
-/
import PrimalSimplex.Proofs.Solver.FirstPhase
import PrimalSimplex.Proofs.Tableau.AuxiliaryCost

set_option autoImplicit false

namespace PrimalSimplex

variable {F : Type} [Field F] [LinearOrder F] [IsStrictOrderedRing F]

namespace Tableau

variable {s t u : Tableau F}

/-- An exchange that the rules choose is a pivot on an entry above the tolerance. -/
theorem WellShaped.exchangesTo_of_leavingRow? (h : t.WellShaped) (htolerance : 0 ≤ t.tolerance)
    {column row : Nat} (hprofitable : t.IsProfitable column)
    (hrow : t.leavingRow? column = .ok (some row)) (hpivot : t.pivot row column = .ok u) :
    t.ExchangesTo u := by
  have hwidth := h.lt_width_of_mem hprofitable.1
  obtain ⟨hmem, hpositive⟩ := h.limits_of_leavingRow? hwidth hrow
  have hlt := (Scalar.isPositive_iff_lt htolerance).mp hpositive
  exact ⟨row, hmem, column, hprofitable.1, _, entry_eq_ok (mem_constraintRows.mp hmem).2 hwidth,
    (htolerance.trans_lt hlt).ne', hpivot⟩

/-- A tableau of a first phase that began with an initial one, whatever the tolerance. -/
structure FollowsInitial (s t : Tableau F) : Prop extends Canonical t where
  restates : s.Restates t
  phase_eq : t.phase = .feasibility

theorem FollowsInitial.exchange (h : s.FollowsInitial t) (htolerance : 0 ≤ s.tolerance)
    {column row : Nat} (hprofitable : t.IsProfitable column)
    (hrow : t.leavingRow? column = .ok (some row)) (hpivot : t.pivot row column = .ok u) :
    s.FollowsInitial u := by
  have hexchange := h.exchangesTo_of_leavingRow? (h.restates.tolerance_eq ▸ htolerance)
    hprofitable hrow hpivot
  obtain ⟨hcanonical, hrestates, _, _⟩ := h.toCanonical.exchangesTo hexchange
  exact ⟨hcanonical, h.restates.trans hrestates, hexchange.phase_eq.trans h.phase_eq⟩

end Tableau

open Tableau (FollowsInitial)

/-- Exchanges do not leave the first phase. -/
theorem Pivoting.followsInitial {s : Tableau F} {limit : Nat} {p : Progress F} {stage : Stage F}
    (h : Pivoting limit p stage) (htolerance : 0 ≤ s.tolerance)
    (hp : s.FollowsInitial p.tableau) : s.FollowsInitial stage.progress.tableau :=
  (h.invariant (fun _ _ _ _ ht hprofitable hrow hpivot =>
    ht.exchange htolerance hprofitable hrow hpivot) hp).1

variable {p : Problem F} {s : Tableau F}

/-- From any initial tableau that needs a first phase, with any rule and any limit, the
first phase has an answer; and the answer that it is unbounded is given only with a
positive tolerance, two artificial variables or more, and a profitable column whose
entries do not exceed the tolerance and, in the rows of artificial variables, do so
together. -/
theorem slips_of_runFeasibility {tolerance : F} (htolerance : 0 ≤ tolerance)
    (hinitial : Tableau.initial p tolerance = .ok s) (hphase : s.phase = .feasibility)
    (rule : EnteringRule) (limit : Nat) {q : Progress F} (hstart : q.tableau = s) :
    ∃ stage, runFeasibility rule limit q = .ok stage ∧
      (stage.failure? = some .unbounded →
        0 < tolerance ∧ 2 ≤ p.layout.artificials ∧ ∃ j, stage.progress.tableau.Slips j) := by
  obtain ⟨rfl, hisInitial⟩ := Tableau.isInitial_of_initial_eq hinitial
  have hshape : q.tableau.WellShaped := hstart ▸ hisInitial.wellShaped
  obtain ⟨stage, hstage, hrun⟩ := runFeasibility_spec rule limit hshape
  refine ⟨stage, hstage, fun hunbounded => ?_⟩
  cases hrun with
  | reached _ _ _ => cases hunbounded
  | missed _ _ _ => cases hunbounded
  | stopped hpivoting =>
    obtain rfl := Option.some.inj hunbounded
    have hbegin : s.FollowsInitial q.tableau := by
      rw [hstart]
      exact ⟨hisInitial.canonical, .refl s, hphase⟩
    have hend := hpivoting.followsInitial htolerance hbegin
    obtain ⟨j, hprofitable, hunlimited⟩ := hpivoting.settled
    obtain ⟨hpos, hslips⟩ := hisInitial.slips hend.toCanonical hend.restates hend.phase_eq
      (hend.restates.tolerance_eq.symm ▸ htolerance) hprofitable hunlimited
    obtain ⟨row, hrow, other, hother, hne, -⟩ := hslips.two_pos
    exact ⟨hend.restates.tolerance_eq ▸ hpos,
      hend.toCanonical.two_le_of_mem_aidedRows (fun i => hisInitial.artificial_lt hend.restates)
        hrow hother hne,
      j, hslips⟩

/-- One equation, stated twice, with a coefficient below the tolerance.  It has a
solution, which is feasible and the optimum. -/
def faintProblem : Problem ℚ where
  objective := ⟨[1], 0⟩
  constraints := [⟨[1 / 1250000], .equal, 1⟩, ⟨[1 / 1250000], .equal, 1⟩]
  goal := .minimize
  nonNegative := true

theorem exists_runFeasibility_faintProblem :
    ∃ s stage, Tableau.initial faintProblem.standardize (1 / 1000000) = .ok s ∧
      s.phase = .feasibility ∧
      runFeasibility .steepest 1000 (faintProblem.startFrom s) = .ok stage ∧
      stage.failure? = some .unbounded := by
  have hruns : ((Tableau.initial faintProblem.standardize (1 / 1000000)).toOption.bind fun s =>
      (runFeasibility .steepest 1000 (faintProblem.startFrom s)).toOption.map fun stage =>
        (s.phase, stage.failure?)) = some (.feasibility, some .unbounded) := by
    decide +kernel
  obtain ⟨s, hinitial, hruns⟩ := Option.bind_eq_some_iff.mp hruns
  obtain ⟨stage, hstage, hends⟩ := Option.map_eq_some_iff.mp hruns
  obtain ⟨hphase, hfailure⟩ := Prod.mk.inj hends
  exact ⟨s, stage, Fault.eq_ok_of_toOption_eq_some hinitial, hphase,
    Fault.eq_ok_of_toOption_eq_some hstage, hfailure⟩

/-- With the standard settings the first phase is called unbounded, where there is one
feasible point. -/
theorem unbounded_faintProblem :
    (∃ s stage, Tableau.initial faintProblem.standardize (1 / 1000000) = .ok s ∧
      s.phase = .feasibility ∧
      runFeasibility .steepest 1000 (faintProblem.startFrom s) = .ok stage ∧
      stage.failure? = some .unbounded) ∧
    (Solver.create .standard Solver.standardRule).answer? faintProblem =
      some (.error .unbounded) ∧
    faintProblem.IsFeasible [1250000] := by
  refine ⟨exists_runFeasibility_faintProblem, by decide +kernel, rfl, fun c hc => ?_,
    fun _ a ha => ?_⟩
  · have hequation : LinearForm.dot [(1 : ℚ) / 1250000] [1250000] = 1 := by decide +kernel
    rcases List.mem_pair.mp hc with rfl | rfl
    · exact hequation
    · exact hequation
  · rw [List.mem_singleton.mp ha]
    decide +kernel

theorem slips_faintProblem :
    ∃ s stage, Tableau.initial faintProblem.standardize (1 / 1000000) = .ok s ∧
      runFeasibility .steepest 1000 (faintProblem.startFrom s) = .ok stage ∧
      stage.failure? = some .unbounded ∧ ∃ j, stage.progress.tableau.Slips j := by
  obtain ⟨s, stage, hinitial, hphase, hstage, hunbounded⟩ := exists_runFeasibility_faintProblem
  obtain ⟨ended, hended, hslips⟩ := slips_of_runFeasibility (by decide +kernel) hinitial hphase
    .steepest 1000 (q := faintProblem.startFrom s) rfl
  obtain rfl := Except.ok.inj (hstage.symm.trans hended)
  exact ⟨s, stage, hinitial, hstage, hunbounded, (hslips hunbounded).2.2⟩

end PrimalSimplex
