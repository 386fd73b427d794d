/-
  `Proofs.Solver.Session`: a solver at any time of its use.

  A solver brings nothing from one problem to the next but its settings, and of these
  only the limit can be changed.  So whatever it was asked before, and whatever came
  of it, it answers as a new solver with the limit of the day would.  That limit is
  kept, the number of iterations is as the answer says, and a higher limit makes a
  difference only where this one was exceeded.
-/
import PrimalSimplex.Proofs.Solver.Iterations
import PrimalSimplex.Proofs.Solver.Limit
import PrimalSimplex.Proofs.Solver.Outcome

set_option autoImplicit false

namespace PrimalSimplex

variable {F : Type}

/-! ## Sessions -/

/-- What a solver is asked to do. -/
inductive Solver.Call (F : Type) where
  | optimize (problem : Problem F)
  | setMaxIterations (limit : Nat)

/-- The limit after a call. -/
def Solver.Call.limit (current : Nat) : Call F → Nat
  | optimize _ => current
  | setMaxIterations limit => limit

/-- The settings after a session. -/
def Settings.after (settings : Settings F) (calls : List (Solver.Call F)) : Settings F :=
  { settings with maxIterations := calls.foldl Solver.Call.limit settings.maxIterations }

variable [Scalar F]

namespace Solver

/-- The solver after a call. -/
def perform (s : Solver F) : Call F → Except Fault (Solver F)
  | .optimize problem => do return (← s.optimize problem).2
  | .setMaxIterations limit => return s.setMaxIterations limit

/-- The solver after a session. -/
def performAll (s : Solver F) (calls : List (Call F)) : Except Fault (Solver F) :=
  calls.foldlM perform s

/-- A session never fails, and apart from the iterations of the last problem only the
limit has changed. -/
theorem performAll_spec (s : Solver F) (calls : List (Call F)) :
    ∃ s', s.performAll calls = .ok s' ∧ s'.rule = s.rule ∧
      s'.settings = s.settings.after calls := by
  induction calls generalizing s with
  | nil => exact ⟨s, rfl, rfl, rfl⟩
  | cons call calls ih =>
    cases call with
    | optimize problem =>
      obtain ⟨report, hanswer, _⟩ := s.optimize_spec problem
      obtain ⟨s', hrest, hrule, hsettings⟩ := ih { s with iterations := report.iterations }
      refine ⟨s', ?_, hrule, hsettings⟩
      rw [performAll, List.foldlM_cons, perform, hanswer]
      exact hrest
    | setMaxIterations limit =>
      obtain ⟨s', hrest, hrule, hsettings⟩ := ih (s.setMaxIterations limit)
      exact ⟨s', hrest, hrule, hsettings⟩

/-! ## The result -/

/-- At any time of a session a problem is answered as by a new solver with the same
settings.  The number of iterations is as the answer says, at most one above the
limit.  With a higher limit the answer is the same, unless the limit was exceeded;
then there are more iterations than it allows. -/
theorem optimize_of_performAll (settings : Settings F) (rule : EnteringRule)
    (calls : List (Call F)) (problem : Problem F) :
    ∃ s report, (create settings rule).performAll calls = .ok s ∧
      s.optimize problem = .ok (report, { s with iterations := report.iterations }) ∧
      (create (settings.after calls) rule).optimize problem =
        .ok (report, ⟨settings.after calls, rule, report.iterations⟩) ∧
      report.Tallied (settings.after calls).maxIterations ∧
      report.iterations ≤ (settings.after calls).maxIterations + 1 ∧
      ∀ larger, (settings.after calls).maxIterations ≤ larger → ∃ full,
        (create { settings with maxIterations := larger } rule).optimize problem =
          .ok (full, ⟨{ settings with maxIterations := larger }, rule, full.iterations⟩) ∧
        ((∀ count, report.result ≠ .error (.iterationLimitExceeded count)) → full = report) ∧
        (∀ count, report.result = .error (.iterationLimitExceeded count) →
          (settings.after calls).maxIterations + 1 ≤ full.iterations) := by
  obtain ⟨s, hsession, hrule, hsettings⟩ := (create settings rule).performAll_spec calls
  obtain ⟨report, hreport, hsolving⟩ := problem.solve_spec (settings.after calls) rule
  have htallied := hsolving.tallied
  refine ⟨s, report, hsession, ?_, ?_, htallied, htallied.iterations_le, fun larger hlarger => ?_⟩
  · rw [optimize, hsettings, hrule]
    exact Fault.bind_eq_ok_iff.mpr ⟨report, hreport, rfl⟩
  · exact Fault.bind_eq_ok_iff.mpr ⟨report, hreport, rfl⟩
  · obtain ⟨full, hfull, _⟩ := problem.solve_spec { settings with maxIterations := larger } rule
    have htruncates := Problem.truncates_of_solve_eq hlarger hreport hfull
    refine ⟨full, Fault.bind_eq_ok_iff.mpr ⟨full, hfull, rfl⟩, htruncates.eq_of_ne,
      fun count hcount => ?_⟩
    rw [Report.Tallied, hcount] at htallied
    exact htallied.2.1 ▸ htruncates.iterations_le

/-- A problem that takes three iterations, after another problem and a change of the
limit: with a limit of two it fails, with one of three it is solved. -/
theorem optimize_of_performAll_mixedProblem :
    (∃ s report full s',
      (create ⟨0, 10⟩ .steepest).performAll [.optimize contradictoryProblem, .setMaxIterations 2] =
        .ok s ∧
      s.optimize mixedProblem = .ok (report, { s with iterations := report.iterations }) ∧
      report.iterations = 3 ∧ exchanges report.journal = 2 ∧
      (create ⟨0, 10⟩ .steepest).optimize mixedProblem = .ok (full, s') ∧ 3 ≤ full.iterations) ∧
    ∃ s report s',
      (create ⟨0, 10⟩ .steepest).performAll [.setMaxIterations 3, .optimize contradictoryProblem] =
        .ok s ∧
      s.optimize mixedProblem = .ok (report, { s with iterations := report.iterations }) ∧
      report.iterations = exchanges report.journal ∧
      (create ⟨0, 10⟩ .steepest).optimize mixedProblem = .ok (report, s') := by
  constructor
  · have hanswer : (create ⟨0, 2⟩ .steepest).answer? mixedProblem =
        some (.error (.iterationLimitExceeded 3)) := by
      decide +kernel
    obtain ⟨s, report, hsession, hreport, hfresh, htallied, _, hlarger⟩ :=
      optimize_of_performAll ⟨0, 10⟩ .steepest
        [.optimize contradictoryProblem, .setMaxIterations 2] mixedProblem
    have hresult := result_eq_of_answer?_eq hfresh hanswer
    obtain ⟨full, hfull, _, hmore⟩ := hlarger 10 (by decide)
    rw [Report.Tallied, hresult] at htallied
    obtain ⟨hcount, _, hexchanges⟩ := htallied
    exact ⟨s, report, full, _, hsession, hreport, hcount.symm, hexchanges, hfull, hmore 3 hresult⟩
  · have hanswer : (create ⟨0, 3⟩ .steepest).answer? mixedProblem = some (.ok ⟨[1, 3], 10⟩) := by
      decide +kernel
    obtain ⟨s, report, hsession, hreport, hfresh, htallied, _, hlarger⟩ :=
      optimize_of_performAll ⟨0, 10⟩ .steepest
        [.setMaxIterations 3, .optimize contradictoryProblem] mixedProblem
    have hresult := result_eq_of_answer?_eq hfresh hanswer
    obtain ⟨full, hfull, hsame, _⟩ := hlarger 10 (by decide)
    obtain rfl := hsame fun count hcount => by rw [hresult] at hcount; cases hcount
    rw [Report.Tallied, hresult] at htallied
    exact ⟨s, full, _, hsession, hreport, htallied.1, hfull⟩

end Solver

end PrimalSimplex
