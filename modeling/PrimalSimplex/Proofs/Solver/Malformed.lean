/-
  `Proofs.Solver.Malformed`: what is rejected, and with which reason.

  A solver reports the first defect of an input, or that the tableau of an input without
  defects overflows, and no run ends with such a report.  So what is reported and why can
  be read off the input, and a rejected input leaves nothing behind.

  Of the arithmetic no law is used but that signs decide nothing about what is finite.
-/
import PrimalSimplex.Proofs.Solver.Defects
import PrimalSimplex.Proofs.Solver.Outcome
import PrimalSimplex.Proofs.Tableau.Assembly

set_option autoImplicit false

namespace PrimalSimplex

variable {F : Type} [Scalar F]

/-! ## Reports -/

/-- A run does not end with a reason of this kind. -/
theorem PhasesRun.ne_malformedInput {limit : Nat} {p q : Progress F}
    {f : Failure (Malformation F)} (h : PhasesRun limit p ⟨some f, q⟩) (m : Malformation F) :
    f ≠ .malformedInput m := by
  rintro rfl
  -- The end of the second phase says so, and so does that of the first one.
  have hoptimality : ∀ {begun : Progress F},
      ¬OptimalityRun limit begun ⟨some (.malformedInput m), q⟩ := by
    intro begun hrun
    cases hrun with
    | stopped hpivoting => exact hpivoting.settled
  cases h with
  | direct _ hrun => exact hoptimality hrun
  | both _ _ _ hrun => exact hoptimality hrun
  | stopped _ hfeasibility =>
    cases hfeasibility with
    | stopped hpivoting => exact hpivoting.settled

namespace Problem

variable {p : Problem F} {settings : Settings F} {rule : EnteringRule}

/-- What is found first is reported, and nothing is solved. -/
theorem solve_of_head?_defects {m : Malformation F}
    (h : (p.defects settings.tolerance).head? = some m) :
    p.solve settings rule = .ok (.malformed m) := by
  obtain ⟨rest, hdefects⟩ := List.head?_eq_some_iff.mp h
  simp only [solve, hdefects]

/-- A tableau that is not finite is not solved either. -/
theorem solve_of_isFinite_eq_false (h : p.defects settings.tolerance = []) {t : Tableau F}
    (hinitial : Tableau.initial p.standardize settings.tolerance = .ok t)
    (hfinite : t.isFinite = false) :
    p.solve settings rule = .ok (.malformed .tableauNotFinite) := by
  simp [solve, h, hinitial, bind, Except.bind, pure, Except.pure, hfinite]

/-- All others are. -/
theorem result_ne_malformedInput {report : Report F} (hsolving : Solving p settings report)
    (h : p.defects settings.tolerance = []) {t : Tableau F}
    (hinitial : Tableau.initial p.standardize settings.tolerance = .ok t)
    (hfinite : t.isFinite = true) (m : Malformation F) :
    report.result ≠ .error (.malformedInput m) := by
  cases hsolving with
  | malformed n hreason =>
    rw [h] at hreason
    rcases hreason with hmem | ⟨u, hu, hnot⟩
    · cases hmem
    · obtain rfl := Except.ok.inj (hinitial.symm.trans hu)
      rw [hfinite] at hnot
      cases hnot
  | failed _ hrun =>
    intro hresult
    exact hrun.ne_malformedInput m (Except.error.inj hresult)
  | solved _ _ _ => nofun

/-- A problem is either rejected, with one reason, or solved, with none. -/
theorem solve_cases (hF : Scalar.IsSignBlind F) (p : Problem F) (settings : Settings F)
    (rule : EnteringRule) :
    (∃ m, p.solve settings rule = .ok (.malformed m) ∧
        ∀ n, p.Rejected settings.tolerance n ↔ m = n) ∨
      ∃ report, p.solve settings rule = .ok report ∧
        (∀ m, report.result ≠ .error (.malformedInput m)) ∧
        ∀ m, ¬p.Rejected settings.tolerance m := by
  simp only [rejected_iff hF, ← defects_eq_nil_iff_isSound hF]
  cases hdefects : p.defects settings.tolerance with
  | cons m rest =>
    have hhead : (p.defects settings.tolerance).head? = some m := by rw [hdefects, List.head?_cons]
    exact .inl ⟨m, solve_of_head?_defects hhead, fun n => by simp⟩
  | nil =>
    obtain ⟨t, ht⟩ := exists_initial_of_defects_eq_nil hdefects
    have hsound := ((defects_eq_nil_iff_isSound hF).mp hdefects).standardize hF
    have hoverflows :=
      (Tableau.isInitial_of_initial_eq ht).2.isFinite_eq_false_iff hF hsound
    cases hfinite : t.isFinite with
    | false =>
      refine .inl ⟨_, solve_of_isFinite_eq_false hdefects ht hfinite, fun n => ?_⟩
      simp [ht, hoverflows.mp hfinite]
    | true =>
      obtain ⟨report, hreport, hsolving⟩ := p.solve_spec settings rule
      refine .inr ⟨report, hreport, result_ne_malformedInput hsolving hdefects ht hfinite,
        fun m => ?_⟩
      have hnot : ¬t.Overflows := by simp [← hoverflows, hfinite]
      simp [ht, hnot]

end Problem

/-! ## The result -/

/-- A solver always answers.  It reports a malformed input exactly where the input is not
sound or the initial tableau overflows, with the first reason there is; nothing is counted,
noted or kept then but that there were no iterations.  The initial tableau of a sound input
has the numbers that are written when its matrix is filled, and none of them can overflow
but those of the auxiliary objective. -/
theorem malformed_optimize (hF : Scalar.IsSignBlind F) (s : Solver F) (p : Problem F) :
    ∃ report s', s.optimize p = .ok (report, s') ∧
      ((∃ m, report.result = .error (.malformedInput m)) ↔
        ¬p.IsSound s.settings.tolerance ∨
          ∃ t, Tableau.initial p.standardize s.settings.tolerance = .ok t ∧ t.Overflows) ∧
      (∀ m, report.result = .error (.malformedInput m) ↔ p.Rejected s.settings.tolerance m) ∧
      (∀ m, report.result = .error (.malformedInput m) →
        report.iterations = 0 ∧ report.journal = [] ∧ report.tableau? = none ∧
          s' = { s with iterations := 0 }) ∧
      (p.IsSound s.settings.tolerance →
        ∃ t, Tableau.initial p.standardize s.settings.tolerance = .ok t ∧
          p.standardize.assemble = .ok t.matrix ∧
          ∀ i j x, t.entry i j = .ok x →
            t.phase = .feasibility ∧ i = 0 ∨ Scalar.isFinite x = true) := by
  have hentries : p.IsSound s.settings.tolerance →
      ∃ t, Tableau.initial p.standardize s.settings.tolerance = .ok t ∧
        p.standardize.assemble = .ok t.matrix ∧
        ∀ i j x, t.entry i j = .ok x →
          t.phase = .feasibility ∧ i = 0 ∨ Scalar.isFinite x = true := by
    intro hsound
    obtain ⟨t, ht⟩ := Problem.exists_initial_of_defects_eq_nil
      ((Problem.defects_eq_nil_iff_isSound hF).mpr hsound)
    exact ⟨t, ht, Tableau.assemble_eq_of_initial_eq ht, fun i j x hentry =>
      (Tableau.isInitial_of_initial_eq ht).2.isFinite_entry hF (hsound.standardize hF) hentry⟩
  rw [← Problem.exists_rejected_iff hF]
  rcases p.solve_cases hF s.settings s.rule with
    ⟨m, hsolve, hreason⟩ | ⟨report, hsolve, hresult, hreason⟩
  · refine ⟨_, _, Fault.bind_eq_ok_iff.mpr ⟨_, hsolve, rfl⟩, ?_, fun n => ?_, fun n _ => ?_,
      hentries⟩
    · simp [hreason, Report.malformed]
    · simp [hreason, Report.malformed]
    · exact ⟨rfl, rfl, rfl, rfl⟩
  · refine ⟨_, _, Fault.bind_eq_ok_iff.mpr ⟨_, hsolve, rfl⟩, ?_, fun n => ?_, fun n hn => ?_,
      hentries⟩
    · simp [hreason, hresult]
    · simp [hreason, hresult]
    · exact absurd hn (hresult n)

/-! ## An arithmetic that overflows -/

/-- Integers, of which a result is kept only up to ten. -/
inductive Narrow where
  | finite (n : Int)
  | overflow
  deriving DecidableEq

namespace Narrow

/-- A result, unless it is too great. -/
def ofInt (n : Int) : Narrow := if n.natAbs ≤ 10 then .finite n else .overflow

/-- An operation, which overflows where an operand did. -/
def operate (f : Int → Int → Int) : Narrow → Narrow → Narrow
  | finite a, finite b => ofInt (f a b)
  | _, _ => overflow

/-- A comparison, which fails where an operand overflowed. -/
def compares (f : Int → Int → Bool) : Narrow → Narrow → Bool
  | finite a, finite b => f a b
  | _, _ => false

instance : Scalar Narrow where
  zero := .finite 0
  one := .finite 1
  neg
    | finite n => .finite (-n)
    | overflow => .overflow
  add := operate (· + ·)
  sub := operate (· - ·)
  mul := operate (· * ·)
  div := operate (· / ·)
  abs
    | finite n => .finite n.natAbs
    | overflow => .overflow
  isLt := compares fun a b => a < b
  isLe := compares fun a b => a ≤ b
  isEq := compares fun a b => a = b
  isFinite
    | finite _ => true
    | overflow => false

theorem neg_finite (n : Int) : -finite n = finite (-n) := rfl

theorem finite_add_finite (a b : Int) : finite a + finite b = ofInt (a + b) := rfl

theorem neg_ofInt (n : Int) : -ofInt n = ofInt (-n) := by
  unfold ofInt
  rw [Int.natAbs_neg]
  split
  · rfl
  · rfl

theorem neg_add_neg (a b : Narrow) : -a + -b = -(a + b) := by
  cases a with
  | overflow => rfl
  | finite a =>
    cases b with
    | overflow => rfl
    | finite b =>
      rw [neg_finite, neg_finite, finite_add_finite, finite_add_finite, neg_ofInt, ← Int.neg_add]

/-- The sum of the negated numbers is the negated sum. -/
theorem foldl_map_neg (l : List Narrow) (start : Narrow) :
    (l.map fun a => -a).foldl (· + ·) (-start) = -l.foldl (· + ·) start := by
  induction l generalizing start with
  | nil => rfl
  | cons a l ih => rw [List.map_cons, List.foldl_cons, List.foldl_cons, neg_add_neg, ih]

theorem isFinite_neg (a : Narrow) : Scalar.isFinite (-a) = Scalar.isFinite a := by
  cases a with
  | finite n => rfl
  | overflow => rfl

theorem isSignBlind : Scalar.IsSignBlind Narrow where
  zero := rfl
  one := rfl
  neg := isFinite_neg
  sum_neg l := by
    have hsum := foldl_map_neg l 0
    rw [show -(0 : Narrow) = 0 from rfl] at hsum
    rw [hsum, isFinite_neg]

end Narrow

/-- Two equations, whose coefficients are fine and have no sum. -/
def crowdedProblem : Problem Narrow where
  objective := ⟨[.finite 1], .finite 0⟩
  constraints := [⟨[.finite 8], .equal, .finite 1⟩, ⟨[.finite 8], .equal, .finite 1⟩]
  goal := .minimize
  nonNegative := true

/-- Where the rows of two constraints are added, the auxiliary objective overflows. -/
theorem malformed_optimize_crowdedProblem :
    Scalar.IsSignBlind Narrow ∧ ∃ report s',
      (Solver.create ⟨.finite 0, 5⟩ .steepest).optimize crowdedProblem = .ok (report, s') ∧
      crowdedProblem.Rejected (.finite 0) .tableauNotFinite ∧ report.journal = [] := by
  have hanswer : (Solver.create ⟨.finite 0, 5⟩ .steepest).answer? crowdedProblem =
      some (.error (.malformedInput .tableauNotFinite)) := by
    decide +kernel
  obtain ⟨report, s', hoptimize, -, hreason, hnothing, -⟩ :=
    malformed_optimize Narrow.isSignBlind (Solver.create ⟨.finite 0, 5⟩ .steepest) crowdedProblem
  have hresult := Solver.result_eq_of_answer?_eq hoptimize hanswer
  obtain ⟨-, hjournal, -⟩ := hnothing _ hresult
  exact ⟨Narrow.isSignBlind, report, s', hoptimize, (hreason _).mp hresult, hjournal⟩

end PrimalSimplex
