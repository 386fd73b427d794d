/-
  `Proofs.Solver.Limit`: a limit cuts a run short and changes nothing else.

  Two runs of the same problem with different limits choose the same columns and
  rows, step for step, until the lower limit is reached.  So the run with the lower
  limit is either the other one, or it stops where the other one goes on and counts
  at least as far.  This carries over from the exchanges of one phase to everything
  that is done with their result, as long as that never counts backwards.
-/
import PrimalSimplex.Proofs.Solver.Run

set_option autoImplicit false

namespace PrimalSimplex

variable {F : Type}

/-! ## Truncation -/

namespace Stage

/-- The first stage is the second one, cut short by a lower limit if at all. -/
structure Truncates (stage full : Stage F) : Prop where
  eq_of_ne : (∀ count, stage.failure? ≠ some (.iterationLimitExceeded count)) → full = stage
  iterations_le : stage.progress.iterations ≤ full.progress.iterations

/-- Nothing is cut short where two runs are the same. -/
theorem Truncates.of_eq {run : Except Fault (Stage F)} {stage full : Stage F}
    (h : run = .ok stage) (hfull : run = .ok full) : stage.Truncates full := by
  obtain rfl := Except.ok.inj (h.symm.trans hfull)
  exact ⟨fun _ => rfl, Nat.le_refl _⟩

/-- A stage that reached its goal was not cut short. -/
theorem Truncates.eq_of_none {p : Progress F} {full : Stage F}
    (h : Truncates ⟨none, p⟩ full) : full = ⟨none, p⟩ :=
  h.eq_of_ne nofun

/-- What is done after a part of a run that reached its goal. -/
def andThen (next : Progress F → Except Fault (Stage F)) (stage : Stage F) :
    Except Fault (Stage F) :=
  match stage.failure? with
  | some _ => return stage
  | none => next stage.progress

end Stage

/-- The first report is the second one, cut short by a lower limit if at all. -/
structure Report.Truncates (r full : Report F) : Prop where
  eq_of_ne : (∀ count, r.result ≠ .error (.iterationLimitExceeded count)) → full = r
  iterations_le : r.iterations ≤ full.iterations

theorem Report.Truncates.of_eq {run : Except Fault (Report F)} {r full : Report F}
    (h : run = .ok r) (hfull : run = .ok full) : r.Truncates full := by
  obtain rfl := Except.ok.inj (h.symm.trans hfull)
  exact ⟨fun _ => rfl, Nat.le_refl _⟩

/-- A part of a run that begins with a number of iterations ends with no fewer. -/
def CountsFrom (start : Nat) (run : Except Fault (Stage F)) : Prop :=
  ∀ stage, run = .ok stage → start ≤ stage.progress.iterations

/-- The end of one part of a run is that of another one, cut short if at all. -/
def CutsShort (run full : Except Fault (Stage F)) : Prop :=
  ∀ stage stage', run = .ok stage → full = .ok stage' → stage.Truncates stage'

theorem CutsShort.refl (run : Except Fault (Stage F)) : CutsShort run run :=
  fun _ _ => .of_eq

section Sequence

variable {first first' : Except Fault (Stage F)} {next next' : Progress F → Except Fault (Stage F)}

/-- What follows a part of a run continues its count. -/
theorem countsFrom_andThen (hnext : ∀ p, CountsFrom p.iterations (next p)) (stage : Stage F) :
    CountsFrom stage.progress.iterations (stage.andThen next) := by
  intro out hout
  obtain ⟨failure?, p⟩ := stage
  cases failure? with
  | none => exact hnext p out hout
  | some f =>
    obtain rfl := Except.ok.inj hout
    exact Nat.le_refl _

theorem CountsFrom.andThen {start : Nat} (hfirst : CountsFrom start first)
    (hnext : ∀ p, CountsFrom p.iterations (next p)) :
    CountsFrom start (first >>= Stage.andThen next) := by
  intro out hout
  obtain ⟨stage, hstage, hout⟩ := Fault.bind_eq_ok_iff.mp hout
  exact (hfirst stage hstage).trans (countsFrom_andThen hnext stage out hout)

/-- What is cut short stays so, whatever follows. -/
theorem CutsShort.andThen (hfirst : CutsShort first first')
    (hnext : ∀ p, CutsShort (next p) (next' p))
    (hcounts : ∀ p, CountsFrom p.iterations (next' p)) :
    CutsShort (first >>= Stage.andThen next) (first' >>= Stage.andThen next') := by
  intro out out' hout hout'
  obtain ⟨⟨failure?, p⟩, hstage, hout⟩ := Fault.bind_eq_ok_iff.mp hout
  obtain ⟨full, hfull, hout'⟩ := Fault.bind_eq_ok_iff.mp hout'
  have htruncates := hfirst _ full hstage hfull
  cases failure? with
  | none =>
    obtain rfl := htruncates.eq_of_none
    exact hnext p out out' hout hout'
  | some f =>
    obtain rfl := Except.ok.inj hout
    have hcounted := countsFrom_andThen hcounts full out' hout'
    refine ⟨fun hne => ?_, htruncates.iterations_le.trans hcounted⟩
    obtain rfl := htruncates.eq_of_ne hne
    exact (Except.ok.inj hout').symm

end Sequence

variable [Scalar F]

/-! ## Exchanges -/

theorem Progress.iterations_of_exchange_eq {p q : Progress F} {row column : Nat}
    (h : p.exchange row column = .ok q) : q.iterations = p.iterations + 1 := by
  obtain ⟨entering, _, h⟩ := Fault.bind_eq_ok_iff.mp h
  obtain ⟨leaving, _, h⟩ := Fault.bind_eq_ok_iff.mp h
  obtain ⟨next, _, h⟩ := Fault.bind_eq_ok_iff.mp h
  obtain rfl := Except.ok.inj h
  rfl

section Rounds

variable {allowed : Nat} {selector selector' : Selector} {p : Progress F} {stage : Stage F}

theorem exists_select_of_pivotUntilOptimal_eq
    (h : pivotUntilOptimal allowed selector p = .ok stage) :
    ∃ chosen selector', selector.select p.tableau = .ok (chosen, selector') := by
  unfold pivotUntilOptimal at h
  obtain ⟨⟨chosen, selector'⟩, hselect, _⟩ := Fault.bind_eq_ok_iff.mp h
  exact ⟨chosen, selector', hselect⟩

theorem pivotUntilOptimal_of_select_eq_none
    (hselect : selector.select p.tableau = .ok (none, selector')) :
    pivotUntilOptimal allowed selector p = .ok ⟨none, p⟩ := by
  unfold pivotUntilOptimal
  rw [hselect]
  rfl

variable {column : Nat}

theorem pivotUntilOptimal_zero
    (hselect : selector.select p.tableau = .ok (some column, selector')) :
    pivotUntilOptimal 0 selector p =
      .ok ⟨some (.iterationLimitExceeded p.count.iterations), p.count⟩ := by
  unfold pivotUntilOptimal
  rw [hselect]
  rfl

/-- With a column and an iteration left, the exchange is made if there is a row. -/
theorem pivotUntilOptimal_succ
    (hselect : selector.select p.tableau = .ok (some column, selector')) :
    pivotUntilOptimal (allowed + 1) selector p =
      p.tableau.leavingRow? column >>= fun leaving =>
        match leaving with
        | none => .ok ⟨some .unbounded, p.count⟩
        | some row => p.exchange row column >>= pivotUntilOptimal allowed selector' := by
  rw [pivotUntilOptimal, hselect]
  rfl

/-- Exchanging never counts backwards, and it counts once a column is chosen. -/
theorem iterations_le_of_pivotUntilOptimal_eq {chosen : Option Nat}
    (hselect : selector.select p.tableau = .ok (chosen, selector'))
    (h : pivotUntilOptimal allowed selector p = .ok stage) :
    p.iterations + (if chosen.isSome then 1 else 0) ≤ stage.progress.iterations := by
  induction allowed generalizing selector selector' p chosen with
  | zero =>
    cases chosen with
    | none =>
      rw [pivotUntilOptimal_of_select_eq_none hselect] at h
      obtain rfl := Except.ok.inj h
      exact Nat.le_refl _
    | some column =>
      rw [pivotUntilOptimal_zero hselect] at h
      obtain rfl := Except.ok.inj h
      exact Nat.le_refl _
  | succ allowed ih =>
    cases chosen with
    | none =>
      rw [pivotUntilOptimal_of_select_eq_none hselect] at h
      obtain rfl := Except.ok.inj h
      exact Nat.le_refl _
    | some column =>
      rw [pivotUntilOptimal_succ hselect] at h
      obtain ⟨leaving, _, h⟩ := Fault.bind_eq_ok_iff.mp h
      cases leaving with
      | none =>
        obtain rfl := Except.ok.inj h
        exact Nat.le_refl _
      | some row =>
        obtain ⟨q, hexchange, h⟩ := Fault.bind_eq_ok_iff.mp h
        obtain ⟨_, _, hnext⟩ := exists_select_of_pivotUntilOptimal_eq h
        have hmore := ih hnext h
        rw [Progress.iterations_of_exchange_eq hexchange] at hmore
        exact (Nat.le_add_right _ _).trans hmore

/-- Two runs that choose alike differ at most where one of them may not go on. -/
theorem truncates_of_pivotUntilOptimal_eq {more : Nat} (hmore : allowed ≤ more) {full : Stage F}
    (h : pivotUntilOptimal allowed selector p = .ok stage)
    (hfull : pivotUntilOptimal more selector p = .ok full) : stage.Truncates full := by
  -- As long as both may go on, they are at the same progress with the same selector.
  induction allowed generalizing more selector p with
  | zero =>
    obtain ⟨chosen, selector', hselect⟩ := exists_select_of_pivotUntilOptimal_eq h
    have hcounts := iterations_le_of_pivotUntilOptimal_eq hselect hfull
    cases chosen with
    | none =>
      rw [pivotUntilOptimal_of_select_eq_none hselect] at h hfull
      exact .of_eq h hfull
    | some column =>
      -- Only the first run is stopped, but the other one counts this iteration too.
      rw [pivotUntilOptimal_zero hselect] at h
      obtain rfl := Except.ok.inj h
      exact ⟨fun hne => absurd rfl (hne _), hcounts⟩
  | succ allowed ih =>
    obtain ⟨more, rfl⟩ : ∃ rest, more = rest + 1 := ⟨more - 1, by omega⟩
    obtain ⟨chosen, selector', hselect⟩ := exists_select_of_pivotUntilOptimal_eq h
    cases chosen with
    | none =>
      rw [pivotUntilOptimal_of_select_eq_none hselect] at h hfull
      exact .of_eq h hfull
    | some column =>
      rw [pivotUntilOptimal_succ hselect] at h hfull
      obtain ⟨leaving, hleaving, h⟩ := Fault.bind_eq_ok_iff.mp h
      rw [hleaving] at hfull
      cases leaving with
      | none =>
        exact .of_eq h hfull
      | some row =>
        obtain ⟨q, hexchange, h⟩ := Fault.bind_eq_ok_iff.mp h
        change (p.exchange row column >>= pivotUntilOptimal more selector') = .ok full at hfull
        rw [hexchange] at hfull
        exact ih (Nat.le_of_succ_le_succ hmore) h hfull

end Rounds

/-! ## Phases -/

section Phases

variable {rule : EnteringRule} {limit larger : Nat} {p : Progress F}

/-- The end of the first phase. -/
def judgeFeasibility (p : Progress F) : Except Fault (Stage F) := do
  let value ← p.tableau.auxiliaryValue
  if Scalar.near value 0 p.tableau.tolerance then
    return ⟨none, p.record (.feasibilityDone p.iterations)⟩
  else
    return ⟨some .infeasible, p.record (.infeasible value)⟩

theorem runFeasibility_eq (rule : EnteringRule) (limit : Nat) (p : Progress F) :
    runFeasibility rule limit p =
      pivotUntilOptimal (limit - p.iterations) (.start rule)
        (p.record (.feasibilityStarted p.tableau.artificials)) >>=
        Stage.andThen judgeFeasibility := rfl

theorem runOptimality_eq (rule : EnteringRule) (limit : Nat) (p : Progress F) :
    runOptimality rule limit p =
      pivotUntilOptimal (limit - p.iterations) (.start rule)
        (p.record (.optimalityStarted p.tableau)) >>=
        Stage.andThen fun q => .ok ⟨none, q.record (.optimalityDone q.iterations)⟩ := rfl

theorem runPhases_eq_of_feasibility (hphase : p.tableau.phase = .feasibility) :
    runPhases rule limit p = runFeasibility rule limit p >>=
      Stage.andThen fun q => q.leaveFeasibility >>= runOptimality rule limit := by
  rw [runPhases, hphase]
  rfl

theorem countsFrom_pivotUntilOptimal (allowed : Nat) (selector : Selector) (p : Progress F) :
    CountsFrom p.iterations (pivotUntilOptimal allowed selector p) := by
  intro stage h
  obtain ⟨_, _, hselect⟩ := exists_select_of_pivotUntilOptimal_eq h
  exact (Nat.le_add_right _ _).trans (iterations_le_of_pivotUntilOptimal_eq hselect h)

theorem countsFrom_judgeFeasibility (p : Progress F) :
    CountsFrom p.iterations (judgeFeasibility p) := by
  intro stage h
  obtain ⟨value, _, h⟩ := Fault.bind_eq_ok_iff.mp h
  split at h
  · obtain rfl := Except.ok.inj h
    exact Nat.le_refl _
  · obtain rfl := Except.ok.inj h
    exact Nat.le_refl _

theorem countsFrom_runOptimality (rule : EnteringRule) (limit : Nat) (p : Progress F) :
    CountsFrom p.iterations (runOptimality rule limit p) := by
  rw [runOptimality_eq]
  refine (countsFrom_pivotUntilOptimal _ _ (p.record _)).andThen fun q stage h => ?_
  obtain rfl := Except.ok.inj h
  exact Nat.le_refl _

/-- Leaving the first phase keeps the count. -/
theorem countsFrom_leaveFeasibility (rule : EnteringRule) (limit : Nat) (p : Progress F) :
    CountsFrom p.iterations (p.leaveFeasibility >>= runOptimality rule limit) := by
  intro stage h
  obtain ⟨q, hleave, h⟩ := Fault.bind_eq_ok_iff.mp h
  obtain ⟨reduction, _, hq⟩ := Fault.bind_eq_ok_iff.mp hleave
  obtain rfl := Except.ok.inj hq
  have hcounts := countsFrom_runOptimality rule limit _ stage h
  exact hcounts

theorem cutsShort_runFeasibility (h : limit ≤ larger) :
    CutsShort (runFeasibility rule limit p) (runFeasibility rule larger p) := by
  rw [runFeasibility_eq, runFeasibility_eq]
  exact CutsShort.andThen (fun _ _ => truncates_of_pivotUntilOptimal_eq (by omega))
    (fun q => .refl _) countsFrom_judgeFeasibility

theorem cutsShort_runOptimality (h : limit ≤ larger) :
    CutsShort (runOptimality rule limit p) (runOptimality rule larger p) := by
  rw [runOptimality_eq, runOptimality_eq]
  refine CutsShort.andThen (fun _ _ => truncates_of_pivotUntilOptimal_eq (by omega))
    (fun q => .refl _) fun q stage h => ?_
  obtain rfl := Except.ok.inj h
  exact Nat.le_refl _

/-- Both phases together. -/
theorem cutsShort_runPhases (h : limit ≤ larger) :
    CutsShort (runPhases rule limit p) (runPhases rule larger p) := by
  cases hphase : p.tableau.phase with
  | optimality =>
    rw [runPhases, runPhases, hphase]
    exact cutsShort_runOptimality h
  | feasibility =>
    rw [runPhases_eq_of_feasibility hphase, runPhases_eq_of_feasibility hphase]
    refine (cutsShort_runFeasibility h).andThen (fun q stage full hstage hfull => ?_)
      (countsFrom_leaveFeasibility rule larger)
    obtain ⟨next, hleave, hstage⟩ := Fault.bind_eq_ok_iff.mp hstage
    rw [hleave] at hfull
    exact cutsShort_runOptimality h stage full hstage hfull

end Phases

/-! ## Reports -/

namespace Problem

variable {rule : EnteringRule} {limit larger : Nat} {problem : Problem F} {r full : Report F}

/-- What is reported of a run that has ended. -/
def answer (problem : Problem F) (stage : Stage F) : Except Fault (Report F) :=
  match stage.failure? with
  | some failure => return .ofProgress (.error failure) stage.progress
  | none => do
    let solution ← stage.progress.tableau.solution problem.objective
    return .ofProgress (.ok solution)
      (stage.progress.record (.optimum solution.value stage.progress.iterations))

theorem solveFrom_eq (problem : Problem F) (initial : Tableau F) (limit : Nat)
    (rule : EnteringRule) :
    problem.solveFrom initial limit rule =
      runPhases rule limit (.start initial (.started problem.goal problem.objective.variableCount
        problem.constraints.length initial)) >>= problem.answer := rfl

theorem iterations_of_answer_eq {stage : Stage F} (h : problem.answer stage = .ok r) :
    r.iterations = stage.progress.iterations := by
  obtain ⟨failure?, p⟩ := stage
  cases failure? with
  | none =>
    obtain ⟨solution, _, h⟩ := Fault.bind_eq_ok_iff.mp h
    obtain rfl := Except.ok.inj h
    rfl
  | some f =>
    obtain rfl := Except.ok.inj h
    rfl

/-- A report adds nothing that depends on the limit. -/
theorem truncates_of_solveFrom_eq {initial : Tableau F} (hlimit : limit ≤ larger)
    (h : problem.solveFrom initial limit rule = .ok r)
    (hfull : problem.solveFrom initial larger rule = .ok full) : r.Truncates full := by
  rw [solveFrom_eq] at h hfull
  obtain ⟨⟨failure?, p⟩, hstage, h⟩ := Fault.bind_eq_ok_iff.mp h
  obtain ⟨fullStage, hfullStage, hfull⟩ := Fault.bind_eq_ok_iff.mp hfull
  have htruncates := cutsShort_runPhases hlimit _ _ hstage hfullStage
  refine ⟨fun hne => ?_, ?_⟩
  · have hsame : fullStage = ⟨failure?, p⟩ := by
      refine htruncates.eq_of_ne fun count hcount => ?_
      obtain rfl : failure? = some (.iterationLimitExceeded count) := hcount
      obtain rfl := Except.ok.inj h
      exact hne count rfl
    rw [hsame, h] at hfull
    exact (Except.ok.inj hfull).symm
  · rw [iterations_of_answer_eq h, iterations_of_answer_eq hfull]
    exact htruncates.iterations_le

/-- Neither does anything that is checked before the run. -/
theorem truncates_of_solve_eq {settings : Settings F} (hlimit : settings.maxIterations ≤ larger)
    (h : problem.solve settings rule = .ok r)
    (hfull : problem.solve { settings with maxIterations := larger } rule = .ok full) :
    r.Truncates full := by
  unfold solve at h hfull
  dsimp only at hfull
  split at h
  · rename_i m rest hdefects
    rw [hdefects] at hfull
    exact .of_eq h hfull
  · rename_i hdefects
    rw [hdefects] at hfull
    obtain ⟨initial, hinitial, h⟩ := Fault.bind_eq_ok_iff.mp h
    dsimp only at hfull
    rw [hinitial] at hfull
    split at h
    · rename_i hfinite
      exact truncates_of_solveFrom_eq hlimit h ((if_pos hfinite).symm.trans hfull)
    · rename_i hinfinite
      exact .of_eq h ((if_neg hinfinite).symm.trans hfull)

end Problem

end PrimalSimplex
