/-
  `Proofs.Solver.Run`: runs as relations.

  The functions of a run recurse on the iterations that are left and may answer
  with a fault at every step.  From a well-shaped tableau they never do: each of
  them has an answer, and the answer is one that the relations below allow.
  Proofs about runs are inductions over these relations and never meet a fault.
  What an exchange keeps is kept by all exchanges of a phase, in every tableau on
  the way.
-/
import PrimalSimplex.Proofs.Tableau.Choice
import PrimalSimplex.Proofs.Tableau.Initial
import PrimalSimplex.Proofs.Tableau.Reduction
import PrimalSimplex.Solver.Basic

set_option autoImplicit false

namespace PrimalSimplex

variable {F : Type} [Scalar F]

/-! ## Exchanges -/

theorem Tableau.WellShaped.mem_constraintRows_of_leavingRow? {t : Tableau F} (h : t.WellShaped)
    {j row : Nat} (hj : j < t.width) (hrow : t.leavingRow? j = .ok (some row)) :
    row ∈ t.constraintRows :=
  (h.limits_of_leavingRow? hj hrow).1

namespace Progress

/-- The second progress is the first one after an exchange. -/
structure IsExchange (p : Progress F) (row column : Nat) (q : Progress F) : Prop where
  pivot_eq : p.tableau.pivot row column = .ok q.tableau
  iterations_eq : q.iterations = p.iterations + 1
  events_eq : ∃ entering leaving, p.tableau.label column = .ok entering ∧
    p.tableau.basicLabel row = .ok leaving ∧
    q.events = .reached q.tableau :: .exchanged q.iterations entering row leaving :: p.events

theorem exchange_spec {p : Progress F} (h : p.tableau.WellShaped) {row column : Nat}
    (hrow : row ∈ p.tableau.constraintRows) (hcolumn : column < p.tableau.width) :
    ∃ q, p.exchange row column = .ok q ∧ p.IsExchange row column q := by
  have hentering := h.label_eq_ok hcolumn
  obtain ⟨leaving, hleaving⟩ := h.exists_basicLabel hrow
  obtain ⟨next, hnext, _⟩ := h.exists_pivot hrow hcolumn
  refine ⟨⟨next, p.iterations + 1, .reached next ::
    .exchanged (p.iterations + 1) (p.tableau.labelAt column) row leaving :: p.events⟩, ?_, hnext,
    rfl, _, leaving, hentering, hleaving, rfl⟩
  unfold exchange
  rw [hentering, hleaving, hnext]
  rfl

end Progress

/-- The exchanges of a phase up to its end, when a number of iterations is not to be
exceeded. -/
inductive Pivoting (limit : Nat) : Progress F → Stage F → Prop
  | optimal {p : Progress F} (hoptimal : ∀ j, ¬p.tableau.IsProfitable j) :
      Pivoting limit p ⟨none, p⟩
  | exhausted {p : Progress F} {j : Nat} (hj : p.tableau.IsProfitable j)
      (hlimit : limit ≤ p.iterations) :
      Pivoting limit p ⟨some (.iterationLimitExceeded p.count.iterations), p.count⟩
  | unlimited {p : Progress F} {j : Nat} (hj : p.tableau.IsProfitable j)
      (hlimit : p.iterations < limit) (hunlimited : ∀ i, ¬p.tableau.Limits j i) :
      Pivoting limit p ⟨some .unbounded, p.count⟩
  | exchange {p q : Progress F} {stage : Stage F} {j row : Nat} (hj : p.tableau.IsProfitable j)
      (hlimit : p.iterations < limit) (hrow : p.tableau.leavingRow? j = .ok (some row))
      (hexchange : p.IsExchange row j q) (hrest : Pivoting limit q stage) :
      Pivoting limit p stage

/-- Exchanging until the tableau is optimal comes to an end. -/
theorem pivotUntilOptimal_spec (limit : Nat) (selector : Selector) {p : Progress F}
    (hshape : p.tableau.WellShaped) :
    ∃ stage, pivotUntilOptimal (limit - p.iterations) selector p = .ok stage ∧
      Pivoting limit p stage := by
  induction hallowed : limit - p.iterations generalizing selector p with
  | zero =>
    obtain ⟨chosen, next, hselect, hsome, hnone⟩ := hshape.select_spec selector
    unfold pivotUntilOptimal
    rw [hselect]
    cases chosen with
    | none => exact ⟨_, rfl, .optimal (hnone rfl)⟩
    | some j => exact ⟨_, rfl, .exhausted (hsome j rfl) (by omega)⟩
  | succ allowed ih =>
    obtain ⟨chosen, next, hselect, hsome, hnone⟩ := hshape.select_spec selector
    unfold pivotUntilOptimal
    rw [hselect]
    cases chosen with
    | none => exact ⟨_, rfl, .optimal (hnone rfl)⟩
    | some j =>
      have hj := hsome j rfl
      have hlimit : p.iterations < limit := by omega
      have hwidth := hshape.lt_width_of_mem hj.1
      obtain ⟨leaving, hleaving, _, hunlimited⟩ := hshape.leavingRow_spec hwidth
      cases leaving with
      | none =>
        refine ⟨_, ?_, .unlimited hj hlimit (hunlimited rfl)⟩
        simp only [bind, Except.bind, hleaving]
        rfl
      | some row =>
        have hrow := hshape.mem_constraintRows_of_leavingRow? hwidth hleaving
        obtain ⟨q, hq, hexchange⟩ := Progress.exchange_spec hshape hrow hwidth
        have hreplaces := hshape.replaces_of_pivot_eq hrow hwidth hexchange.pivot_eq
        have hiterations := hexchange.iterations_eq
        obtain ⟨stage, hstage, hrest⟩ :=
          ih next (hreplaces.wellShaped hshape hwidth) (by omega)
        refine ⟨stage, ?_, .exchange hj hlimit hleaving hexchange hrest⟩
        simp only [bind, Except.bind, hleaving, hq]
        exact hstage

/-- The tableau at the end of exchanges is as the reason for the end says. -/
def Stage.Settled (s : Stage F) : Prop :=
  match s.failure? with
  | none => ∀ j, ¬s.progress.tableau.IsProfitable j
  | some .unbounded =>
    ∃ j, s.progress.tableau.IsProfitable j ∧ ∀ i, ¬s.progress.tableau.Limits j i
  | some (.iterationLimitExceeded _) => ∃ j, s.progress.tableau.IsProfitable j
  | some .infeasible | some (.malformedInput _) => False

namespace Pivoting

variable {limit : Nat} {p : Progress F} {stage : Stage F}

theorem settled (h : Pivoting limit p stage) : stage.Settled := by
  induction h with
  | optimal hoptimal => exact hoptimal
  | exhausted hj _ => exact ⟨_, hj⟩
  | unlimited hj _ hunlimited => exact ⟨_, hj, hunlimited⟩
  | exchange _ _ _ _ _ ih => exact ih

/-- What every exchange keeps holds at the end, and in every tableau on the way. -/
theorem invariant {motive : Tableau F → Prop}
    (hstep : ∀ (t u : Tableau F) (j row : Nat), motive t → t.IsProfitable j →
      t.leavingRow? j = .ok (some row) → t.pivot row j = .ok u → motive u)
    (h : Pivoting limit p stage) (hp : motive p.tableau) :
    motive stage.progress.tableau ∧
      ∃ events, stage.progress.events = events ++ p.events ∧ ∀ u ∈ visited events, motive u := by
  induction h with
  | optimal _ => exact ⟨hp, [], rfl, nofun⟩
  | exhausted _ _ => exact ⟨hp, [], rfl, nofun⟩
  | unlimited _ _ _ => exact ⟨hp, [], rfl, nofun⟩
  | @exchange p q stage j row hj _ hrow hexchange _ ih =>
    have hq := hstep _ _ j row hp hj hrow hexchange.pivot_eq
    obtain ⟨hend, events, hevents, hvisited⟩ := ih hq
    obtain ⟨entering, leaving, _, _, hnew⟩ := hexchange.events_eq
    refine ⟨hend, events ++ [.reached q.tableau, .exchanged q.iterations entering row leaving],
      ?_, fun u hu => ?_⟩
    · rw [hevents, hnew, List.append_assoc]
      rfl
    · rw [visited, List.filterMap_append] at hu
      rcases List.mem_append.mp hu with hu | hu
      · exact hvisited u hu
      · obtain rfl := List.mem_singleton.mp hu
        exact hq

/-- Sizes fit together all the way, and the phase stays. -/
theorem wellShaped (h : Pivoting limit p stage) (hp : p.tableau.WellShaped) :
    stage.progress.tableau.WellShaped ∧ stage.progress.tableau.phase = p.tableau.phase := by
  refine (h.invariant (motive := fun t => t.WellShaped ∧ t.phase = p.tableau.phase)
    (fun t u j row ht hj hrow hpivot => ?_) ⟨hp, rfl⟩).1
  have hwidth := ht.1.lt_width_of_mem hj.1
  have hreplaces := ht.1.replaces_of_pivot_eq
    (ht.1.mem_constraintRows_of_leavingRow? hwidth hrow) hwidth hpivot
  exact ⟨hreplaces.wellShaped ht.1 hwidth, hreplaces.sameFrame.phase_eq.trans ht.2⟩

end Pivoting

/-! ## Phases -/

/-- A run of the first phase. -/
inductive FeasibilityRun (limit : Nat) (p : Progress F) : Stage F → Prop
  | stopped {f : Failure (Malformation F)} {q : Progress F}
      (hpivoting : Pivoting limit (p.record (.feasibilityStarted p.tableau.artificials))
        ⟨some f, q⟩) :
      FeasibilityRun limit p ⟨some f, q⟩
  | reached {value : F} {q : Progress F}
      (hpivoting : Pivoting limit (p.record (.feasibilityStarted p.tableau.artificials)) ⟨none, q⟩)
      (hvalue : q.tableau.auxiliaryValue = .ok value)
      (hnear : Scalar.near value 0 q.tableau.tolerance = true) :
      FeasibilityRun limit p ⟨none, q.record (.feasibilityDone q.iterations)⟩
  | missed {value : F} {q : Progress F}
      (hpivoting : Pivoting limit (p.record (.feasibilityStarted p.tableau.artificials)) ⟨none, q⟩)
      (hvalue : q.tableau.auxiliaryValue = .ok value)
      (hfar : Scalar.near value 0 q.tableau.tolerance = false) :
      FeasibilityRun limit p ⟨some .infeasible, q.record (.infeasible value)⟩

theorem runFeasibility_spec (rule : EnteringRule) (limit : Nat) {p : Progress F}
    (hshape : p.tableau.WellShaped) :
    ∃ stage, runFeasibility rule limit p = .ok stage ∧ FeasibilityRun limit p stage := by
  obtain ⟨⟨failure?, q⟩, hinner, hpivoting⟩ := pivotUntilOptimal_spec limit (.start rule)
    (p := p.record (.feasibilityStarted p.tableau.artificials)) hshape
  unfold runFeasibility
  cases failure? with
  | some f => exact ⟨_, Fault.bind_eq_ok_iff.mpr ⟨_, hinner, rfl⟩, .stopped hpivoting⟩
  | none =>
    have hend := (hpivoting.wellShaped hshape).1
    have hvalue := hend.bound_eq_ok hend.height_pos
    cases hnear : Scalar.near (q.tableau.coeff 0 q.tableau.boundColumn) 0 q.tableau.tolerance with
    | true =>
      refine ⟨_, Fault.bind_eq_ok_iff.mpr ⟨_, hinner, ?_⟩, .reached hpivoting hvalue hnear⟩
      exact Fault.bind_eq_ok_iff.mpr ⟨_, hvalue, if_pos hnear⟩
    | false =>
      refine ⟨_, Fault.bind_eq_ok_iff.mpr ⟨_, hinner, ?_⟩, .missed hpivoting hvalue hnear⟩
      exact Fault.bind_eq_ok_iff.mpr ⟨_, hvalue, if_neg (Bool.eq_false_iff.mp hnear)⟩

theorem FeasibilityRun.wellShaped {limit : Nat} {p : Progress F} {stage : Stage F}
    (h : FeasibilityRun limit p stage) (hp : p.tableau.WellShaped) :
    stage.progress.tableau.WellShaped ∧ stage.progress.tableau.phase = p.tableau.phase := by
  cases h with
  | stopped hpivoting => exact hpivoting.wellShaped hp
  | reached hpivoting _ _ => exact hpivoting.wellShaped hp
  | missed hpivoting _ _ => exact hpivoting.wellShaped hp

/-- A run of the second phase. -/
inductive OptimalityRun (limit : Nat) (p : Progress F) : Stage F → Prop
  | stopped {f : Failure (Malformation F)} {q : Progress F}
      (hpivoting : Pivoting limit (p.record (.optimalityStarted p.tableau)) ⟨some f, q⟩) :
      OptimalityRun limit p ⟨some f, q⟩
  | reached {q : Progress F}
      (hpivoting : Pivoting limit (p.record (.optimalityStarted p.tableau)) ⟨none, q⟩) :
      OptimalityRun limit p ⟨none, q.record (.optimalityDone q.iterations)⟩

theorem runOptimality_spec (rule : EnteringRule) (limit : Nat) {p : Progress F}
    (hshape : p.tableau.WellShaped) :
    ∃ stage, runOptimality rule limit p = .ok stage ∧ OptimalityRun limit p stage := by
  obtain ⟨⟨failure?, q⟩, hinner, hpivoting⟩ := pivotUntilOptimal_spec limit (.start rule)
    (p := p.record (.optimalityStarted p.tableau)) hshape
  unfold runOptimality
  cases failure? with
  | some f => exact ⟨_, Fault.bind_eq_ok_iff.mpr ⟨_, hinner, rfl⟩, .stopped hpivoting⟩
  | none => exact ⟨_, Fault.bind_eq_ok_iff.mpr ⟨_, hinner, rfl⟩, .reached hpivoting⟩

theorem OptimalityRun.wellShaped {limit : Nat} {p : Progress F} {stage : Stage F}
    (h : OptimalityRun limit p stage) (hp : p.tableau.WellShaped) :
    stage.progress.tableau.WellShaped ∧ stage.progress.tableau.phase = p.tableau.phase := by
  cases h with
  | stopped hpivoting => exact hpivoting.wellShaped hp
  | reached hpivoting => exact hpivoting.wellShaped hp

/-- Leaving the first phase succeeds and tells which variables go. -/
theorem Progress.leaveFeasibility_spec {p : Progress F} (hshape : p.tableau.WellShaped)
    (hphase : p.tableau.phase = .feasibility) :
    ∃ q, p.leaveFeasibility = .ok q ∧ p.tableau.IsReduction q.tableau ∧
      q.iterations = p.iterations ∧
      q.events = .removed (p.tableau.surplus.map p.tableau.labelAt) :: p.events := by
  obtain ⟨u, hreduce, hreduction⟩ := hshape.reduce_spec hphase
  refine ⟨{ p with
    tableau := u
    events := .removed (p.tableau.surplus.map p.tableau.labelAt) :: p.events }, ?_, hreduction,
    rfl, rfl⟩
  unfold leaveFeasibility
  rw [hreduce]
  rfl

/-- A first phase that is left ends in a tableau that can be reduced. -/
theorem FeasibilityRun.isReduction {limit : Nat} {p q next : Progress F}
    (h : FeasibilityRun limit p ⟨none, q⟩) (hp : p.tableau.WellShaped)
    (hphase : p.tableau.phase = .feasibility) (hleave : q.leaveFeasibility = .ok next) :
    q.tableau.WellShaped ∧ q.tableau.IsReduction next.tableau := by
  obtain ⟨hend, hstays⟩ := h.wellShaped hp
  obtain ⟨left, hleft, hreduction, _⟩ := q.leaveFeasibility_spec hend (hstays.trans hphase)
  obtain rfl := Except.ok.inj (hleft.symm.trans hleave)
  exact ⟨hend, hreduction⟩

/-- A run of both phases, as far as there are two. -/
inductive PhasesRun (limit : Nat) (p : Progress F) : Stage F → Prop
  | direct {stage : Stage F} (hphase : p.tableau.phase = .optimality)
      (hoptimality : OptimalityRun limit p stage) : PhasesRun limit p stage
  | stopped {f : Failure (Malformation F)} {q : Progress F}
      (hphase : p.tableau.phase = .feasibility)
      (hfeasibility : FeasibilityRun limit p ⟨some f, q⟩) : PhasesRun limit p ⟨some f, q⟩
  | both {q next : Progress F} {stage : Stage F} (hphase : p.tableau.phase = .feasibility)
      (hfeasibility : FeasibilityRun limit p ⟨none, q⟩) (hleave : q.leaveFeasibility = .ok next)
      (hoptimality : OptimalityRun limit next stage) : PhasesRun limit p stage

theorem runPhases_spec (rule : EnteringRule) (limit : Nat) {p : Progress F}
    (hshape : p.tableau.WellShaped) :
    ∃ stage, runPhases rule limit p = .ok stage ∧ PhasesRun limit p stage := by
  unfold runPhases
  cases hphase : p.tableau.phase with
  | optimality =>
    obtain ⟨stage, hstage, hrun⟩ := runOptimality_spec rule limit hshape
    exact ⟨stage, hstage, .direct hphase hrun⟩
  | feasibility =>
    obtain ⟨⟨failure?, q⟩, hinner, hrun⟩ := runFeasibility_spec rule limit hshape
    cases failure? with
    | some f => exact ⟨_, Fault.bind_eq_ok_iff.mpr ⟨_, hinner, rfl⟩, .stopped hphase hrun⟩
    | none =>
      obtain ⟨hend, hstays⟩ := hrun.wellShaped hshape
      obtain ⟨next, hnext, hreduction, _⟩ := q.leaveFeasibility_spec hend (hstays.trans hphase)
      obtain ⟨stage, hstage, hoptimality⟩ :=
        runOptimality_spec rule limit (hreduction.wellShaped hend)
      refine ⟨stage, Fault.bind_eq_ok_iff.mpr ⟨_, hinner, ?_⟩, .both hphase hrun hnext hoptimality⟩
      exact Fault.bind_eq_ok_iff.mpr ⟨_, hnext, hstage⟩

/-! ## Problems -/

/-- What is solved has as many coefficients in every constraint as there are
variables. -/
theorem Problem.length_eq_of_defects_eq_nil {p : Problem F} {tolerance : F}
    (h : p.defects tolerance = []) :
    ∀ c ∈ p.constraints, c.coefficients.length = p.objective.variableCount := by
  intro c hc
  have hconstraints := (List.append_eq_nil_iff.mp (List.append_eq_nil_iff.mp h).1).2
  obtain ⟨k, hk⟩ := List.mem_iff_getElem?.mp hc
  have hdefects := List.flatMap_eq_nil_iff.mp hconstraints (c, k)
    (List.mem_zipIdx_iff_getElem?.mpr hk)
  have hlength := (List.append_eq_nil_iff.mp (List.append_eq_nil_iff.mp hdefects).1).1
  exact beq_iff_eq.mp (Malformation.require_eq_nil_iff.mp hlength)

/-- What is not malformed has an initial tableau. -/
theorem Problem.exists_initial_of_defects_eq_nil {p : Problem F} {tolerance : F}
    (h : p.defects tolerance = []) : ∃ t, Tableau.initial p.standardize tolerance = .ok t := by
  refine Tableau.exists_initial tolerance fun c hc => ?_
  obtain ⟨given, hgiven, rfl⟩ := List.mem_map.mp hc
  rw [Constraint.length_coefficients_standardize]
  exact length_eq_of_defects_eq_nil h given hgiven

/-- What a solver did with a problem. -/
inductive Solving (p : Problem F) (settings : Settings F) : Report F → Prop
  | malformed (m : Malformation F)
      (hreason : m ∈ p.defects settings.tolerance ∨
        ∃ initial, Tableau.initial p.standardize settings.tolerance = .ok initial ∧
          initial.isFinite = false) :
      Solving p settings (.malformed m)
  | failed {initial : Tableau F} {f : Failure (Malformation F)} {q : Progress F}
      (hinitial : Tableau.initial p.standardize settings.tolerance = .ok initial)
      (hrun : PhasesRun settings.maxIterations
        (.start initial (.started p.goal p.objective.variableCount p.constraints.length initial))
        ⟨some f, q⟩) :
      Solving p settings (.ofProgress (.error f) q)
  | solved {initial : Tableau F} {solution : Solution F} {q : Progress F}
      (hinitial : Tableau.initial p.standardize settings.tolerance = .ok initial)
      (hrun : PhasesRun settings.maxIterations
        (.start initial (.started p.goal p.objective.variableCount p.constraints.length initial))
        ⟨none, q⟩)
      (hsolution : q.tableau.solution p.objective = .ok solution) :
      Solving p settings
        (.ofProgress (.ok solution) (q.record (.optimum solution.value q.iterations)))

namespace PhasesRun

variable {limit : Nat} {p q : Progress F} {stage : Stage F}

theorem wellShaped (h : PhasesRun limit p stage) (hp : p.tableau.WellShaped) :
    stage.progress.tableau.WellShaped := by
  cases h with
  | direct _ hoptimality => exact (hoptimality.wellShaped hp).1
  | stopped _ hfeasibility => exact (hfeasibility.wellShaped hp).1
  | both hphase hfeasibility hleave hoptimality =>
    obtain ⟨hend, hreduction⟩ := hfeasibility.isReduction hp hphase hleave
    exact (hoptimality.wellShaped (hreduction.wellShaped hend)).1

/-- A run that succeeds ends in the second phase. -/
theorem phase_eq (h : PhasesRun limit p ⟨none, q⟩) (hp : p.tableau.WellShaped) :
    q.tableau.phase = .optimality := by
  cases h with
  | direct hphase hoptimality => exact (hoptimality.wellShaped hp).2.trans hphase
  | @both _ next _ hphase hfeasibility hleave hoptimality =>
    obtain ⟨hend, hreduction⟩ := hfeasibility.isReduction hp hphase hleave
    have hleft : next.tableau.phase = .optimality := by rw [hreduction.frame]
    exact (hoptimality.wellShaped (hreduction.wellShaped hend)).2.trans hleft

end PhasesRun

theorem Problem.solve_spec (p : Problem F) (settings : Settings F) (rule : EnteringRule) :
    ∃ report, p.solve settings rule = .ok report ∧ Solving p settings report := by
  unfold solve
  split
  · rename_i m rest hdefects
    exact ⟨_, rfl, .malformed m (.inl (hdefects ▸ List.mem_cons_self ..))⟩
  · rename_i hdefects
    obtain ⟨initial, hinitial⟩ := exists_initial_of_defects_eq_nil hdefects
    have hshape := (Tableau.isInitial_of_initial_eq hinitial).2.wellShaped
    rw [hinitial]
    cases hfinite : initial.isFinite with
    | false =>
      refine ⟨.malformed .tableauNotFinite, ?_, .malformed _ (.inr ⟨initial, hinitial, hfinite⟩)⟩
      exact if_neg (Bool.eq_false_iff.mp hfinite)
    | true =>
      obtain ⟨⟨failure?, q⟩, hphases, hrun⟩ := runPhases_spec rule settings.maxIterations
        (p := .start initial
          (.started p.goal p.objective.variableCount p.constraints.length initial)) hshape
      have hsolve : ∀ {report : Report F},
          p.solveFrom initial settings.maxIterations rule = .ok report →
          (Except.ok initial >>= fun initial =>
            if initial.isFinite then p.solveFrom initial settings.maxIterations rule
            else return .malformed .tableauNotFinite) = .ok report :=
        fun h => (if_pos hfinite).trans h
      cases failure? with
      | some f =>
        refine ⟨_, hsolve ?_, .failed hinitial hrun⟩
        exact Fault.bind_eq_ok_iff.mpr ⟨_, hphases, rfl⟩
      | none =>
        have hsolution := (hrun.wellShaped hshape).solution_eq_ok p.objective
        refine ⟨_, hsolve ?_, .solved hinitial hrun hsolution⟩
        refine Fault.bind_eq_ok_iff.mpr ⟨_, hphases, ?_⟩
        exact Fault.bind_eq_ok_iff.mpr ⟨_, hsolution, rfl⟩

namespace Solver

variable {s : Solver F} {p : Problem F}

/-- A solver always answers. -/
theorem optimize_spec (s : Solver F) (p : Problem F) :
    ∃ report, s.optimize p = .ok (report, { s with iterations := report.iterations }) ∧
      Solving p s.settings report := by
  obtain ⟨report, hreport, hsolving⟩ := p.solve_spec s.settings s.rule
  exact ⟨report, Fault.bind_eq_ok_iff.mpr ⟨report, hreport, rfl⟩, hsolving⟩

theorem solving_of_optimize_eq {s' : Solver F} {report : Report F}
    (h : s.optimize p = .ok (report, s')) : Solving p s.settings report := by
  obtain ⟨answered, hanswered, hsolving⟩ := s.optimize_spec p
  obtain rfl : report = answered := congrArg Prod.fst (Except.ok.inj (h.symm.trans hanswered))
  exact hsolving

/-- What a solver answers, unless there is a fault. -/
def answer? (s : Solver F) (p : Problem F) :
    Option (Except (Failure (Malformation F)) (Solution F)) :=
  (s.optimize p).toOption.map fun answer => answer.1.result

theorem exists_of_answer?_eq_some {result : Except (Failure (Malformation F)) (Solution F)}
    (h : s.answer? p = some result) :
    ∃ report s', s.optimize p = .ok (report, s') ∧ report.result = result := by
  obtain ⟨⟨report, s'⟩, hanswer, hresult⟩ := Option.map_eq_some_iff.mp h
  exact ⟨report, s', Fault.eq_ok_of_toOption_eq_some hanswer, hresult⟩

theorem answer?_eq_of_optimize_eq {s' : Solver F} {report : Report F}
    (h : s.optimize p = .ok (report, s')) : s.answer? p = some report.result := by
  rw [answer?, h]
  rfl

/-- A report has the answer that the solver is known to give. -/
theorem result_eq_of_answer?_eq {s' : Solver F} {report : Report F}
    {result : Except (Failure (Malformation F)) (Solution F)}
    (h : s.optimize p = .ok (report, s')) (hanswer : s.answer? p = some result) :
    report.result = result :=
  Option.some.inj ((answer?_eq_of_optimize_eq h).symm.trans hanswer)

end Solver

end PrimalSimplex
