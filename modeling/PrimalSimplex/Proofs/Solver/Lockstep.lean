/-
  `Proofs.Solver.Lockstep`: runs from tableaus that are alike.

  Two runs that begin with tableaus that are alike go on in the same way.  In each
  iteration they exchange in the same row and column, and they are alike again, up
  to the point where both end for the same reason.  What happens on the way differs
  in nothing but what the variables are called and what the tableaus do not share.
  A first phase needs no more than this.  To stay alike in the second one, tableaus
  have to share after the change nothing they did not share before.
-/
import PrimalSimplex.Proofs.Solver.Limit
import PrimalSimplex.Proofs.Tableau.Likeness

set_option autoImplicit false

namespace PrimalSimplex

variable {F : Type} [Scalar F] {l : Likeness}

/-! ## Events -/

/-- The second event is the first one as the other run sees it. -/
inductive Event.Resembles (l : Likeness) : Event F → Event F → Prop
  | started {goal goal' : Goal}
      {variableCount variableCount' constraintCount constraintCount' : Nat} {t u : Tableau F}
      (h : t.Resembles l u) :
      Resembles l (.started goal variableCount constraintCount t)
        (.started goal' variableCount' constraintCount' u)
  | feasibilityStarted (artificials : Nat) :
      Resembles l (.feasibilityStarted artificials) (.feasibilityStarted artificials)
  | exchanged (iteration : Nat) (entering : Column.Label) (row : Nat) (leaving : Column.Label) :
      Resembles l (.exchanged iteration entering row leaving)
        (.exchanged iteration (l.rename entering) row (l.rename leaving))
  | reached {t u : Tableau F} (h : t.Resembles l u) : Resembles l (.reached t) (.reached u)
  | feasibilityDone (iterations : Nat) :
      Resembles l (.feasibilityDone iterations) (.feasibilityDone iterations)
  | infeasible (value : F) : Resembles l (.infeasible value) (.infeasible value)
  | removed (labels : List Column.Label) :
      Resembles l (.removed labels) (.removed (labels.map l.rename))
  | optimalityStarted {t u : Tableau F} (h : t.Resembles l u) :
      Resembles l (.optimalityStarted t) (.optimalityStarted u)
  | optimalityDone (iterations : Nat) :
      Resembles l (.optimalityDone iterations) (.optimalityDone iterations)

/-- The tableaus that two journals tell of are alike, one by one. -/
theorem forall₂_visited {journal journal' : List (Event F)}
    (h : List.Forall₂ (Event.Resembles l) journal journal') :
    List.Forall₂ (Tableau.Resembles l) (visited journal) (visited journal') := by
  induction h with
  | nil => exact .nil
  | cons he _ ih =>
    cases he with
    | started h => exact .cons h ih
    | reached h => exact .cons h ih
    | optimalityStarted h => exact .cons h ih
    | feasibilityStarted _ => exact ih
    | exchanged _ _ _ _ => exact ih
    | feasibilityDone _ => exact ih
    | infeasible _ => exact ih
    | removed _ => exact ih
    | optimalityDone _ => exact ih

/-- The second run is as far as the first one, in the same way. -/
structure Progress.Resembles (l : Likeness) (p q : Progress F) : Prop where
  tableau : p.tableau.Resembles l q.tableau
  iterations_eq : q.iterations = p.iterations
  events : List.Forall₂ (Event.Resembles l) p.events q.events

namespace Progress.Resembles

variable {p q : Progress F}

theorem record (h : p.Resembles l q) {e e' : Event F} (he : e.Resembles l e') :
    (p.record e).Resembles l (q.record e') :=
  ⟨h.tableau, h.iterations_eq, .cons he h.events⟩

theorem count (h : p.Resembles l q) : p.count.Resembles l q.count :=
  ⟨h.tableau, congrArg (· + 1) h.iterations_eq, h.events⟩

theorem count_iterations_eq (h : p.Resembles l q) : q.count.iterations = p.count.iterations :=
  h.count.iterations_eq

/-- The journals tell of the same, event by event. -/
theorem journal (h : p.Resembles l q) : List.Forall₂ (Event.Resembles l) p.journal q.journal :=
  List.rel_reverse h.events

/-- The same exchange leaves them alike. -/
theorem exists_exchange (h : p.Resembles l q) {row column : Nat}
    (hrow : row ∈ p.tableau.constraintRows) (hcolumn : column ∈ p.tableau.variableColumns) :
    ∃ p' q', p.exchange row column = .ok p' ∧ q.exchange row column = .ok q' ∧
      p'.Resembles l q' := by
  obtain ⟨next, next', hnext, hnext', hresembles, _⟩ := h.tableau.exists_pivot hrow hcolumn
  have hwidth := h.tableau.wellShaped.lt_width_of_mem hcolumn
  have hentering := h.tableau.wellShaped.label_eq_ok hwidth
  obtain ⟨leaving, hleaving⟩ := h.tableau.wellShaped.exists_basicLabel hrow
  refine ⟨⟨next, p.iterations + 1, .reached next ::
      .exchanged (p.iterations + 1) (p.tableau.labelAt column) row leaving :: p.events⟩,
    ⟨next', p.iterations + 1, .reached next' :: .exchanged (p.iterations + 1)
      (l.rename (p.tableau.labelAt column)) row (l.rename leaving) :: q.events⟩,
    ?_, ?_, hresembles, rfl, .cons (.reached hresembles) (.cons (.exchanged _ _ _ _) h.events)⟩
  · unfold exchange
    rw [hentering, hleaving, hnext]
    rfl
  · unfold exchange
    rw [h.tableau.label_eq_map, h.tableau.basicLabel_eq_map, hentering, hleaving, hnext',
      ← h.iterations_eq]
    rfl

/-- So does leaving the first phase. -/
theorem exists_leaveFeasibility (h : p.Resembles l q) (hcrosses : l.Crosses) :
    ∃ p' q', p.leaveFeasibility = .ok p' ∧ q.leaveFeasibility = .ok q' ∧ p'.Resembles l q' := by
  obtain ⟨r, r', hr, hr', hresembles, hremoved⟩ := h.tableau.exists_reduce hcrosses
  have hevents : List.Forall₂ (Event.Resembles l) r.events r'.events := by
    unfold Reduction.events
    rw [hremoved, List.isEmpty_map]
    split
    · exact .nil
    · exact .cons (.removed _) .nil
  refine ⟨⟨r.tableau, p.iterations, r.events.reverse ++ p.events⟩,
    ⟨r'.tableau, q.iterations, r'.events.reverse ++ q.events⟩, ?_, ?_, hresembles,
    h.iterations_eq, List.rel_append (List.rel_reverse hevents) h.events⟩
  · unfold leaveFeasibility
    rw [hr]
    rfl
  · unfold leaveFeasibility
    rw [hr']
    rfl

end Progress.Resembles

/-! ## Parts of runs -/

/-- Both parts of runs end for the same reason, and are alike at the end. -/
structure Stage.Resembles (l : Likeness) (stage stage' : Stage F) : Prop where
  failure?_eq : stage'.failure? = stage.failure?
  progress : stage.progress.Resembles l stage'.progress

/-- Two parts of runs keep step from begin to end. -/
def KeepsStep (l : Likeness) (run run' : Except Fault (Stage F)) : Prop :=
  ∃ stage stage', run = .ok stage ∧ run' = .ok stage' ∧ stage.Resembles l stage'

theorem KeepsStep.of_ok {failure? : Option (Failure (Malformation F))} {p q : Progress F}
    (h : p.Resembles l q) : KeepsStep l (.ok ⟨failure?, p⟩) (.ok ⟨failure?, q⟩) :=
  ⟨_, _, rfl, rfl, rfl, h⟩

/-- What keeps step goes on doing so. -/
theorem KeepsStep.andThen {first first' : Except Fault (Stage F)}
    {next next' : Progress F → Except Fault (Stage F)} (hfirst : KeepsStep l first first')
    (hnext : ∀ p q, first = .ok ⟨none, p⟩ → p.Resembles l q → KeepsStep l (next p) (next' q)) :
    KeepsStep l (first >>= Stage.andThen next) (first' >>= Stage.andThen next') := by
  obtain ⟨⟨failure?, p⟩, ⟨failure?', q⟩, rfl, rfl, hfailure, hprogress⟩ := hfirst
  obtain rfl : failure?' = failure? := hfailure
  cases failure?' with
  | none => exact hnext p q rfl hprogress
  | some f => exact .of_ok hprogress

/-- As long as both may go on, they make the same exchanges. -/
theorem keepsStep_pivotUntilOptimal (allowed : Nat) (selector : Selector) {p q : Progress F}
    (h : p.Resembles l q) :
    KeepsStep l (pivotUntilOptimal allowed selector p) (pivotUntilOptimal allowed selector q) := by
  induction allowed generalizing selector p q with
  | zero =>
    obtain ⟨chosen, next, hselect, _⟩ := h.tableau.wellShaped.select_spec selector
    have hselect' := (h.tableau.select_eq selector).trans hselect
    cases chosen with
    | none =>
      rw [pivotUntilOptimal_of_select_eq_none hselect, pivotUntilOptimal_of_select_eq_none hselect']
      exact .of_ok h
    | some column =>
      rw [pivotUntilOptimal_zero hselect, pivotUntilOptimal_zero hselect', h.count_iterations_eq]
      exact .of_ok h.count
  | succ allowed ih =>
    obtain ⟨chosen, next, hselect, hprofitable, _⟩ := h.tableau.wellShaped.select_spec selector
    have hselect' := (h.tableau.select_eq selector).trans hselect
    cases chosen with
    | none =>
      rw [pivotUntilOptimal_of_select_eq_none hselect, pivotUntilOptimal_of_select_eq_none hselect']
      exact .of_ok h
    | some column =>
      have hcolumn := (hprofitable column rfl).1
      have hwidth := h.tableau.wellShaped.lt_width_of_mem hcolumn
      obtain ⟨leaving, hleaving, _⟩ := h.tableau.wellShaped.leavingRow_spec hwidth
      have hleaving' := (h.tableau.leavingRow?_eq hcolumn).trans hleaving
      rw [pivotUntilOptimal_succ hselect, pivotUntilOptimal_succ hselect', hleaving, hleaving']
      cases leaving with
      | none => exact .of_ok h.count
      | some row =>
        have hrow := h.tableau.wellShaped.mem_constraintRows_of_leavingRow? hwidth hleaving
        obtain ⟨p', q', hexchange, hexchange', hresembles⟩ := h.exists_exchange hrow hcolumn
        show KeepsStep l (p.exchange row column >>= pivotUntilOptimal allowed next)
          (q.exchange row column >>= pivotUntilOptimal allowed next)
        rw [hexchange, hexchange']
        exact ih next hresembles

/-! ## Phases -/

section Phases

variable {p q : Progress F}

/-- They judge the end of the first phase in the same way. -/
theorem keepsStep_judgeFeasibility (h : p.Resembles l q)
    (hphase : p.tableau.phase = .feasibility) :
    KeepsStep l (judgeFeasibility p) (judgeFeasibility q) := by
  have hvalue := h.tableau.wellShaped.bound_eq_ok h.tableau.wellShaped.height_pos
  have hvalue' := (h.tableau.auxiliaryValue_eq hphase).trans hvalue
  unfold judgeFeasibility
  rw [show p.tableau.auxiliaryValue = _ from hvalue, hvalue', h.tableau.tolerance_eq,
    h.iterations_eq]
  show KeepsStep l (if _ then .ok _ else .ok _) (if _ then .ok _ else .ok _)
  split
  · exact .of_ok (h.record (.feasibilityDone _))
  · exact .of_ok (h.record (.infeasible _))

/-- The first phase keeps step, whatever a likeness leaves out. -/
theorem keepsStep_runFeasibility (rule : EnteringRule) (limit : Nat) (h : p.Resembles l q)
    (hphase : p.tableau.phase = .feasibility) :
    KeepsStep l (runFeasibility rule limit p) (runFeasibility rule limit q) := by
  rw [runFeasibility_eq, runFeasibility_eq, h.tableau.artificials_eq, h.iterations_eq]
  have hbegun := h.record (.feasibilityStarted p.tableau.artificials)
  refine (keepsStep_pivotUntilOptimal _ _ hbegun).andThen fun p' q' hend hresembles => ?_
  -- Exchanges stay in the phase, so there is a value to be judged.
  obtain ⟨stage, hstage, hpivoting⟩ := pivotUntilOptimal_spec limit (.start rule)
    (p := p.record (.feasibilityStarted p.tableau.artificials)) h.tableau.wellShaped
  obtain rfl := Except.ok.inj (hstage.symm.trans hend)
  have hstays := (hpivoting.wellShaped h.tableau.wellShaped).2
  exact keepsStep_judgeFeasibility hresembles (hstays.trans hphase)

theorem keepsStep_runOptimality (rule : EnteringRule) (limit : Nat) (h : p.Resembles l q) :
    KeepsStep l (runOptimality rule limit p) (runOptimality rule limit q) := by
  rw [runOptimality_eq, runOptimality_eq, h.iterations_eq]
  have hbegun := h.record (.optimalityStarted h.tableau)
  refine (keepsStep_pivotUntilOptimal _ _ hbegun).andThen fun p' q' _ hresembles => ?_
  rw [hresembles.iterations_eq]
  exact .of_ok (hresembles.record (.optimalityDone _))

/-- Both phases together. -/
theorem keepsStep_runPhases (rule : EnteringRule) (limit : Nat) (hcrosses : l.Crosses)
    (h : p.Resembles l q) :
    KeepsStep l (runPhases rule limit p) (runPhases rule limit q) := by
  cases hphase : p.tableau.phase with
  | optimality =>
    rw [runPhases, runPhases, h.tableau.phase_eq, hphase]
    exact keepsStep_runOptimality rule limit h
  | feasibility =>
    have hphase' := h.tableau.phase_eq.trans hphase
    rw [runPhases_eq_of_feasibility hphase, runPhases_eq_of_feasibility hphase']
    refine (keepsStep_runFeasibility rule limit h hphase).andThen fun p' q' _ hresembles => ?_
    obtain ⟨left, left', hleave, hleave', hleft⟩ := hresembles.exists_leaveFeasibility hcrosses
    show KeepsStep l (p'.leaveFeasibility >>= runOptimality rule limit)
      (q'.leaveFeasibility >>= runOptimality rule limit)
    rw [hleave, hleave']
    exact keepsStep_runOptimality rule limit hleft

end Phases

end PrimalSimplex
