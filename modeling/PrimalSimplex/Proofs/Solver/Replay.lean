/-
  `Proofs.Solver.Replay`: the log of a run, followed once more.

  A log names a column by its label, and columns are removed between the phases.  A name
  leads back to its column only if labels are unique and go along with their columns, and
  if a record tells of the basis before it changes.  All of this is so, whatever the
  numbers are.  Whoever has a log and the initial tableau can do what the log says, a
  pivot for each exchange and the reduction where columns are dropped: the tableaus are
  those of the run, the same lines can be told of them, and the last of them is the one
  that the solver ended with.
-/
import PrimalSimplex.Proofs.Column.Names
import PrimalSimplex.Proofs.Solver.Outcome
import PrimalSimplex.Proofs.Solver.Pivots
import PrimalSimplex.Proofs.Solver.Safety

set_option autoImplicit false

namespace PrimalSimplex

open Column (Label)

variable {F : Type}

/-! ## Names -/

/-- The column with a name, the first one if there are several. -/
def Tableau.columnNamed (t : Tableau F) (name : String) : Except Fault Nat :=
  match t.labels.findIdx? fun label => label.text == name with
  | some column => .ok column
  | none => .error .outOfRange

/-- Names say as much as labels. -/
theorem Tableau.columnNamed_text {t : Tableau F} {label : Label} {column : Nat}
    (h : t.columnOf? label = some column) : t.columnNamed label.text = .ok column := by
  have hsame : (fun other : Label => other.text == label.text) = fun other => other == label := by
    funext other
    exact Bool.eq_iff_iff.mpr (by simp [Label.text_injective.eq_iff])
  have hfind : t.labels.findIdx? (fun other => other.text == label.text) = some column := by
    rw [hsame]
    exact h
  rw [columnNamed, hfind]

/-! ## Replaying -/

/-- What a record of a log says was done. -/
inductive Instruction where
  /-- The variable with a name becomes basic in a row. -/
  | exchange (entering : String) (row : Nat)
  /-- The first phase is left. -/
  | leave
  deriving DecidableEq, Repr

namespace Event

/-- What was done to the tableau when the event was told. -/
def instruction? : Event F → Option Instruction
  | exchanged _ entering row _ => some (.exchange entering.text row)
  | removed _ => some .leave
  | _ => none

/-- The number in the record of an exchange. -/
def iteration? : Event F → Option Nat
  | exchanged iteration _ _ _ => some iteration
  | _ => none

end Event

/-- The record of an exchange in a log. -/
def exchangeLine (iteration : Nat) (entering : String) (row : Nat) (leaving : String) : String :=
  "TRACE " ++ s!"Iteration {iteration}: {entering} enters in row {row}, {leaving} leaves"

/-- How far a log has been replayed. -/
structure Replay (F : Type) where
  tableau : Tableau F
  /-- The number of pivots that were made. -/
  pivots : Nat
  /-- What there is to tell of them. -/
  lines : List String

variable [DecimalText F]

/-- The lines of a log that tell of exchanges and the tableaus that they lead to. -/
def traceLines (journal : List (Event F)) : Except Fault (List String) :=
  (journal.filter fun e => e.level = .trace).mapM Event.line

variable [Scalar F]

namespace Replay

/-- Does what a record says.  Of a pivot two lines are told, the first of them with the
variable that was basic in the row before, the second one with the tableau after. -/
def follow (r : Replay F) : Instruction → Except Fault (Replay F)
  | .exchange name row => do
    let column ← r.tableau.columnNamed name
    let leaving ← r.tableau.basicLabel row
    let next ← r.tableau.pivot row column
    let told := exchangeLine (r.pivots + 1) name row leaving.text
    return ⟨next, r.pivots + 1, r.lines ++ [told, "TRACE " ++ (← next.render)]⟩
  | .leave => do
    let reduction ← r.tableau.reduce
    return { r with tableau := reduction.tableau }

/-- Does what a log says, beginning with a tableau. -/
def ofJournal (initial : Tableau F) (journal : List (Event F)) : Except Fault (Replay F) :=
  (journal.filterMap Event.instruction?).foldlM follow ⟨initial, 0, []⟩

end Replay

/-! ## Journals -/

/-- A journal can be replayed from one tableau to another one, and its records are told
in the same words and numbered from one on. -/
structure Replays (initial : Tableau F) (journal : List (Event F)) (t : Tableau F) : Prop where
  iterations_eq : journal.filterMap Event.iteration? = List.range' 1 (exchanges journal)
  replay_eq : ∃ lines, traceLines journal = .ok lines ∧
    Replay.ofJournal initial journal = .ok ⟨t, exchanges journal, lines⟩

namespace Replays

variable {initial t u : Tableau F} {journal events : List (Event F)}

theorem append (h : Replays initial journal t) {lines : List String}
    (hiterations : events.filterMap Event.iteration? =
      List.range' (exchanges journal + 1) (exchanges events))
    (hlines : traceLines events = .ok lines)
    (hfollow : ∀ before : List String,
      (events.filterMap Event.instruction?).foldlM Replay.follow ⟨t, exchanges journal, before⟩ =
        .ok ⟨u, exchanges journal + exchanges events, before ++ lines⟩) :
    Replays initial (journal ++ events) u := by
  obtain ⟨before, hbefore, hreplay⟩ := h.replay_eq
  refine ⟨?_, before ++ lines, ?_, ?_⟩
  · rw [List.filterMap_append, h.iterations_eq, hiterations, exchanges_append, Nat.add_comm _ 1,
      List.range'_append_1]
  · unfold traceLines at hbefore hlines ⊢
    rw [List.filter_append, List.mapM_append, hbefore, hlines]
    rfl
  · unfold Replay.ofJournal at hreplay ⊢
    rw [List.filterMap_append, List.foldlM_append, hreplay, exchanges_append]
    exact hfollow before

/-- An event that says nothing to do is not told in detail. -/
theorem note (h : Replays initial journal t) {e : Event F} (hnothing : e.instruction? = none)
    (hlevel : e.level = .debug) : Replays initial (journal ++ [e]) t := by
  have hiteration : e.iteration? = none ∧ e.isExchange = false := by
    cases e with
    | exchanged _ _ _ _ => cases hnothing
    | _ => exact ⟨rfl, rfl⟩
  have hexchanges : exchanges [e] = 0 := by
    rw [exchanges_cons, hiteration.2]
    rfl
  have hlines : traceLines [e] = .ok [] := by
    simp only [traceLines, List.filter_cons, hlevel]
    rfl
  refine h.append ?_ hlines fun before => ?_
  · rw [hexchanges, List.filterMap_cons_none hiteration.1]
    rfl
  · rw [hexchanges, List.filterMap_cons_none hnothing, List.append_nil]
    rfl

/-- Leaving the first phase. -/
theorem leave (h : Replays initial journal t) {removed labels : List Label}
    (hreduce : t.reduce = .ok ⟨u, removed⟩) :
    Replays initial (journal ++ [.removed labels]) u := by
  have hlines : traceLines [(.removed labels : Event F)] = .ok [] := rfl
  refine h.append rfl hlines fun before => ?_
  have hfollow : Replay.follow ⟨t, exchanges journal, before⟩ .leave =
      .ok ⟨u, exchanges journal, before⟩ := by
    simp only [Replay.follow, hreduce]
    rfl
  rw [List.append_nil]
  exact Fault.bind_eq_ok_iff.mpr ⟨_, hfollow, rfl⟩

/-- One more pivot, where labels are unique. -/
theorem exchange (h : Replays initial journal t) (hnodup : t.labels.Nodup) {row column : Nat}
    {entering leaving : Label} (hentering : t.label column = .ok entering)
    (hleaving : t.basicLabel row = .ok leaving) (hpivot : t.pivot row column = .ok u)
    (hshape : u.WellShaped) :
    Replays initial
      (journal ++ [.exchanged (exchanges journal + 1) entering row leaving, .reached u]) u := by
  obtain ⟨text, htext⟩ := hshape.exists_render
  have hcolumn : t.columnNamed entering.text = .ok column :=
    Tableau.columnNamed_text (Tableau.columnOf?_of_label_eq hnodup hentering)
  have htold : (Event.reached u).line = .ok ("TRACE " ++ text) :=
    Fault.bind_eq_ok_iff.mpr ⟨text, htext, rfl⟩
  have hlines : traceLines [.exchanged (exchanges journal + 1) entering row leaving, .reached u] =
      .ok [exchangeLine (exchanges journal + 1) entering.text row leaving.text,
        "TRACE " ++ text] := by
    show [_, Event.reached u].mapM Event.line = _
    rw [List.mapM_cons, List.mapM_cons, htold]
    rfl
  refine h.append rfl hlines fun before => ?_
  have hfollow : Replay.follow ⟨t, exchanges journal, before⟩ (.exchange entering.text row) =
      .ok ⟨u, exchanges journal + 1, before ++
        [exchangeLine (exchanges journal + 1) entering.text row leaving.text,
          "TRACE " ++ text]⟩ := by
    refine Fault.bind_eq_ok_iff.mpr ⟨column, hcolumn, ?_⟩
    refine Fault.bind_eq_ok_iff.mpr ⟨leaving, hleaving, ?_⟩
    refine Fault.bind_eq_ok_iff.mpr ⟨u, hpivot, ?_⟩
    exact Fault.bind_eq_ok_iff.mpr ⟨text, htext, rfl⟩
  exact Fault.bind_eq_ok_iff.mpr ⟨_, hfollow, rfl⟩

end Replays

/-! ## Runs -/

/-- A run whose journal can be replayed up to where it is, and further on. -/
structure Progress.Replayed (initial : Tableau F) (p : Progress F) : Prop where
  wellShaped : p.tableau.WellShaped
  nodup_labels : p.tableau.labels.Nodup
  replays : Replays initial p.journal p.tableau

section Runs

variable {initial : Tableau F} {limit : Nat} {p q : Progress F} {stage : Stage F}

namespace Progress

theorem Replayed.record (h : p.Replayed initial) {e : Event F} (hnothing : e.instruction? = none)
    (hlevel : e.level = .debug) : (p.record e).Replayed initial where
  wellShaped := h.wellShaped
  nodup_labels := h.nodup_labels
  replays := by
    rw [journal_record]
    exact h.replays.note hnothing hlevel

/-- The record of an exchange has the next number if all iterations so far made an
exchange. -/
theorem IsExchange.replayed {row column : Nat} (h : p.IsExchange row column q)
    (hp : p.Replayed initial) (htallied : p.Tallied limit) (hrow : row ∈ p.tableau.constraintRows)
    (hcolumn : column < p.tableau.width) : q.Replayed initial := by
  obtain ⟨entering, leaving, hentering, hleaving, hjournal⟩ := h.exists_journal_eq
  have hreplaces := hp.wellShaped.replaces_of_pivot_eq hrow hcolumn h.pivot_eq
  have hshape := hreplaces.wellShaped hp.wellShaped hcolumn
  have hnumber : q.iterations = exchanges p.journal + 1 := by
    rw [h.iterations_eq, htallied.iterations_eq, exchanges_journal]
  refine ⟨hshape, hreplaces.sameFrame.labels_eq ▸ hp.nodup_labels, ?_⟩
  rw [hjournal, hnumber]
  exact hp.replays.exchange hp.nodup_labels hentering hleaving h.pivot_eq hshape

theorem Replayed.count (h : p.Replayed initial) : p.count.Replayed initial :=
  ⟨h.wellShaped, h.nodup_labels, h.replays⟩

/-- Columns are removed together with their labels. -/
theorem Replayed.leaveFeasibility (h : p.Replayed initial) (hphase : p.tableau.phase = .feasibility)
    (hleave : p.leaveFeasibility = .ok q) : q.Replayed initial := by
  obtain ⟨q', hq', hreduction, -, hevents⟩ := p.leaveFeasibility_spec h.wellShaped hphase
  obtain rfl := Except.ok.inj (hleave.symm.trans hq')
  obtain ⟨removed, -, hreduce, -⟩ := exists_of_leaveFeasibility_eq hleave
  refine ⟨hreduction.wellShaped h.wellShaped, ?_, ?_⟩
  · rw [hreduction.labels_eq]
    exact h.nodup_labels.sublist (dropPositions_sublist _ _)
  · rw [journal, hevents, List.reverse_cons]
    exact h.replays.leave hreduce

end Progress

theorem Pivoting.replayed (h : Pivoting limit p stage) (hp : p.Replayed initial)
    (htallied : p.Tallied limit) : stage.progress.Replayed initial := by
  induction h with
  | optimal _ => exact hp
  | exhausted _ _ => exact hp.count
  | unlimited _ _ _ => exact hp.count
  | exchange hj hlimit hrow hexchange _ ih =>
    have hwidth := hp.wellShaped.lt_width_of_mem hj.1
    have hconstraint := hp.wellShaped.mem_constraintRows_of_leavingRow? hwidth hrow
    exact ih (hexchange.replayed hp htallied hconstraint hwidth) (hexchange.tallied htallied hlimit)

theorem FeasibilityRun.replayed (h : FeasibilityRun limit p stage) (hp : p.Replayed initial)
    (htallied : p.Tallied limit) : stage.progress.Replayed initial := by
  have hbegun : (p.record (.feasibilityStarted p.tableau.artificials)).Replayed initial :=
    hp.record rfl rfl
  have hcounted : (p.record (.feasibilityStarted p.tableau.artificials)).Tallied limit :=
    htallied.record rfl
  cases h with
  | stopped hpivoting => exact hpivoting.replayed hbegun hcounted
  | reached hpivoting _ _ => exact (hpivoting.replayed hbegun hcounted).record rfl rfl
  | missed hpivoting _ _ => exact (hpivoting.replayed hbegun hcounted).record rfl rfl

theorem OptimalityRun.replayed (h : OptimalityRun limit p stage) (hp : p.Replayed initial)
    (htallied : p.Tallied limit) : stage.progress.Replayed initial := by
  have hbegun : (p.record (.optimalityStarted p.tableau)).Replayed initial := hp.record rfl rfl
  have hcounted : (p.record (.optimalityStarted p.tableau)).Tallied limit := htallied.record rfl
  cases h with
  | stopped hpivoting => exact hpivoting.replayed hbegun hcounted
  | reached hpivoting => exact (hpivoting.replayed hbegun hcounted).record rfl rfl

theorem PhasesRun.replayed (h : PhasesRun limit p stage) (hp : p.Replayed initial)
    (htallied : p.Tallied limit) (hbefore : ∀ e ∈ p.events, e.startsOptimality = false) :
    stage.progress.Replayed initial := by
  cases h with
  | direct _ hoptimality => exact hoptimality.replayed hp htallied
  | stopped _ hfeasibility => exact hfeasibility.replayed hp htallied
  | both hphase hfeasibility hleave hoptimality =>
    have hstays := (hfeasibility.wellShaped hp.wellShaped).2
    have hend : Progress.Tallied limit _ := hfeasibility.tallied htallied hbefore
    have hleft := (hfeasibility.replayed hp htallied).leaveFeasibility (hstays.trans hphase) hleave
    exact hoptimality.replayed hleft (hend.leaveFeasibility hleave)

end Runs

/-! ## The result -/

section Reports

variable {p : Problem F} {settings : Settings F} {report : Report F}

theorem Progress.replayed_start {initial : Tableau F} {problem : Problem F}
    (h : initial.IsInitial problem) {e : Event F} (hnothing : e.instruction? = none)
    (hlevel : e.level = .debug) : (Progress.start initial e).Replayed initial := by
  refine ⟨h.wellShaped, h.labels_eq ▸ problem.layout.nodup_labels, ?_⟩
  have hempty : Replays initial ([] : List (Event F)) initial := ⟨rfl, [], rfl, rfl⟩
  exact hempty.note hnothing hlevel

/-- What is solved can be replayed to the tableau that is reported. -/
theorem Solving.replays (h : Solving p settings report) {final : Tableau F}
    (hfinal : report.tableau? = some final) :
    ∃ initial, Tableau.initial p.standardize settings.tolerance = .ok initial ∧
      Replays initial report.journal final := by
  have hrun : ∀ {initial : Tableau F} {stage : Stage F},
      Tableau.initial p.standardize settings.tolerance = .ok initial →
      PhasesRun settings.maxIterations (.start initial
        (.started p.goal p.objective.variableCount p.constraints.length initial)) stage →
      stage.progress.Replayed initial := by
    intro initial stage hinitial hphases
    refine hphases.replayed (Progress.replayed_start (Tableau.isInitial_of_initial_eq hinitial).2
      rfl rfl) (Progress.tallied_start _ _ rfl) ?_
    exact List.forall_mem_singleton.mpr rfl
  cases h with
  | malformed m _ => cases hfinal
  | failed hinitial hphases =>
    obtain rfl := Option.some.inj hfinal
    exact ⟨_, hinitial, (hrun hinitial hphases).replays⟩
  | solved hinitial hphases hsolution =>
    obtain rfl := Option.some.inj hfinal
    exact ⟨_, hinitial, ((hrun hinitial hphases).record rfl rfl).replays⟩

omit [DecimalText F] in
theorem Solving.exists_tableau_of_ne_malformed (h : Solving p settings report)
    (hresult : ∀ m, report.result ≠ .error (.malformedInput m)) :
    ∃ final, report.tableau? = some final ∧
      ∀ solution, report.result = .ok solution → final.solution p.objective = .ok solution := by
  cases h with
  | malformed m _ => exact absurd rfl (hresult m)
  | failed _ _ => exact ⟨_, rfl, nofun⟩
  | solved _ _ hsolution =>
    refine ⟨_, rfl, fun solution hsolved => ?_⟩
    obtain rfl := Except.ok.inj hsolved
    exact hsolution

end Reports

/-- Unless an input is malformed, the log of a solver can be replayed from the initial
tableau of the standard form, in whatever way the solver ends.  The records of exchanges
are numbered from one on through both phases, up to the number of pivots; whoever makes
these pivots and leaves the first phase where the log does, tells the same lines and
arrives at the tableau that is reported, and at the solution if there is one. -/
theorem Solver.optimize_replay {s : Solver F} {p : Problem F}
    (hpassed : ∀ m, s.answer? p ≠ some (.error (.malformedInput m))) :
    ∃ report initial final lines,
      s.optimize p = .ok (report, { s with iterations := report.iterations }) ∧
      Tableau.initial p.standardize s.settings.tolerance = .ok initial ∧
      report.tableau? = some final ∧ traceLines report.journal = .ok lines ∧
      report.journal.filterMap Event.iteration? =
        List.range' 1 (pivots report.journal).length ∧
      Replay.ofJournal initial report.journal =
        .ok ⟨final, (pivots report.journal).length, lines⟩ ∧
      ∀ solution, report.result = .ok solution → final.solution p.objective = .ok solution := by
  obtain ⟨report, hanswer, hsolving⟩ := s.optimize_spec p
  have hresult : ∀ m, report.result ≠ .error (.malformedInput m) := by
    intro m hmalformed
    apply hpassed m
    rw [answer?_eq_of_optimize_eq hanswer, hmalformed]
  obtain ⟨final, hfinal, hsolution⟩ := hsolving.exists_tableau_of_ne_malformed hresult
  obtain ⟨initial, hinitial, hreplays⟩ := hsolving.replays hfinal
  obtain ⟨lines, hlines, hreplay⟩ := hreplays.replay_eq
  have hpivots : (pivots report.journal).length = exchanges report.journal :=
    (hsolving.recounts hfinal).length_eq
  refine ⟨report, initial, final, lines, hanswer, hinitial, hfinal, hlines, ?_, ?_, hsolution⟩
  · rw [hpivots]
    exact hreplays.iterations_eq
  · rw [hpivots]
    exact hreplay

/-- Exact numbers are written as fractions, and rounded in tables. -/
instance : DecimalText ℚ where
  shortest x := toString x
  fixed places x :=
    let rounded := Decimal.roundHalfEven (x.num.natAbs * Nat.pow 10 places) x.den
    let unsigned := Decimal.joinParts (Decimal.withPoint places (Decimal.digits rounded))
    String.ofList (if x < 0 then '-' :: unsigned else unsigned)

/-- The last of three pivots is made where three columns have been removed. -/
theorem Solver.optimize_replay_mixedProblem :
    ∃ (report : Report ℚ) (initial final : Tableau ℚ) (lines : List String),
      Tableau.initial mixedProblem.standardize 0 = .ok initial ∧
      report.journal.filterMap Event.instruction? =
        [.exchange "x1" 4, .exchange "x0" 3, .leave, .exchange "s1" 1] ∧
      lines.head? = some "TRACE Iteration 1: x1 enters in row 4, a1 leaves" ∧
      Replay.ofJournal initial report.journal = .ok ⟨final, 3, lines⟩ ∧
      final.solution mixedProblem.objective = .ok ⟨[1, 3], 10⟩ := by
  have htold : ((create ⟨0, 10⟩ .steepest).optimize mixedProblem).toOption.bind (fun answer =>
      (traceLines answer.1.journal).toOption.map fun lines =>
        (answer.1.journal.filterMap Event.instruction?, (pivots answer.1.journal).length,
          lines.head?)) =
      some ([.exchange "x1" 4, .exchange "x0" 3, .leave, .exchange "s1" 1], 3,
        some "TRACE Iteration 1: x1 enters in row 4, a1 leaves") := by
    decide +kernel
  obtain ⟨report, initial, final, lines, hoptimize, hinitial, -, hlines, -, hreplay, hsolution⟩ :=
    optimize_replay fun m hmalformed => by cases answer?_mixedProblem.symm.trans hmalformed
  rw [hoptimize] at htold
  change (traceLines report.journal).toOption.map _ = _ at htold
  rw [hlines] at htold
  obtain ⟨hinstructions, hrest⟩ := Prod.mk.inj (Option.some.inj htold)
  obtain ⟨hpivots, hhead⟩ := Prod.mk.inj hrest
  rw [hpivots] at hreplay
  exact ⟨report, initial, final, lines, hinitial, hinstructions, hhead, hreplay,
    hsolution _ (result_eq_of_answer?_eq hoptimize answer?_mixedProblem)⟩

end PrimalSimplex
