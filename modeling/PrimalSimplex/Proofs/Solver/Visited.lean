/-
  `Proofs.Solver.Visited`: a run, tableau by tableau.

  The journal of a run holds the tableaus that the run went through.  They begin
  with the initial tableau and end with the one that is reported, and each of them
  is made from the one before by one step: an exchange that the rules allow, or
  the change to the second phase.  So what a step keeps is true of all tableaus of
  a run, in whatever way the run ends, and a proof about runs needs no more than a
  case for each step.  Nothing is asked of the numbers here.
-/
import Mathlib.Data.List.Chain
import PrimalSimplex.Proofs.Solver.Run

set_option autoImplicit false

namespace PrimalSimplex

variable {F : Type} [Scalar F]

/-! ## Steps -/

/-- A run goes from one tableau to another. -/
inductive Tableau.Advances (t : Tableau F) : Tableau F → Prop
  | exchange {u : Tableau F} {row column : Nat} (hcolumn : t.IsProfitable column)
      (hrow : t.leavingRow? column = .ok (some row)) (hpivot : t.pivot row column = .ok u) :
      Advances t u
  /-- The first phase has reached its goal and is left. -/
  | leave {u : Tableau F} {value : F} {removed : List Column.Label}
      (hphase : t.phase = .feasibility) (hoptimal : ∀ j, ¬t.IsProfitable j)
      (hvalue : t.auxiliaryValue = .ok value) (hnear : Scalar.near value 0 t.tolerance = true)
      (hreduce : t.reduce = .ok ⟨u, removed⟩) : Advances t u
  /-- There is no first phase to leave, and the second one begins. -/
  | begin (hphase : t.phase = .optimality) : Advances t t

/-! ## What a run maintains -/

/-- Whether an event is a note only, neither of an exchange nor of a tableau. -/
def Event.isNote : Event F → Bool
  | started .. | exchanged .. | reached _ | optimalityStarted _ => false
  | _ => true

/-- What is true of a journal and the tableau that it has arrived at, and stays true
with every note, every exchange and every beginning of the second phase.  An exchange
is told of by the labels of its columns. -/
structure Maintained (motive : List (Event F) → Tableau F → Prop) : Prop where
  note : ∀ {journal : List (Event F)} {t : Tableau F} {e : Event F},
    motive journal t → e.isNote = true → motive (journal ++ [e]) t
  exchange : ∀ {journal : List (Event F)} {t u : Tableau F} {row column : Nat} (iteration : Nat)
    (entering leaving : Column.Label), motive journal t → t.IsProfitable column →
    t.leavingRow? column = .ok (some row) → t.pivot row column = .ok u →
    t.label column = .ok entering → t.basicLabel row = .ok leaving →
    motive (journal ++ [.exchanged iteration entering row leaving, .reached u]) u
  begin : ∀ {journal : List (Event F)} {t : Tableau F}, motive journal t →
    t.phase = .optimality → motive (journal ++ [.optimalityStarted t]) t
  leave : ∀ {journal : List (Event F)} {t u : Tableau F} {value : F}
    {removed : List Column.Label}, motive journal t → t.phase = .feasibility →
    (∀ j, ¬t.IsProfitable j) → t.auxiliaryValue = .ok value →
    Scalar.near value 0 t.tolerance = true → t.reduce = .ok ⟨u, removed⟩ →
    motive (journal ++ [.optimalityStarted u]) u

omit [Scalar F] in
theorem Progress.journal_record (p : Progress F) (e : Event F) :
    (p.record e).journal = p.journal ++ [e] := List.reverse_cons

/-- An exchange tells which variables it exchanges, and then where it has led. -/
theorem Progress.IsExchange.exists_journal_eq {p q : Progress F} {row column : Nat}
    (h : p.IsExchange row column q) :
    ∃ entering leaving, p.tableau.label column = .ok entering ∧
      p.tableau.basicLabel row = .ok leaving ∧ q.journal =
        p.journal ++ [.exchanged q.iterations entering row leaving, .reached q.tableau] := by
  obtain ⟨entering, leaving, hentering, hleaving, hevents⟩ := h.events_eq
  refine ⟨entering, leaving, hentering, hleaving, ?_⟩
  rw [journal, hevents, List.reverse_cons, List.reverse_cons, List.append_assoc]
  rfl

/-- Leaving the first phase tells what is removed and nothing else. -/
theorem Progress.exists_of_leaveFeasibility_eq {p next : Progress F}
    (h : p.leaveFeasibility = .ok next) :
    ∃ removed notes, p.tableau.reduce = .ok ⟨next.tableau, removed⟩ ∧
      next.journal = p.journal ++ notes ∧ ∀ e ∈ notes, e.isNote = true := by
  obtain ⟨⟨u, removed⟩, hreduce, hnext⟩ := Fault.bind_eq_ok_iff.mp h
  obtain rfl := Except.ok.inj hnext
  refine ⟨removed, (Reduction.mk u removed).events, hreduce, ?_, ?_⟩
  · rw [journal, List.reverse_append, List.reverse_reverse]
    rfl
  · unfold Reduction.events
    split
    · exact nofun
    · exact List.forall_mem_singleton.mpr rfl

/-- The goal of the first phase is a tableau without a profitable column, where the
auxiliary objective is near zero. -/
theorem FeasibilityRun.goal {limit : Nat} {p q : Progress F}
    (h : FeasibilityRun limit p ⟨none, q⟩) :
    (∀ j, ¬q.tableau.IsProfitable j) ∧ ∃ value, q.tableau.auxiliaryValue = .ok value ∧
      Scalar.near value 0 q.tableau.tolerance = true := by
  cases h with
  | reached hpivoting hvalue hnear => exact ⟨hpivoting.settled, _, hvalue, hnear⟩

namespace Maintained

variable {motive : List (Event F) → Tableau F → Prop} {limit : Nat} {p : Progress F}
  {stage : Stage F}

theorem notes (h : Maintained motive) {journal notes : List (Event F)} {t : Tableau F}
    (hjournal : motive journal t) (hnotes : ∀ e ∈ notes, e.isNote = true) :
    motive (journal ++ notes) t := by
  induction notes generalizing journal with
  | nil => rwa [List.append_nil]
  | cons e notes ih =>
    obtain ⟨he, hrest⟩ := List.forall_mem_cons.mp hnotes
    rw [List.append_cons]
    exact ih (h.note hjournal he) hrest

theorem record (h : Maintained motive) {e : Event F} (hp : motive p.journal p.tableau)
    (he : e.isNote = true) : motive (p.record e).journal (p.record e).tableau := by
  rw [Progress.journal_record]
  exact h.note hp he

theorem pivoting (h : Maintained motive) (hrun : Pivoting limit p stage)
    (hp : motive p.journal p.tableau) : motive stage.progress.journal stage.progress.tableau := by
  induction hrun with
  | optimal _ => exact hp
  | exhausted _ _ => exact hp
  | unlimited _ _ _ => exact hp
  | @exchange p q stage j row hj _ hrow hexchange _ ih =>
    obtain ⟨entering, leaving, hentering, hleaving, hjournal⟩ := hexchange.exists_journal_eq
    apply ih
    rw [hjournal]
    exact h.exchange _ _ _ hp hj hrow hexchange.pivot_eq hentering hleaving

theorem feasibilityRun (h : Maintained motive) (hrun : FeasibilityRun limit p stage)
    (hp : motive p.journal p.tableau) : motive stage.progress.journal stage.progress.tableau := by
  have hbegun := h.record (e := .feasibilityStarted p.tableau.artificials) hp rfl
  cases hrun with
  | stopped hpivoting => exact h.pivoting hpivoting hbegun
  | reached hpivoting _ _ => exact h.record (h.pivoting hpivoting hbegun) rfl
  | missed hpivoting _ _ => exact h.record (h.pivoting hpivoting hbegun) rfl

theorem optimalityRun (h : Maintained motive) (hrun : OptimalityRun limit p stage)
    (hp : motive (p.journal ++ [.optimalityStarted p.tableau]) p.tableau) :
    motive stage.progress.journal stage.progress.tableau := by
  rw [← Progress.journal_record] at hp
  cases hrun with
  | stopped hpivoting => exact h.pivoting hpivoting hp
  | reached hpivoting => exact h.record (h.pivoting hpivoting hp) rfl

/-- Both phases together. -/
theorem phasesRun (h : Maintained motive) (hrun : PhasesRun limit p stage)
    (hshape : p.tableau.WellShaped) (hp : motive p.journal p.tableau) :
    motive stage.progress.journal stage.progress.tableau := by
  cases hrun with
  | direct hphase hoptimality => exact h.optimalityRun hoptimality (h.begin hp hphase)
  | stopped _ hfeasibility => exact h.feasibilityRun hfeasibility hp
  | @both q next stage hphase hfeasibility hleave hoptimality =>
    have hstays := (hfeasibility.wellShaped hshape).2
    obtain ⟨hoptimal, value, hvalue, hnear⟩ := hfeasibility.goal
    obtain ⟨removed, notes, hreduce, hjournal, hnotes⟩ :=
      Progress.exists_of_leaveFeasibility_eq hleave
    apply h.optimalityRun hoptimality
    rw [hjournal]
    exact h.leave (h.notes (h.feasibilityRun hfeasibility hp) hnotes) (hstays.trans hphase)
      hoptimal hvalue hnear hreduce

/-- What begins with the initial tableau holds of the journal and the tableau that are
reported. -/
theorem solving (h : Maintained motive) {p : Problem F} {settings : Settings F} {report : Report F}
    (hsolving : Solving p settings report) {final : Tableau F}
    (hfinal : report.tableau? = some final)
    (hstart : ∀ initial, Tableau.initial p.standardize settings.tolerance = .ok initial →
      motive [.started p.goal p.objective.variableCount p.constraints.length initial] initial) :
    motive report.journal final := by
  cases hsolving with
  | malformed m _ => cases hfinal
  | @failed initial f q hinitial hrun =>
    obtain rfl := Option.some.inj hfinal
    have hshape := (Tableau.isInitial_of_initial_eq hinitial).2.wellShaped
    exact h.phasesRun hrun hshape (hstart initial hinitial)
  | @solved initial solution q hinitial hrun hsolution =>
    obtain rfl := Option.some.inj hfinal
    have hshape := (Tableau.isInitial_of_initial_eq hinitial).2.wellShaped
    exact h.record (h.phasesRun hrun hshape (hstart initial hinitial)) rfl

end Maintained

/-! ## Journals -/

omit [Scalar F] in
theorem visited_append (journal events : List (Event F)) :
    visited (journal ++ events) = visited journal ++ visited events :=
  List.filterMap_append

omit [Scalar F] in
theorem visited_of_isNote {e : Event F} (he : e.isNote = true) : visited [e] = [] := by
  cases e with
  | started _ _ _ _ => cases he
  | exchanged _ _ _ _ => cases he
  | reached _ => cases he
  | optimalityStarted _ => cases he
  | _ => rfl

/-- The tableaus of a journal lead from one tableau to another. -/
structure Leads (journal : List (Event F)) (s t : Tableau F) : Prop where
  head_eq : (visited journal).head? = some s
  last_eq : (visited journal).getLast? = some t
  steps : (visited journal).IsChain Tableau.Advances

namespace Leads

variable {journal events : List (Event F)} {s t u : Tableau F}

theorem single {e : Event F} (he : e.tableau? = some s) : Leads [e] s s := by
  have hvisited : visited [e] = [s] := List.filterMap_cons_some he
  refine ⟨?_, ?_, ?_⟩
  · rw [hvisited]
    rfl
  · rw [hvisited]
    rfl
  · rw [hvisited]
    exact List.isChain_singleton s

/-- Events that reach no tableau change nothing. -/
theorem append_of_visited_eq_nil (h : Leads journal s t) (hevents : visited events = []) :
    Leads (journal ++ events) s t := by
  have hsame : visited (journal ++ events) = visited journal := by
    rw [visited_append, hevents, List.append_nil]
  exact ⟨hsame ▸ h.head_eq, hsame ▸ h.last_eq, hsame ▸ h.steps⟩

/-- Events that reach one more tableau go one step further. -/
theorem append_of_advances (h : Leads journal s t) (hstep : t.Advances u)
    (hevents : visited events = [u]) : Leads (journal ++ events) s u := by
  have hmore : visited (journal ++ events) = visited journal ++ [u] := by
    rw [visited_append, hevents]
  refine ⟨?_, ?_, ?_⟩
  · rw [hmore, List.head?_append, h.head_eq]
    rfl
  · rw [hmore, List.getLast?_concat]
  · rw [hmore]
    refine h.steps.append (List.isChain_singleton u) fun x hx y hy => ?_
    obtain rfl := Option.some.inj (h.last_eq.symm.trans hx)
    obtain rfl := Option.some.inj hy
    exact hstep

/-- The journal of a run always leads to its tableau. -/
theorem maintained (s : Tableau F) :
    Maintained fun (journal : List (Event F)) (t : Tableau F) => Leads journal s t where
  note h he := h.append_of_visited_eq_nil (visited_of_isNote he)
  exchange _ _ _ h hcolumn hrow hpivot _ _ :=
    h.append_of_advances (.exchange hcolumn hrow hpivot) rfl
  begin h hphase := h.append_of_advances (.begin hphase) rfl
  leave h hphase hoptimal hvalue hnear hreduce :=
    h.append_of_advances (.leave hphase hoptimal hvalue hnear hreduce) rfl

theorem mem_last (h : Leads journal s t) : t ∈ visited journal :=
  List.mem_of_getLast? h.last_eq

/-- What every step keeps holds of all tableaus, where something may be known of the
steps of this journal in particular. -/
theorem forall_visited_of_isChain {motive : Tableau F → Prop} {known : Tableau F → Tableau F → Prop}
    (h : Leads journal s t) (hknown : (visited journal).IsChain known) (hs : motive s)
    (hstep : ∀ ⦃u v : Tableau F⦄, u.Advances v → known u v → motive u → motive v) :
    ∀ u ∈ visited journal, motive u := by
  have hboth : (visited journal).IsChain fun u v => u.Advances v ∧ known u v :=
    List.isChain_iff_getElem.mpr fun k hk =>
      ⟨List.isChain_iff_getElem.mp h.steps k hk, List.isChain_iff_getElem.mp hknown k hk⟩
  refine hboth.induction motive _ (fun u v huv hu => hstep huv.1 huv.2 hu) fun hne => ?_
  rw [(List.head_eq_iff_head?_eq_some hne).mpr h.head_eq]
  exact hs

/-- What every step keeps holds of all tableaus. -/
theorem forall_visited {motive : Tableau F → Prop} (h : Leads journal s t) (hs : motive s)
    (hstep : ∀ ⦃u v : Tableau F⦄, u.Advances v → motive u → motive v) :
    ∀ u ∈ visited journal, motive u :=
  h.forall_visited_of_isChain h.steps hs fun _ _ hadvances _ hu => hstep hadvances hu

end Leads

/-! ## Reports -/

namespace Solving

variable {p : Problem F} {settings : Settings F} {report : Report F}

/-- A solver that reports a tableau began with an initial one. -/
theorem exists_initial (h : Solving p settings report) {final : Tableau F}
    (hfinal : report.tableau? = some final) :
    ∃ initial, Tableau.initial p.standardize settings.tolerance = .ok initial := by
  cases h with
  | malformed m _ => cases hfinal
  | failed hinitial _ => exact ⟨_, hinitial⟩
  | solved hinitial _ _ => exact ⟨_, hinitial⟩

/-- A solver goes from the initial tableau to the one that it reports. -/
theorem leads (h : Solving p settings report) {final : Tableau F}
    (hfinal : report.tableau? = some final) :
    ∃ initial, Tableau.initial p.standardize settings.tolerance = .ok initial ∧
      Leads report.journal initial final := by
  obtain ⟨initial, hinitial⟩ := h.exists_initial hfinal
  refine ⟨initial, hinitial, (Leads.maintained initial).solving h hfinal fun begun hbegun => ?_⟩
  obtain rfl := Except.ok.inj (hbegun.symm.trans hinitial)
  exact .single rfl

/-- What is true of the initial tableau and kept by every step holds of all tableaus, of
none if the input is malformed. -/
theorem forall_visited (h : Solving p settings report) {motive : Tableau F → Prop}
    (hstart : ∀ initial, Tableau.initial p.standardize settings.tolerance = .ok initial →
      motive initial)
    (hstep : ∀ ⦃u v : Tableau F⦄, u.Advances v → motive u → motive v) :
    ∀ t ∈ visited report.journal, motive t := by
  cases hfinal : report.tableau? with
  | none =>
    cases h with
    | malformed m _ => exact nofun
    | failed _ _ => cases hfinal
    | solved _ _ _ => cases hfinal
  | some final =>
    obtain ⟨initial, hinitial, hleads⟩ := h.leads hfinal
    exact hleads.forall_visited (hstart initial hinitial) hstep

/-- Where nothing is wrong with the input, there is a tableau to report. -/
theorem exists_tableau (h : Solving p settings report)
    (hdefects : p.defects settings.tolerance = []) (hfinite : ∀ t : Tableau F, t.isFinite = true) :
    ∃ final, report.tableau? = some final := by
  cases h with
  | malformed m hreason =>
    rcases hreason with hdefect | ⟨initial, _, hinfinite⟩
    · rw [hdefects] at hdefect
      cases hdefect
    · rw [hfinite initial] at hinfinite
      cases hinfinite
  | failed _ _ => exact ⟨_, rfl⟩
  | solved _ _ _ => exact ⟨_, rfl⟩

end Solving

end PrimalSimplex
