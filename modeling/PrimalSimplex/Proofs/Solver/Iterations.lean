/-
  `Proofs.Solver.Iterations`: what the number of iterations says.

  An iteration is counted when its column is known and tells of its exchange when it
  has made one, so count and exchanges differ by the one iteration that a run ends
  in, if it ends in one.  This is so whatever the numbers are: it is an invariant of
  the exchanges of a phase, and the change between the phases neither counts nor
  exchanges.
-/
import Mathlib.Data.List.TakeWhile
import PrimalSimplex.Proofs.Solver.Visited

set_option autoImplicit false

namespace PrimalSimplex

variable {F : Type}

/-! ## Counting exchanges -/

namespace Event

/-- Whether the event tells of an exchange. -/
def isExchange : Event F → Bool
  | exchanged .. => true
  | _ => false

/-- Whether the second phase begins with the event. -/
def startsOptimality : Event F → Bool
  | optimalityStarted _ => true
  | _ => false

end Event

/-- The number of exchanges that a journal tells of. -/
def exchanges (journal : List (Event F)) : Nat :=
  journal.countP Event.isExchange

/-- The number of exchanges before the second phase. -/
def feasibilityExchanges (journal : List (Event F)) : Nat :=
  exchanges (journal.takeWhile fun e => !e.startsOptimality)

theorem exchanges_append (journal events : List (Event F)) :
    exchanges (journal ++ events) = exchanges journal + exchanges events :=
  List.countP_append

theorem exchanges_cons (e : Event F) (journal : List (Event F)) :
    exchanges (e :: journal) = exchanges journal + if e.isExchange then 1 else 0 :=
  List.countP_cons

/-- Where the second phase does not begin, all exchanges are before it. -/
theorem feasibilityExchanges_eq {journal : List (Event F)}
    (h : ∀ e ∈ journal, e.startsOptimality = false) :
    feasibilityExchanges journal = exchanges journal := by
  have hall : journal.takeWhile (fun e => !e.startsOptimality) = journal :=
    List.takeWhile_eq_self_iff.mpr fun e he => by rw [h e he]; rfl
  rw [feasibilityExchanges, hall]

/-! ## Tallies -/

namespace Progress

/-- Every iteration that was counted made an exchange, and no more were counted than
allowed. -/
structure Tallied (limit : Nat) (p : Progress F) : Prop where
  iterations_eq : p.iterations = exchanges p.events
  iterations_le : p.iterations ≤ limit

variable {limit : Nat} {p : Progress F}

theorem exchanges_journal (p : Progress F) : exchanges p.journal = exchanges p.events :=
  List.countP_reverse

/-- An event that is no exchange changes nothing. -/
theorem Tallied.record (h : p.Tallied limit) {e : Event F} (he : e.isExchange = false) :
    (p.record e).Tallied limit where
  iterations_eq := by
    show p.iterations = exchanges (e :: p.events)
    rw [exchanges_cons, he, h.iterations_eq]
    rfl
  iterations_le := h.iterations_le

theorem tallied_start (limit : Nat) (t : Tableau F) {e : Event F} (he : e.isExchange = false) :
    (start t e).Tallied limit where
  iterations_eq := by
    show 0 = exchanges [e]
    rw [exchanges_cons, he]
    rfl
  iterations_le := Nat.zero_le limit

end Progress

/-- The count at the end of a part of a run is as the reason for the end says: the
iteration that finds no row is counted, and so is the one that is not allowed. -/
def Stage.Tallied (limit : Nat) (s : Stage F) : Prop :=
  match s.failure? with
  | none => s.progress.Tallied limit
  | some .infeasible =>
    s.progress.Tallied limit ∧ ∀ e ∈ s.progress.events, e.startsOptimality = false
  | some .unbounded =>
    s.progress.iterations = exchanges s.progress.events + 1 ∧ s.progress.iterations ≤ limit
  | some (.iterationLimitExceeded count) =>
    count = s.progress.iterations ∧ s.progress.iterations = limit + 1 ∧
      exchanges s.progress.events = limit
  | some (.malformedInput _) => False

variable [Scalar F]

theorem Progress.IsExchange.tallied {limit : Nat} {p q : Progress F} {row column : Nat}
    (h : p.IsExchange row column q) (hp : p.Tallied limit) (hlimit : p.iterations < limit) :
    q.Tallied limit := by
  obtain ⟨entering, leaving, _, _, hevents⟩ := h.events_eq
  have hone : exchanges q.events = exchanges p.events + 1 := by
    rw [hevents, exchanges_cons, exchanges_cons]
    rfl
  have hnext := h.iterations_eq
  have hbefore := hp.iterations_eq
  exact ⟨by omega, by omega⟩

theorem Pivoting.tallied {limit : Nat} {p : Progress F} {stage : Stage F}
    (h : Pivoting limit p stage) (hp : p.Tallied limit) : stage.Tallied limit := by
  induction h with
  | optimal _ => exact hp
  | @exhausted p j _ hlimit =>
    have hexchanges := hp.iterations_eq
    have hcounted : p.iterations = limit := Nat.le_antisymm hp.iterations_le hlimit
    exact ⟨rfl, congrArg (· + 1) hcounted, hexchanges.symm.trans hcounted⟩
  | unlimited _ hlimit _ => exact ⟨congrArg (· + 1) hp.iterations_eq, hlimit⟩
  | exchange _ hlimit _ hexchange _ ih => exact ih (hexchange.tallied hp hlimit)

/-- Exchanges do not begin the second phase. -/
theorem Pivoting.startsOptimality_eq_false {limit : Nat} {p : Progress F} {stage : Stage F}
    (h : Pivoting limit p stage) (hp : ∀ e ∈ p.events, e.startsOptimality = false) :
    ∀ e ∈ stage.progress.events, e.startsOptimality = false := by
  induction h with
  | optimal _ => exact hp
  | exhausted _ _ => exact hp
  | unlimited _ _ _ => exact hp
  | exchange _ _ _ hexchange _ ih =>
    obtain ⟨entering, leaving, _, _, hevents⟩ := hexchange.events_eq
    apply ih
    rw [hevents]
    exact List.forall_mem_cons.mpr ⟨rfl, List.forall_mem_cons.mpr ⟨rfl, hp⟩⟩

/-! ## Phases -/

theorem FeasibilityRun.tallied {limit : Nat} {p : Progress F} {stage : Stage F}
    (h : FeasibilityRun limit p stage) (hp : p.Tallied limit)
    (hbefore : ∀ e ∈ p.events, e.startsOptimality = false) : stage.Tallied limit := by
  have hbegun : (p.record (.feasibilityStarted p.tableau.artificials)).Tallied limit :=
    hp.record rfl
  cases h with
  | stopped hpivoting => exact hpivoting.tallied hbegun
  | reached hpivoting _ _ =>
    have hend : Progress.Tallied limit _ := hpivoting.tallied hbegun
    exact hend.record rfl
  | missed hpivoting _ _ =>
    have hend : Progress.Tallied limit _ := hpivoting.tallied hbegun
    have hevents := hpivoting.startsOptimality_eq_false (List.forall_mem_cons.mpr ⟨rfl, hbefore⟩)
    exact ⟨hend.record rfl, List.forall_mem_cons.mpr ⟨rfl, hevents⟩⟩

theorem OptimalityRun.tallied {limit : Nat} {p : Progress F} {stage : Stage F}
    (h : OptimalityRun limit p stage) (hp : p.Tallied limit) : stage.Tallied limit := by
  have hbegun : (p.record (.optimalityStarted p.tableau)).Tallied limit := hp.record rfl
  cases h with
  | stopped hpivoting => exact hpivoting.tallied hbegun
  | reached hpivoting =>
    have hend : Progress.Tallied limit _ := hpivoting.tallied hbegun
    exact hend.record rfl

/-- Leaving the first phase counts nothing and exchanges nothing. -/
theorem Progress.Tallied.leaveFeasibility {limit : Nat} {p next : Progress F}
    (h : p.Tallied limit) (hleave : p.leaveFeasibility = .ok next) : next.Tallied limit := by
  obtain ⟨⟨u, removed⟩, _, hnext⟩ := Fault.bind_eq_ok_iff.mp hleave
  obtain rfl := Except.ok.inj hnext
  refine ⟨?_, h.iterations_le⟩
  show p.iterations = exchanges ((Reduction.mk u removed).events.reverse ++ p.events)
  have hnone : exchanges (Reduction.mk u removed).events.reverse = 0 := by
    unfold Reduction.events
    split
    · rfl
    · rfl
  rw [exchanges_append, hnone, Nat.zero_add, h.iterations_eq]

theorem PhasesRun.tallied {limit : Nat} {p : Progress F} {stage : Stage F}
    (h : PhasesRun limit p stage) (hp : p.Tallied limit)
    (hbefore : ∀ e ∈ p.events, e.startsOptimality = false) : stage.Tallied limit := by
  cases h with
  | direct _ hoptimality => exact hoptimality.tallied hp
  | stopped _ hfeasibility => exact hfeasibility.tallied hp hbefore
  | both _ hfeasibility hleave hoptimality =>
    have hend : Progress.Tallied limit _ := hfeasibility.tallied hp hbefore
    exact hoptimality.tallied (hend.leaveFeasibility hleave)

/-! ## Reports -/

/-- The number of iterations in a report is as its result says. -/
def Report.Tallied (limit : Nat) (r : Report F) : Prop :=
  match r.result with
  | .ok _ => r.iterations = exchanges r.journal ∧ r.iterations ≤ limit
  | .error .infeasible => r.iterations = feasibilityExchanges r.journal ∧ r.iterations ≤ limit
  | .error .unbounded => r.iterations = exchanges r.journal + 1 ∧ r.iterations ≤ limit
  | .error (.iterationLimitExceeded count) =>
    count = r.iterations ∧ r.iterations = limit + 1 ∧ exchanges r.journal = limit
  | .error (.malformedInput _) => r.iterations = 0

omit [Scalar F] in
theorem Report.Tallied.iterations_le {limit : Nat} {r : Report F} (h : r.Tallied limit) :
    r.iterations ≤ limit + 1 := by
  unfold Report.Tallied at h
  split at h
  · omega
  · omega
  · omega
  · omega
  · omega

theorem Solving.tallied {p : Problem F} {settings : Settings F} {report : Report F}
    (h : Solving p settings report) : report.Tallied settings.maxIterations := by
  have hstart (t : Tableau F) : (Progress.start t (.started p.goal p.objective.variableCount
      p.constraints.length t)).Tallied settings.maxIterations :=
    Progress.tallied_start _ t rfl
  have hbefore (t : Tableau F) : ∀ e ∈ (Progress.start t (.started p.goal
      p.objective.variableCount p.constraints.length t)).events, e.startsOptimality = false :=
    List.forall_mem_singleton.mpr rfl
  cases h with
  | malformed m _ => exact rfl
  | @failed initial f q _ hrun =>
    have hend := hrun.tallied (hstart initial) (hbefore initial)
    cases f with
    | infeasible =>
      obtain ⟨htallied, hevents⟩ := hend
      have hjournal : ∀ e ∈ q.journal, e.startsOptimality = false :=
        fun e he => hevents e (List.mem_reverse.mp he)
      refine ⟨?_, htallied.iterations_le⟩
      show q.iterations = feasibilityExchanges q.journal
      rw [feasibilityExchanges_eq hjournal, q.exchanges_journal, htallied.iterations_eq]
    | unbounded =>
      obtain ⟨hcount, hle⟩ := hend
      exact ⟨hcount.trans (congrArg (· + 1) q.exchanges_journal.symm), hle⟩
    | iterationLimitExceeded count =>
      obtain ⟨hcount, hlimit, hexchanges⟩ := hend
      exact ⟨hcount, hlimit, q.exchanges_journal.trans hexchanges⟩
    | malformedInput m => exact hend.elim
  | @solved initial solution q _ hrun _ =>
    have hend : Progress.Tallied _ _ := hrun.tallied (hstart initial) (hbefore initial)
    have hrecorded := hend.record (e := .optimum solution.value q.iterations) rfl
    exact ⟨hrecorded.iterations_eq.trans (Progress.exchanges_journal _).symm,
      hrecorded.iterations_le⟩

end PrimalSimplex
