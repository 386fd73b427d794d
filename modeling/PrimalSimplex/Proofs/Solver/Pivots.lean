/-
  `Proofs.Solver.Pivots`: the pivots of a run, with the tableaus around them.

  A journal tells of an exchange before it tells of the tableau that the exchange has
  led to, and of the tableau before that earlier still.  Read from the beginning, it
  yields all pivots in order.  Each of them was made by the rules, those of a phase
  follow upon one another, and there are as many as exchanges.  So what is said about
  pivots is said about everything the loop of either phase has done.
-/
import PrimalSimplex.Proofs.Solver.Iterations

set_option autoImplicit false

namespace PrimalSimplex

variable {F : Type}

/-! ## Reading a journal -/

/-- A pivot: the tableau before it, its row, and the tableau after it. -/
structure Pivot (F : Type) where
  before : Tableau F
  row : Nat
  after : Tableau F

/-- What has been read of a journal so far. -/
structure Reading (F : Type) where
  /-- The tableau that was told of last. -/
  current? : Option (Tableau F)
  /-- The row of the exchange that was told of last, if its tableau is still to come. -/
  row? : Option Nat
  pivots : List (Pivot F)

namespace Reading

/-- Nothing has been read. -/
def start : Reading F := ⟨none, none, []⟩

/-- The pivot that leads to a tableau, if an exchange was told of. -/
def pivot? (r : Reading F) (u : Tableau F) : Option (Pivot F) :=
  r.current?.bind fun t => r.row?.map fun row => ⟨t, row, u⟩

/-- Reads one more event. -/
def read (r : Reading F) : Event F → Reading F
  | .exchanged _ _ row _ => { r with row? := some row }
  | .reached u => ⟨some u, none, r.pivots ++ (r.pivot? u).toList⟩
  | .started _ _ _ u | .optimalityStarted u => ⟨some u, none, r.pivots⟩
  | _ => r

/-- Reads a journal. -/
def ofJournal (journal : List (Event F)) : Reading F := journal.foldl read start

theorem ofJournal_append (journal events : List (Event F)) :
    ofJournal (journal ++ events) = events.foldl read (ofJournal journal) :=
  List.foldl_append

theorem read_of_isNote (r : Reading F) {e : Event F} (he : e.isNote = true) : r.read e = r := by
  cases e with
  | started _ _ _ _ => cases he
  | exchanged _ _ _ _ => cases he
  | reached _ => cases he
  | optimalityStarted _ => cases he
  | _ => rfl

end Reading

/-- The pivots that a journal tells of, in order. -/
def pivots (journal : List (Event F)) : List (Pivot F) := (Reading.ofJournal journal).pivots

/-- The pivots of one phase. -/
def pivotsIn (phase : Phase) (journal : List (Event F)) : List (Pivot F) :=
  (pivots journal).filter fun x => x.before.phase = phase

/-- There are two phases. -/
theorem length_pivotsIn_add {phase other : Phase} (h : other ≠ phase) (journal : List (Event F)) :
    (pivotsIn phase journal).length + (pivotsIn other journal).length =
      (pivots journal).length := by
  have hother : pivotsIn other journal =
      (pivots journal).filter fun x => !decide (x.before.phase = phase) := by
    refine List.filter_congr fun x _ => ?_
    rw [← decide_not, decide_eq_decide]
    cases x.before.phase <;> cases phase <;> cases other <;> simp at h ⊢
  rw [hother, pivotsIn]
  exact (List.length_eq_length_filter_add _).symm

theorem exchanges_of_isNote {e : Event F} (he : e.isNote = true) : exchanges [e] = 0 := by
  cases e with
  | started _ _ _ _ => cases he
  | exchanged _ _ _ _ => cases he
  | reached _ => cases he
  | optimalityStarted _ => cases he
  | _ => rfl

variable [Scalar F]

/-- The rules have chosen the column and the row, and the pivot has succeeded. -/
def Pivot.IsMade (x : Pivot F) : Prop :=
  ∃ column, x.before.IsProfitable column ∧ x.before.leavingRow? column = .ok (some x.row) ∧
    x.before.pivot x.row column = .ok x.after

/-! ## The pivots of a run -/

/-- A journal tells of all pivots that have led to a tableau. -/
structure Recounts (journal : List (Event F)) (t : Tableau F) : Prop where
  current_eq : (Reading.ofJournal journal).current? = some t
  mem_visited : t ∈ visited journal
  made : ∀ x ∈ pivots journal, x.IsMade ∧ x.before ∈ visited journal
  isChain : ∀ phase, (pivotsIn phase journal).IsChain fun x y => x.after = y.before
  last_eq : ∀ x ∈ (pivotsIn t.phase journal).getLast?, x.after = t
  first_phase : t.phase = .feasibility → pivotsIn .optimality journal = []
  length_eq : (pivots journal).length = exchanges journal

namespace Recounts

variable {journal : List (Event F)} {s t u : Tableau F}

omit [Scalar F] in
theorem visited_subset_append (journal events : List (Event F)) :
    visited journal ⊆ visited (journal ++ events) := by
  rw [visited_append]
  exact List.subset_append_left _ _

/-- A run begins without pivots. -/
theorem started (goal : Goal) (variableCount constraintCount : Nat) (t : Tableau F) :
    Recounts [.started goal variableCount constraintCount t] t :=
  ⟨rfl, List.mem_singleton_self t, nofun, fun _ => .nil, nofun, fun _ => rfl, rfl⟩

/-- Without a new pivot, the tableau stays the same or is the first of the second
phase. -/
theorem append_of_pivots_eq (h : Recounts journal t) {events : List (Event F)}
    (hcurrent : (Reading.ofJournal (journal ++ events)).current? = some u)
    (hpivots : pivots (journal ++ events) = pivots journal)
    (hmem : u ∈ visited (journal ++ events)) (hexchanges : exchanges events = 0)
    (hfrom : t = u ∨ t.phase = .feasibility ∧ u.phase = .optimality) :
    Recounts (journal ++ events) u := by
  have hin : ∀ phase, pivotsIn phase (journal ++ events) = pivotsIn phase journal := by
    intro phase
    rw [pivotsIn, hpivots, pivotsIn]
  refine ⟨hcurrent, hmem, fun x hx => ?_, fun phase => hin phase ▸ h.isChain phase, ?_, ?_, ?_⟩
  · obtain ⟨hmade, hbefore⟩ := h.made x (hpivots ▸ hx)
    exact ⟨hmade, visited_subset_append journal events hbefore⟩
  · rw [hin]
    rcases hfrom with rfl | ⟨hfirst, hsecond⟩
    · exact h.last_eq
    · rw [hsecond, h.first_phase hfirst]
      exact nofun
  · rw [hin]
    rcases hfrom with rfl | ⟨_, hsecond⟩
    · exact h.first_phase
    · rw [hsecond]
      exact nofun
  · rw [hpivots, exchanges_append, hexchanges]
    exact h.length_eq

/-- A note tells of no pivot. -/
theorem note (h : Recounts journal t) {e : Event F} (he : e.isNote = true) :
    Recounts (journal ++ [e]) t := by
  have hreading : Reading.ofJournal (journal ++ [e]) = Reading.ofJournal journal := by
    rw [Reading.ofJournal_append]
    exact Reading.read_of_isNote _ he
  exact h.append_of_pivots_eq (hreading ▸ h.current_eq) (congrArg Reading.pivots hreading)
    (visited_subset_append journal [e] h.mem_visited) (exchanges_of_isNote he) (.inl rfl)

/-- Neither does the beginning of the second phase. -/
theorem begin (h : Recounts journal t)
    (hfrom : t = u ∨ t.phase = .feasibility ∧ u.phase = .optimality) :
    Recounts (journal ++ [.optimalityStarted u]) u := by
  have hreading : Reading.ofJournal (journal ++ [.optimalityStarted u]) =
      ⟨some u, none, pivots journal⟩ := by
    rw [Reading.ofJournal_append]
    rfl
  refine h.append_of_pivots_eq (congrArg Reading.current? hreading) ?_ ?_ rfl hfrom
  · rw [pivots, hreading]
  · rw [visited_append]
    exact List.mem_append_right _ (List.mem_singleton_self u)

/-- An exchange is one more pivot of its phase. -/
theorem exchange (h : Recounts journal t) {row : Nat} (iteration : Nat)
    (entering leaving : Column.Label) (hmade : (Pivot.mk t row u).IsMade) :
    Recounts (journal ++ [.exchanged iteration entering row leaving, .reached u]) u := by
  have hreading :
      Reading.ofJournal (journal ++ [.exchanged iteration entering row leaving, .reached u]) =
        ⟨some u, none, pivots journal ++ [⟨t, row, u⟩]⟩ := by
    rw [Reading.ofJournal_append]
    show Reading.mk _ _ (pivots journal ++ (((Reading.ofJournal journal).current?.bind fun t =>
      some (Pivot.mk t row u))).toList) = _
    rw [h.current_eq]
    rfl
  have hpivots : pivots (journal ++ [.exchanged iteration entering row leaving, .reached u]) =
      pivots journal ++ [⟨t, row, u⟩] := congrArg Reading.pivots hreading
  have hphase : u.phase = t.phase := by
    obtain ⟨_, _, _, hpivot⟩ := hmade
    exact Tableau.phase_eq_of_pivot_eq hpivot
  have hin : ∀ phase,
      pivotsIn phase (journal ++ [.exchanged iteration entering row leaving, .reached u]) =
        pivotsIn phase journal ++ if t.phase = phase then [⟨t, row, u⟩] else [] := by
    intro phase
    rw [pivotsIn, hpivots, List.filter_append, pivotsIn, List.filter_singleton]
    simp only [Bool.cond_decide]
  refine ⟨congrArg Reading.current? hreading, ?_, fun x hx => ?_, fun phase => ?_, ?_, ?_, ?_⟩
  · rw [visited_append]
    exact List.mem_append_right _ (List.mem_singleton_self u)
  · rw [hpivots] at hx
    rcases List.mem_append.mp hx with hx | hx
    · obtain ⟨hmade, hbefore⟩ := h.made x hx
      exact ⟨hmade, visited_subset_append journal _ hbefore⟩
    · obtain rfl := List.mem_singleton.mp hx
      exact ⟨hmade, visited_subset_append journal _ h.mem_visited⟩
  · rw [hin]
    split
    · rename_i hsame
      subst hsame
      refine (h.isChain t.phase).append (List.isChain_singleton _) fun x hx y hy => ?_
      obtain rfl := Option.some.inj hy
      exact h.last_eq x hx
    · rw [List.append_nil]
      exact h.isChain phase
  · rw [hin, hphase, if_pos rfl, List.getLast?_concat]
    intro x hx
    obtain rfl := Option.some.inj hx
    rfl
  · intro hfirst
    rw [hphase] at hfirst
    rw [hin, h.first_phase hfirst, hfirst]
    rfl
  · rw [hpivots, exchanges_append, List.length_append, h.length_eq]
    rfl

/-- The journal of a run tells of all pivots that have led to its tableau. -/
theorem maintained : Maintained (F := F) Recounts where
  note h he := h.note he
  exchange iteration entering leaving h hcolumn hrow hpivot _ _ :=
    h.exchange iteration entering leaving ⟨_, hcolumn, hrow, hpivot⟩
  begin h _ := h.begin (.inl rfl)
  leave h hphase _ _ _ hreduce :=
    h.begin (.inr ⟨hphase, Tableau.phase_eq_of_reduce_eq hreduce⟩)

end Recounts

namespace Solving

variable {p : Problem F} {settings : Settings F} {report : Report F} {final : Tableau F}

theorem recounts (h : Solving p settings report) (hfinal : report.tableau? = some final) :
    Recounts report.journal final :=
  Recounts.maintained.solving h hfinal fun initial _ => .started _ _ _ initial

/-- A run that the limit ends has made as many pivots as it allows. -/
theorem length_pivots_eq (h : Solving p settings report) (hrecounts : Recounts report.journal final)
    {count : Nat} (hresult : report.result = .error (.iterationLimitExceeded count)) :
    (pivots report.journal).length = settings.maxIterations := by
  have htallied := h.tallied
  rw [Report.Tallied, hresult] at htallied
  rw [hrecounts.length_eq, htallied.2.2]

end Solving

end PrimalSimplex
