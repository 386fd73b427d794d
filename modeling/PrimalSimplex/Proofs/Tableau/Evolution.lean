/-
  `Proofs.Tableau.Evolution`: all tableaus that can be reached, by whatever pivots.

  A solver pivots where its rules tell it to, and leaves the first phase when it is
  done with it.  What a tableau says does not depend on that.  Below, a step is a
  pivot on any nonzero entry of a variable column in a constraint row, or leaving
  the first phase at any time; no choice is assumed to be a good one, and the
  tolerance may be any.  Every tableau that is reached shows its basis and has the
  solutions of the first one, as far as it still has columns for them.  So the
  basic solution meets the equations of all constraints exactly.
-/
import Mathlib.Algebra.Field.Rat
import Mathlib.Algebra.Order.Ring.Rat
import Mathlib.Logic.Relation
import PrimalSimplex.Proofs.Tableau.Encoding
import PrimalSimplex.Proofs.Tableau.Pivot
import PrimalSimplex.Proofs.Tableau.Reduction

set_option autoImplicit false

namespace PrimalSimplex.Tableau

open Column (Label)
open LinearForm (dot)

variable {F : Type} [Field F] [LinearOrder F]

/-! ## Steps -/

/-- A variable column was made basic in a constraint row where it has a nonzero
entry. -/
def ExchangesTo (t u : Tableau F) : Prop :=
  ∃ row ∈ t.constraintRows, ∃ column ∈ t.variableColumns, ∃ entry,
    t.entry row column = .ok entry ∧ entry ≠ 0 ∧ t.pivot row column = .ok u

/-- The first phase was left, if it had not been left before. -/
def ReducesTo (t u : Tableau F) : Prop := ∃ removed, t.reduce = .ok ⟨u, removed⟩

def StepsTo (t u : Tableau F) : Prop := t.ExchangesTo u ∨ t.ReducesTo u

/-- The second tableau is reached from the first one by exchanges. -/
def Exchanges : Tableau F → Tableau F → Prop := Relation.ReflTransGen ExchangesTo

/-- The second tableau is reached from the first one. -/
def Evolves : Tableau F → Tableau F → Prop := Relation.ReflTransGen StepsTo

theorem Exchanges.evolves {s t : Tableau F} (h : s.Exchanges t) : s.Evolves t :=
  Relation.ReflTransGen.mono (fun _ _ hstep => Or.inl hstep) s t h

/-! ## Phases -/

theorem ExchangesTo.phase_eq {t u : Tableau F} (h : t.ExchangesTo u) : u.phase = t.phase := by
  obtain ⟨row, _, column, _, _, _, _, hpivot⟩ := h
  exact phase_eq_of_pivot_eq hpivot

theorem ReducesTo.phase_eq {t u : Tableau F} (h : t.ReducesTo u) : u.phase = .optimality := by
  obtain ⟨removed, hreduce⟩ := h
  exact phase_eq_of_reduce_eq hreduce

/-- As long as the first phase lasts, there were exchanges only. -/
theorem Evolves.exchanges_of_feasibility {s t : Tableau F} (h : s.Evolves t)
    (hphase : t.phase = .feasibility) : s.Exchanges t := by
  induction h with
  | refl => exact .refl
  | tail _ hstep ih =>
    rcases hstep with hexchange | hreduces
    · exact (ih (hexchange.phase_eq ▸ hphase)).tail hexchange
    · rw [hreduces.phase_eq] at hphase
      cases hphase

/-! ## Moves -/

/-- An instruction that leads from one tableau to the next. -/
inductive Move where
  | exchange (row column : Nat)
  | reduce
  deriving DecidableEq, Repr

/-- The tableau after a move; none if the move is not a step. -/
def move? (t : Tableau F) : Move → Option (Tableau F)
  | .exchange row column =>
    if row ∈ t.constraintRows ∧ column ∈ t.variableColumns then
      (t.entry row column).toOption.bind fun entry =>
        if entry = 0 then none else (t.pivot row column).toOption
    else none
  | .reduce => t.reduce.toOption.map Reduction.tableau

/-- The tableau after several moves. -/
def follow? (t : Tableau F) (moves : List Move) : Option (Tableau F) := moves.foldlM move? t

theorem exchangesTo_of_move?_eq_some {t u : Tableau F} {row column : Nat}
    (h : t.move? (.exchange row column) = some u) : t.ExchangesTo u := by
  simp only [move?] at h
  split at h
  · rename_i hplace
    obtain ⟨entry, hentry, hmoved⟩ := Option.bind_eq_some_iff.mp h
    split at hmoved
    · cases hmoved
    · rename_i hne
      exact ⟨row, hplace.1, column, hplace.2, entry, Fault.eq_ok_of_toOption_eq_some hentry, hne,
        Fault.eq_ok_of_toOption_eq_some hmoved⟩
  · cases h

theorem stepsTo_of_move?_eq_some {t u : Tableau F} {m : Move} (h : t.move? m = some u) :
    t.StepsTo u := by
  cases m with
  | exchange row column => exact .inl (exchangesTo_of_move?_eq_some h)
  | reduce =>
    obtain ⟨⟨u, removed⟩, hreduce, rfl⟩ := Option.map_eq_some_iff.mp h
    exact .inr ⟨removed, Fault.eq_ok_of_toOption_eq_some hreduce⟩

theorem StepsTo.exists_move? {t u : Tableau F} (h : t.StepsTo u) : ∃ m, t.move? m = some u := by
  rcases h with ⟨row, hrow, column, hcolumn, entry, hentry, hne, hpivot⟩ | ⟨removed, hreduce⟩
  · refine ⟨.exchange row column, ?_⟩
    simp only [move?, if_pos (And.intro hrow hcolumn), hentry, Except.toOption, Option.bind_some,
      if_neg hne, hpivot]
  · exact ⟨.reduce, by simp only [move?, hreduce, Except.toOption, Option.map_some]⟩

/-- What is reached is what some list of moves leads to. -/
theorem evolves_iff_exists_follow? {s t : Tableau F} :
    s.Evolves t ↔ ∃ moves, s.follow? moves = some t := by
  constructor
  · intro h
    induction h with
    | refl => exact ⟨[], rfl⟩
    | tail _ hstep ih =>
      obtain ⟨moves, hmoves⟩ := ih
      obtain ⟨m, hm⟩ := hstep.exists_move?
      refine ⟨moves ++ [m], ?_⟩
      rw [follow?, List.foldlM_append]
      exact Option.bind_eq_some_iff.mpr ⟨_, hmoves, Option.bind_eq_some_iff.mpr ⟨_, hm, rfl⟩⟩
  · rintro ⟨moves, h⟩
    induction moves generalizing s with
    | nil =>
      obtain rfl := Option.some.inj h
      exact .refl
    | cons m moves ih =>
      obtain ⟨u, hm, hrest⟩ := Option.bind_eq_some_iff.mp h
      exact (ih hrest).head (stepsTo_of_move?_eq_some hm)

/-- Moves that stay in the phase are exchanges. -/
theorem exchanges_of_follow?_eq_some {s t : Tableau F} {moves : List Move}
    (hstays : Move.reduce ∉ moves) (h : s.follow? moves = some t) : s.Exchanges t := by
  induction moves generalizing s with
  | nil =>
    obtain rfl := Option.some.inj h
    exact .refl
  | cons m moves ih =>
    obtain ⟨u, hm, hrest⟩ := Option.bind_eq_some_iff.mp h
    have hexchanges : u.Exchanges t := ih (fun hmem => hstays (List.mem_cons_of_mem _ hmem)) hrest
    cases m with
    | exchange row column => exact hexchanges.head (exchangesTo_of_move?_eq_some hm)
    | reduce => exact absurd (List.mem_cons_self ..) hstays

/-! ## Inversion -/

theorem WellShaped.exists_isPivot {t u : Tableau F} (ht : t.WellShaped) (h : t.ExchangesTo u) :
    ∃ row ∈ t.constraintRows, ∃ column ∈ t.variableColumns,
      t.coeff row column ≠ 0 ∧ t.IsPivot row column u := by
  obtain ⟨row, hrow, column, hcolumn, entry, hentry, hne, hpivot⟩ := h
  have hwidth := ht.lt_width_of_mem hcolumn
  obtain rfl : t.coeff row column = entry :=
    Except.ok.inj ((entry_eq_ok (mem_constraintRows.mp hrow).2 hwidth).symm.trans hentry)
  exact ⟨row, hrow, column, hcolumn, hne, ht.isPivot_of_pivot_eq hrow hwidth hpivot⟩

theorem WellShaped.eq_or_isReduction {t u : Tableau F} (ht : t.WellShaped) (h : t.ReducesTo u) :
    u = t ∧ t.phase = .optimality ∨ t.IsReduction u := by
  obtain ⟨removed, hreduce⟩ := h
  cases hphase : t.phase with
  | optimality =>
    rw [reduce_of_optimality hphase] at hreduce
    exact .inl ⟨(congrArg Reduction.tableau (Except.ok.inj hreduce)).symm, rfl⟩
  | feasibility => exact .inr (ht.isReduction_of_reduce_eq hphase hreduce)

/-! ## What a step keeps -/

namespace Canonical

variable {s t u : Tableau F}

theorem exchangesTo (ht : t.Canonical) (h : t.ExchangesTo u) :
    u.Canonical ∧ t.Restates u ∧ u.unknowns = t.unknowns ∧ ∀ x, u.Solves x ↔ t.Solves x := by
  obtain ⟨row, hrow, column, hcolumn, hne, hpivot⟩ := ht.exists_isPivot h
  exact ⟨hpivot.canonical ht hrow hcolumn hne, hpivot.restates ht.boundColumn_lt hrow hne,
    hpivot.unknowns_eq, hpivot.solves_iff ht.boundColumn_lt hrow hne⟩

/-- Exchanges neither lose nor gain a solution. -/
theorem exchanges (hs : s.Canonical) (h : s.Exchanges t) :
    t.Canonical ∧ t.unknowns = s.unknowns ∧ ∀ x, t.Solves x ↔ s.Solves x := by
  induction h with
  | refl => exact ⟨hs, rfl, fun _ => Iff.rfl⟩
  | tail _ hstep ih =>
    obtain ⟨ht, hunknowns, hsolves⟩ := ih
    obtain ⟨hu, _, hstepUnknowns, hstepSolves⟩ := ht.exchangesTo hstep
    exact ⟨hu, hstepUnknowns.trans hunknowns, fun x => (hstepSolves x).trans (hsolves x)⟩

variable [IsStrictOrderedRing F]

theorem stepsTo (ht : t.Canonical) (htolerance : 0 ≤ t.tolerance) (h : t.StepsTo u) :
    u.Canonical ∧ t.Restates u := by
  rcases h with hexchange | hreduces
  · obtain ⟨hu, hrestates, _, _⟩ := ht.exchangesTo hexchange
    exact ⟨hu, hrestates⟩
  · rcases ht.eq_or_isReduction hreduces with ⟨rfl, _⟩ | hreduction
    · exact ⟨ht, .refl u⟩
    · exact ⟨hreduction.canonical ht htolerance, hreduction.restates ht⟩

/-- Every tableau that is reached shows its basis and restates the first one. -/
theorem evolves (hs : s.Canonical) (htolerance : 0 ≤ s.tolerance) (h : s.Evolves t) :
    t.Canonical ∧ s.Restates t := by
  induction h with
  | refl => exact ⟨hs, .refl s⟩
  | tail _ hstep ih =>
    obtain ⟨ht, hrestates⟩ := ih
    obtain ⟨hu, hstepRestates⟩ := ht.stepsTo (hrestates.tolerance_eq ▸ htolerance) hstep
    exact ⟨hu, hrestates.trans hstepRestates⟩

end Canonical

/-! ## Solutions and the basic solution -/

variable {p : Problem F} {s t : Tableau F}

variable [IsStrictOrderedRing F]

/-- Exchanges keep all solutions, and leaving the first phase keeps those of the
variables that stay; so the solution of every tableau that is reached meets the
equation of each constraint, with the values of its slack and its artificial
variable, and misses it by nothing. -/
theorem equations_of_evolves {tolerance : F} (htolerance : 0 ≤ tolerance)
    (hinitial : Tableau.initial p tolerance = .ok s) (hevolves : s.Evolves t) :
    (s.Exchanges t → t.unknowns = s.unknowns ∧ ∀ x, t.Solves x ↔ s.Solves x) ∧
      (t.unknowns ⊆ s.unknowns ∧ ∀ x, t.Covers x → (t.Solves x ↔ s.Solves x)) ∧
      ∃ solution, t.solution p.objective = .ok solution ∧
        ∀ c ∈ p.placedConstraints, ∃ slack artificial,
          t.value (.slack c.slack) = .ok slack ∧
          t.value (.artificial c.artificial) = .ok artificial ∧
          dot c.constraint.coefficients solution.point
              + c.constraint.relation.slackCoefficient?.getD 0 * slack
              + (if c.constraint.relation.needsArtificial then artificial else 0) =
            c.constraint.bound := by
  obtain ⟨rfl, hisInitial⟩ := isInitial_of_initial_eq hinitial
  obtain ⟨ht, hrestates⟩ := hisInitial.canonical.evolves htolerance hevolves
  have hsign := hrestates.nonNegative_eq.trans hisInitial.nonNegative_eq
  have hsolves := ht.solves_basicValue_of_restates hrestates
  refine ⟨fun h => (hisInitial.canonical.exchanges h).2,
    ⟨hrestates.unknowns_subset, hrestates.solves_iff⟩, _, ht.solution_eq_decode hsign,
    fun c hc => ?_⟩
  refine ⟨_, _, ht.value_eq_ok _, ht.value_eq_ok _, ?_⟩
  rw [add_assoc]
  exact hisInitial.dot_add_fill hsolves hc

/-- A problem whose tableau is pivoted on a negative entry, leaves the first phase
before it is done, and is pivoted away from what is feasible. -/
def detourProblem : Problem ℚ where
  objective := ⟨[1, 2], 0⟩
  constraints := [⟨[1, 1], .atLeast, 1⟩, ⟨[1, -1], .equal, 0⟩, ⟨[2, 1], .atMost, 4⟩]
  goal := .maximize
  nonNegative := false

def detour : List Move := [.exchange 3 3, .reduce, .exchange 3 1]

theorem exists_evolves_detour :
    ∃ s t, Tableau.initial detourProblem (1 / 2) = .ok s ∧ s.Evolves t ∧
      ∃ solution, t.solution detourProblem.objective = .ok solution ∧
        solution.point = [4 / 3, 4 / 3] := by
  have hruns : ((Tableau.initial detourProblem (1 / 2)).toOption.bind fun s =>
      (s.follow? detour).bind fun t =>
        (t.solution detourProblem.objective).toOption.map Solution.point) =
      some [4 / 3, 4 / 3] := by
    decide +kernel
  obtain ⟨s, hinitial, hfollows⟩ := Option.bind_eq_some_iff.mp hruns
  obtain ⟨t, hfollow, hsolves⟩ := Option.bind_eq_some_iff.mp hfollows
  obtain ⟨solution, hsolution, hpoint⟩ := Option.map_eq_some_iff.mp hsolves
  exact ⟨s, t, Fault.eq_ok_of_toOption_eq_some hinitial,
    evolves_iff_exists_follow?.mpr ⟨detour, hfollow⟩, solution,
    Fault.eq_ok_of_toOption_eq_some hsolution, hpoint⟩

theorem equations_detour :
    ∃ s t slack artificial, Tableau.initial detourProblem (1 / 2) = .ok s ∧ s.Evolves t ∧
      t.value (.slack 0) = .ok slack ∧ t.value (.artificial 0) = .ok artificial ∧
      4 / 3 + 4 / 3 - slack + artificial = 1 := by
  obtain ⟨s, t, hinitial, hevolves, point, hpoint, hvalues⟩ := exists_evolves_detour
  obtain ⟨_, _, solution, hsolution, hequations⟩ :=
    equations_of_evolves (by decide +kernel) hinitial hevolves
  obtain rfl := Except.ok.inj (hpoint.symm.trans hsolution)
  obtain ⟨slack, artificial, hslack, hartificial, hequation⟩ :=
    hequations ⟨⟨[1, 1], .atLeast, 1⟩, 0, 0⟩ (List.mem_cons_self ..)
  refine ⟨s, t, slack, artificial, hinitial, hevolves, hslack, hartificial, ?_⟩
  have hleft : dot [(1 : ℚ), 1] [4 / 3, 4 / 3] = 4 / 3 + 4 / 3 := by decide +kernel
  change dot [(1 : ℚ), 1] point.point + -1 * slack + artificial = 1 at hequation
  rw [hvalues, hleft, neg_one_mul, ← sub_eq_add_neg] at hequation
  exact hequation

end PrimalSimplex.Tableau
