/-
  `Proofs.Tableau.RoundRobin`: a rule that remembers skips no column and repeats none.

  Going round a list of columns means to take those after a certain one first, and then
  those up to it.  What the round-robin rule takes next is the first column of such a
  round, and when it has taken it, it goes on with the same round turned by one.  So what
  is taken by any number of selections follows from the first round, which is that of the
  profitable columns, and in a whole round each of them occurs once.

  Nothing is supposed about what is remembered, nor about the arithmetic.
-/
import Mathlib.Algebra.Field.Rat
import Mathlib.Algebra.Order.Ring.Rat
import Mathlib.Data.List.Rotate
import PrimalSimplex.Proofs.Tableau.Choice
import PrimalSimplex.Tableau.Initial

set_option autoImplicit false

namespace PrimalSimplex

variable {columns : List Nat} {last : Option Nat}

/-! ## Going round a list -/

/-- The columns after the last one, and then those up to it. -/
def cycleAfter (last : Option Nat) (columns : List Nat) : List Nat :=
  match last with
  | none => columns
  | some last => columns.filter (fun j => last < j) ++ columns.filter (fun j => j ≤ last)

theorem cycleAfter_perm (last : Option Nat) (columns : List Nat) :
    (cycleAfter last columns).Perm columns := by
  cases last with
  | none => exact .refl _
  | some last =>
    have hnot : (fun j => decide (j ≤ last)) = fun j => !decide (last < j) := by
      funext j
      simp [← decide_not]
    rw [cycleAfter, hnot]
    exact List.filter_append_perm _ _

theorem cycleAfter_filter (p : Nat → Bool) :
    cycleAfter last (columns.filter p) = (cycleAfter last columns).filter p := by
  cases last with
  | none => rfl
  | some last => simp only [cycleAfter, List.filter_append, List.filter_filter, Bool.and_comm]

/-- Columns up to one that was taken: none of them comes after it. -/
theorem filter_of_forall_le {c : Nat} (h : ∀ j ∈ columns, j ≤ c) :
    columns.filter (fun j => c < j) = [] ∧ columns.filter (fun j => j ≤ c) = columns := by
  constructor
  · refine List.filter_eq_nil_iff.mpr fun j hj => ?_
    simpa using h j hj
  · refine List.filter_eq_self.mpr fun j hj => ?_
    simpa using h j hj

/-- Columns after one that was taken: none of them comes up to it. -/
theorem filter_of_forall_lt {c : Nat} (h : ∀ j ∈ columns, c < j) :
    columns.filter (fun j => c < j) = columns ∧ columns.filter (fun j => j ≤ c) = [] := by
  constructor
  · refine List.filter_eq_self.mpr fun j hj => ?_
    simpa using h j hj
  · refine List.filter_eq_nil_iff.mpr fun j hj => ?_
    simpa using h j hj

/-- What comes next is the first column of the round. -/
theorem nextAfter?_eq_head? : nextAfter? last columns = (cycleAfter last columns).head? := by
  cases last with
  | none => rfl
  | some last =>
    rw [nextAfter?, cycleAfter, List.head?_append, List.head?_filter]
    cases hafter : columns.find? fun j => last < j with
    | some j => rfl
    | none =>
      -- Without a column after the last one, all of them come up to it.
      have hall : ∀ j ∈ columns, j ≤ last := by
        simpa using hafter
      rw [(filter_of_forall_le hall).2]

/-- Going round from a column of an ordered list ends with it. -/
theorem cycleAfter_append_cons {before after : List Nat} {c : Nat}
    (hsorted : (before ++ c :: after).Pairwise (· < ·)) :
    cycleAfter (some c) (before ++ c :: after) = after ++ (before ++ [c]) := by
  obtain ⟨-, htail, hcross⟩ := List.pairwise_append.mp hsorted
  have hle : ∀ j ∈ before, j ≤ c := fun j hj => (hcross j hj c (List.mem_cons_self ..)).le
  obtain ⟨hbefore, hup⟩ := filter_of_forall_le hle
  obtain ⟨hafter, hnone⟩ := filter_of_forall_lt (List.pairwise_cons.mp htail).1
  simp [cycleAfter, hbefore, hup, hafter, hnone]

/-- From the first column it goes to the others. -/
theorem cycleAfter_cons {rest : List Nat} {c : Nat} (hsorted : (c :: rest).Pairwise (· < ·)) :
    cycleAfter (some c) (c :: rest) = rest ++ [c] := by
  obtain ⟨hrest, hnone⟩ := filter_of_forall_lt (List.pairwise_cons.mp hsorted).1
  simp [cycleAfter, hrest, hnone]

/-- The columns up to any number and then those after it are all columns, in order. -/
theorem filter_le_append_filter_lt (c : Nat) (hsorted : columns.Pairwise (· < ·)) :
    columns.filter (fun j => j ≤ c) ++ columns.filter (fun j => c < j) = columns := by
  induction columns with
  | nil => rfl
  | cons first rest ih =>
    obtain ⟨hfirst, hrest⟩ := List.pairwise_cons.mp hsorted
    rcases Nat.lt_or_ge c first with hlt | hge
    · obtain ⟨hall, hnone⟩ := filter_of_forall_lt fun j hj => hlt.trans (hfirst j hj)
      simp [hlt, hall, hnone]
    · simp [hge, ih hrest]

/-- When the first column of a round has been taken, the next round is turned by one. -/
theorem cycleAfter_head? (last : Option Nat) (hsorted : columns.Pairwise (· < ·)) :
    cycleAfter (cycleAfter last columns).head? columns = (cycleAfter last columns).rotate 1 := by
  have hperm := cycleAfter_perm last columns
  cases hround : cycleAfter last columns with
  | nil =>
    rw [hround] at hperm
    obtain rfl := hperm.symm.eq_nil
    rfl
  | cons c rest =>
    rw [List.head?_cons, List.rotate_cons_succ, List.rotate_zero]
    cases last with
    | none =>
      obtain rfl : columns = c :: rest := hround
      exact cycleAfter_cons hsorted
    | some last =>
      have hsplit := filter_le_append_filter_lt last hsorted
      rw [cycleAfter] at hround
      cases hafter : columns.filter fun j => last < j with
      | nil =>
        -- The round starts over, so it is the whole list.
        rw [hafter] at hround hsplit
        rw [List.nil_append] at hround
        rw [List.append_nil, hround] at hsplit
        subst hsplit
        exact cycleAfter_cons hsorted
      | cons next after =>
        rw [hafter, List.cons_append] at hround
        obtain ⟨rfl, rfl⟩ := List.cons.inj hround
        rw [hafter] at hsplit
        rw [← hsplit] at hsorted
        rw [List.append_assoc, ← cycleAfter_append_cons hsorted, hsplit]

/-! ## Selections in a row -/

variable {F : Type}

/-- The variable columns in the order of their positions, starting after the one that was
taken last; starting with the first one if none was, or one that is no variable column. -/
def Tableau.searchOrder (t : Tableau F) (last : Option Nat) : List Nat :=
  match last with
  | none => t.variableColumns
  | some last =>
    if last ∈ t.variableColumns then t.variableColumns.rotate (last + 1 - t.objectives)
    else t.variableColumns

theorem Tableau.searchOrder_eq_cycleAfter (t : Tableau F) (last : Option Nat) :
    t.searchOrder last = cycleAfter last t.variableColumns := by
  cases last with
  | none => rfl
  | some last =>
    rw [searchOrder]
    split
    · rename_i hcolumn
      obtain ⟨before, after, hsplit⟩ := List.append_of_mem hcolumn
      have hsorted : t.variableColumns.Pairwise (· < ·) := List.pairwise_lt_range'
      -- The columns before this one are as many as their positions say.
      have hplace : t.objectives + before.length = last := by
        have hget : t.variableColumns[before.length]? = some last := by simp [hsplit]
        obtain ⟨hlength, hget⟩ := List.getElem?_eq_some_iff.mp hget
        simpa only [variableColumns, List.getElem_range', Nat.one_mul] using hget
      have hturn : last + 1 - t.objectives = (before ++ [last]).length := by
        rw [List.length_append, List.length_singleton]
        omega
      rw [hsplit] at hsorted ⊢
      rw [hturn, cycleAfter_append_cons hsorted, List.append_cons, List.rotate_append_length_eq]
    · rename_i hstale
      -- All variable columns are on one side of a position that none of them has.
      rw [mem_variableColumns, not_and_or, not_le, not_lt] at hstale
      rcases hstale with hlow | hhigh
      · have hafter : ∀ j ∈ t.variableColumns, last < j := fun j hj =>
          hlow.trans_le (mem_variableColumns.mp hj).1
        obtain ⟨hall, hnone⟩ := filter_of_forall_lt hafter
        rw [cycleAfter, hall, hnone, List.append_nil]
      · have hbefore : ∀ j ∈ t.variableColumns, j ≤ last := fun j hj =>
          (mem_variableColumns.mp hj).2.le.trans hhigh
        obtain ⟨hnone, hall⟩ := filter_of_forall_le hbefore
        rw [cycleAfter, hall, hnone, List.nil_append]

variable [Scalar F]

namespace Selector

/-- The columns that a number of selections in a row take, and the selector after them. -/
def selectTimes (t : Tableau F) : Nat → Selector → Except Fault (List (Option Nat) × Selector)
  | 0, s => .ok ([], s)
  | times + 1, s => do
    let (chosen, next) ← s.select t
    let (others, after) ← selectTimes t times next
    return (chosen :: others, after)

variable {s : Selector} {t : Tableau F}

/-- The profitable columns in the order in which they are found. -/
theorem cycleAfter_profitable : cycleAfter last t.profitable =
    (t.searchOrder last).filter fun j => Scalar.isNegative (t.coeff 0 j) t.tolerance := by
  rw [Tableau.searchOrder_eq_cycleAfter, Tableau.profitable, cycleAfter_filter]

/-- The rule takes the first profitable column of the search. -/
theorem choice?_eq_head? (hrule : s.rule = .roundRobin) :
    s.choice? t = (cycleAfter s.last t.profitable).head? := by
  rw [choice?, hrule, ← nextAfter?_eq_head?]

/-- In as many selections as a round has columns each column is taken once. -/
theorem map_range_length (columns : List Nat) :
    (List.range columns.length).map (fun i => columns[i % columns.length]?) =
      columns.map some := by
  have hplace : ∀ i ∈ List.range columns.length,
      columns[i % columns.length]? = columns[i]? := by
    intro i hi
    rw [Nat.mod_eq_of_lt (List.mem_range.mp hi)]
  rw [List.map_congr_left hplace]
  exact List.ext_getElem (by simp) fun i hi _ => by simp_all

/-- Selections take the columns of the round one by one, over and over. -/
theorem selectTimes_eq_ok (hrow : 0 < t.height) (times : Nat) (hrule : s.rule = .roundRobin) :
    ∃ next, s.selectTimes t times = .ok ((List.range times).map fun i =>
      (cycleAfter s.last t.profitable)[i % t.profitable.length]?, next) := by
  induction times generalizing s with
  | zero => exact ⟨s, rfl⟩
  | succ times ih =>
    have hselect := select_eq_ok (s := s) hrow
    rw [choice?_eq_head? hrule] at hselect
    have hturned := cycleAfter_head? s.last t.pairwise_profitable
    have hlength := (cycleAfter_perm s.last t.profitable).length_eq
    generalize cycleAfter s.last t.profitable = round at hselect hturned hlength ⊢
    obtain ⟨next, hothers⟩ := ih (s := { s with last := round.head? }) hrule
    -- What the others take is found one place further on in this round.
    have hplaces : ∀ i, (round.rotate 1)[i % t.profitable.length]? =
        round[(i + 1) % t.profitable.length]? := by
      intro i
      rw [← hlength]
      rcases round.length.eq_zero_or_pos with hempty | hpos
      · simp [List.eq_nil_of_length_eq_zero hempty]
      · rw [List.getElem?_rotate (Nat.mod_lt i hpos), Nat.mod_add_mod]
    refine ⟨next, ?_⟩
    rw [selectTimes, hselect]
    simp only [hturned, hplaces] at hothers
    simp only [bind, Except.bind, pure, Except.pure, hothers]
    rw [List.range_succ_eq_map, List.map_cons, List.map_map, Nat.zero_mod, List.head?_eq_getElem?]
    rfl

/-! ## The result -/

/-- The first selection takes the first profitable column in the order of the search, and
as many selections in a row as there are profitable columns take each of them once; the
next one takes the first of them again. -/
theorem roundRobin_select (hrow : 0 < t.height) (hrule : s.rule = .roundRobin) :
    ∃ columns : List Nat, columns.Nodup ∧ (∀ j, j ∈ columns ↔ t.IsProfitable j) ∧
      columns = (t.searchOrder s.last).filter (fun j =>
        Scalar.isNegative (t.coeff 0 j) t.tolerance) ∧
      (∃ next, s.select t = .ok ((t.searchOrder s.last).find? fun j =>
        Scalar.isNegative (t.coeff 0 j) t.tolerance, next)) ∧
      (∃ next, s.selectTimes t columns.length = .ok (columns.map some, next)) ∧
      (∃ next, s.selectTimes t (columns.length + 1) =
        .ok (columns.map some ++ [columns.head?], next)) := by
  have hperm := cycleAfter_perm s.last t.profitable
  have hselect := select_eq_ok (s := s) hrow
  rw [choice?_eq_head? hrule, cycleAfter_profitable, List.head?_filter] at hselect
  refine ⟨cycleAfter s.last t.profitable, ?_, fun j => ?_, cycleAfter_profitable, ⟨_, hselect⟩,
    ?_, ?_⟩
  · exact hperm.nodup_iff.mpr (t.pairwise_profitable.imp ne_of_lt)
  · rw [hperm.mem_iff, Tableau.mem_profitable]
  · obtain ⟨next, hselected⟩ := selectTimes_eq_ok hrow t.profitable.length hrule
    rw [← hperm.length_eq, map_range_length] at hselected
    exact ⟨next, hselected⟩
  · obtain ⟨next, hselected⟩ := selectTimes_eq_ok hrow (t.profitable.length + 1) hrule
    rw [← hperm.length_eq, List.range_succ, List.map_append, map_range_length,
      List.map_singleton, Nat.mod_self, ← List.head?_eq_getElem?] at hselected
    exact ⟨next, hselected⟩

/-- Three variables that are all worth something. -/
def threefoldProblem : Problem ℚ where
  objective := ⟨[1, 3, 2], 0⟩
  constraints := [⟨[1, 1, 1], .atMost, 4⟩]
  goal := .maximize
  nonNegative := true

/-- After the second of the three columns come the third, the first and the second, and
then the third again. -/
theorem roundRobin_select_threefoldProblem :
    ∃ t next, Tableau.initial threefoldProblem 0 = .ok t ∧
      (Selector.mk .roundRobin (some 2)).selectTimes t 4 =
        .ok ([some 3, some 1, some 2, some 3], next) := by
  have hruns : (Tableau.initial threefoldProblem 0).toOption.map (fun t =>
      (decide (0 < t.height), (t.searchOrder (some 2)).filter fun j =>
        Scalar.isNegative (t.coeff 0 j) t.tolerance)) = some (true, [3, 1, 2]) := by
    decide +kernel
  obtain ⟨t, hinitial, hruns⟩ := Option.map_eq_some_iff.mp hruns
  obtain ⟨hrow, horder⟩ := Prod.mk.inj hruns
  obtain ⟨columns, -, -, hcolumns, -, -, next, hselected⟩ :=
    roundRobin_select (t := t) (s := ⟨.roundRobin, some 2⟩) (of_decide_eq_true hrow) rfl
  obtain rfl := hcolumns.trans horder
  exact ⟨t, next, Fault.eq_ok_of_toOption_eq_some hinitial, hselected⟩

end Selector

end PrimalSimplex
