/-
  `Proofs.Solver.EnteringColumn`: rules differ in what they take, not in when they stop.

  The three rules search row 0 in different ways, for the least cost, for the first
  profitable column, and for the next one after a column that was taken before.  They
  agree on what they search for.  So where one of them finds nothing all of them do,
  whatever was taken before, and exchanging stops at the optimal tableaus and at no
  others.  What is remembered may be any number, also one of a column that is gone.
-/
import PrimalSimplex.Proofs.Solver.Limit
import PrimalSimplex.Proofs.Tableau.LeavingRow
import PrimalSimplex.Proofs.Tableau.Searches

set_option autoImplicit false

namespace PrimalSimplex

variable {F : Type}

/-! ## The end of exchanging -/

/-- Exchanging ends before it has begun exactly when the rule takes no column. -/
theorem pivotUntilOptimal_eq_start_iff [Scalar F] {allowed : Nat} {s : Selector} {p : Progress F}
    (hrow : 0 < p.tableau.height) :
    pivotUntilOptimal allowed s p = .ok ⟨none, p⟩ ↔ s.choice? p.tableau = none := by
  have hselect := Selector.select_eq_ok (s := s) hrow
  constructor
  · intro hstops
    -- A column that is taken is counted, and the count never goes back.
    have hcount := iterations_le_of_pivotUntilOptimal_eq hselect hstops
    cases hchosen : s.choice? p.tableau with
    | none => rfl
    | some column => simp [hchosen] at hcount
  · intro hnone
    rw [hnone] at hselect
    exact pivotUntilOptimal_of_select_eq_none hselect

variable [Field F] [LinearOrder F]

/-! ## The least cost -/

/-- The columns that cost no more than any other one of the list. -/
def cheapest (cost : Nat → F) (columns : List Nat) : Set Nat :=
  {j | j ∈ columns ∧ ∀ k ∈ columns, cost j ≤ cost k}

omit [Field F] in
/-- A later column takes the place of the first cheapest one only if it costs less. -/
theorem isLeast_cheapest_append {cost : Nat → F} {seen : List Nat} {best next : Nat}
    (h : IsLeast (cheapest cost seen) best) (hlater : ∀ j ∈ seen, j < next) :
    IsLeast (cheapest cost (seen ++ [next])) (if cost next < cost best then next else best) := by
  obtain ⟨⟨hbest, hcheap⟩, hfirst⟩ := h
  split
  · rename_i hless
    refine ⟨⟨by simp, fun k hk => ?_⟩, ?_⟩
    · rcases List.mem_append.mp hk with hk | hk
      · exact hless.le.trans (hcheap k hk)
      · rw [List.mem_singleton.mp hk]
    · rintro j ⟨hj, hall⟩
      rcases List.mem_append.mp hj with hj | hj
      · -- One of those before would cost no more than the new one.
        have hnext := hall next (by simp)
        exact absurd hless (not_lt.mpr ((hcheap j hj).trans hnext))
      · exact (List.mem_singleton.mp hj).ge
  · rename_i hless
    refine ⟨⟨List.mem_append_left _ hbest, fun k hk => ?_⟩, ?_⟩
    · rcases List.mem_append.mp hk with hk | hk
      · exact hcheap k hk
      · rw [List.mem_singleton.mp hk]
        exact not_lt.mp hless
    · rintro j ⟨hj, hall⟩
      rcases List.mem_append.mp hj with hj | hj
      · exact hfirst ⟨hj, fun k hk => hall k (List.mem_append_left _ hk)⟩
      · rw [List.mem_singleton.mp hj]
        exact (hlater best hbest).le

/-- Whatever is seen next, the best column so far is the first of the cheapest ones. -/
theorem isLeast_cheapest_foldl {cost : Nat → F} (rest : List Nat) {seen : List Nat} {best : Nat}
    (hsorted : (seen ++ rest).Pairwise (· < ·)) (hbest : IsLeast (cheapest cost seen) best) :
    IsLeast (cheapest cost (seen ++ rest))
      ((rest.map fun j => (j, cost j)).foldl
        (fun best next => if Scalar.isLt next.2 best.2 then next else best)
        (best, cost best)).1 := by
  induction rest generalizing seen best with
  | nil => simpa using hbest
  | cons next rest ih =>
    have hlater : ∀ j ∈ seen, j < next := fun j hj =>
      (List.pairwise_append.mp hsorted).2.2 j hj next (List.mem_cons_self ..)
    have hstep := isLeast_cheapest_append hbest hlater
    -- The pair that is kept goes on holding its own cost.
    have hkept : (if Scalar.isLt (cost next) (cost best) then (next, cost next)
        else (best, cost best)) =
        (if cost next < cost best then next else best,
          cost (if cost next < cost best then next else best)) := by
      by_cases hless : cost next < cost best
      · simp [hless, Scalar.isLt_iff]
      · simp [hless, Scalar.isLt_iff]
    rw [List.append_cons] at hsorted ⊢
    rw [List.map_cons, List.foldl_cons]
    simp only [hkept]
    exact ih hsorted hstep

/-- The search for the least cost finds the first of the cheapest columns. -/
theorem isLeast_of_leastCost? {cost : Nat → F} {columns : List Nat} {j : Nat}
    (hsorted : columns.Pairwise (· < ·))
    (h : leastCost? (columns.map fun j => (j, cost j)) = some j) :
    IsLeast (cheapest cost columns) j := by
  rcases columns with - | ⟨first, rest⟩
  · cases h
  · obtain rfl := Option.some.inj h
    have hfirst : IsLeast (cheapest cost [first]) first := by
      simp [cheapest, IsLeast, lowerBounds]
    exact isLeast_cheapest_foldl rest hsorted hfirst

/-! ## What each rule takes -/

variable [IsStrictOrderedRing F]

namespace Tableau

variable {t : Tableau F}

theorem isProfitable_iff_lt (htolerance : 0 ≤ t.tolerance) {j : Nat} :
    t.IsProfitable j ↔ j ∈ t.variableColumns ∧ t.coeff 0 j < -t.tolerance := by
  rw [IsProfitable, Scalar.isNegative_iff_lt htolerance]

end Tableau

namespace Selector

variable {s : Selector} {t : Tableau F} {j : Nat}

/-- The first of the columns with the least cost of all. -/
theorem isLeast_of_steepest (htolerance : 0 ≤ t.tolerance) (hrule : s.rule = .steepest)
    (h : s.choice? t = some j) : IsLeast (cheapest (t.coeff 0) t.variableColumns) j := by
  obtain ⟨hcolumn, hcost⟩ :=
    (Tableau.isProfitable_iff_lt htolerance).mp (Tableau.mem_profitable.mp (mem_of_choice? h))
  rw [choice?, hrule] at h
  obtain ⟨⟨-, hcheap⟩, hfirst⟩ := isLeast_of_leastCost? t.pairwise_profitable h
  -- Columns that are not profitable cost more than one that is.
  have hprofitable : ∀ k ∈ t.variableColumns, t.coeff 0 k ≤ t.coeff 0 j → k ∈ t.profitable := by
    intro k hk hle
    exact Tableau.mem_profitable.mpr
      ((Tableau.isProfitable_iff_lt htolerance).mpr ⟨hk, hle.trans_lt hcost⟩)
  refine ⟨⟨hcolumn, fun k hk => ?_⟩, ?_⟩
  · rcases le_total (t.coeff 0 k) (t.coeff 0 j) with hle | hle
    · exact hcheap k (hprofitable k hk hle)
    · exact hle
  · rintro k ⟨hk, hall⟩
    refine hfirst ⟨hprofitable k hk (hall j hcolumn), fun i hi => hall i ?_⟩
    exact (Tableau.mem_profitable.mp hi).1

/-- The first of the profitable columns. -/
theorem isLeast_of_first (htolerance : 0 ≤ t.tolerance) (hrule : s.rule = .first)
    (h : s.choice? t = some j) :
    IsLeast {i | i ∈ t.variableColumns ∧ t.coeff 0 i < -t.tolerance} j := by
  rw [choice?, hrule] at h
  have hleast := isLeast_of_head?_eq_some t.pairwise_profitable h
  simpa only [Tableau.mem_profitable, Tableau.isProfitable_iff_lt htolerance] using hleast

end Selector

/-! ## The result -/

/-- A rule takes no column exactly where the tableau is optimal, which is where no
variable column costs less than the negated tolerance, and else it takes such a column:
the first of the cheapest ones, the first of all, or any, as the rule says.  The searches
of the rules, and that for a column that improves row 0, find the same.  With every rule
and every memory, exchanging stops at once exactly where the tableau is optimal. -/
theorem entering_select {t : Tableau F} (hrow : 0 < t.height) (htolerance : 0 ≤ t.tolerance)
    (s : Selector) :
    ∃ optimal chosen next, t.isOptimal = .ok optimal ∧ s.select t = .ok (chosen, next) ∧
      t.noneImproves = .ok optimal ∧ s.search t = .ok (chosen, next) ∧
      (optimal = true ↔ ∀ j ∈ t.variableColumns, -t.tolerance ≤ t.coeff 0 j) ∧
      (chosen = none ↔ optimal = true) ∧
      (∀ j, chosen = some j →
        t.objectives ≤ j ∧ j < t.boundColumn ∧
        (∃ cost, t.cost j = .ok cost ∧ cost < -t.tolerance) ∧
        (s.rule = .steepest → IsLeast (cheapest (t.coeff 0) t.variableColumns) j) ∧
        (s.rule = .first →
          IsLeast {i | i ∈ t.variableColumns ∧ t.coeff 0 i < -t.tolerance} j)) ∧
      ∀ (allowed : Nat) (other : Selector) (p : Progress F), p.tableau = t →
        (pivotUntilOptimal allowed other p = .ok ⟨none, p⟩ ↔ optimal = true) := by
  refine ⟨_, _, _, Tableau.isOptimal_eq_ok hrow, Selector.select_eq_ok hrow, ?_, ?_, ?_, ?_,
    fun j hj => ?_, ?_⟩
  · rw [Tableau.noneImproves_eq_isOptimal hrow, Tableau.isOptimal_eq_ok hrow]
  · rw [Selector.search_eq_select hrow, Selector.select_eq_ok hrow]
  · rw [List.isEmpty_iff, Tableau.profitable, List.filter_eq_nil_iff]
    simp only [Scalar.isNegative_iff_lt htolerance, not_lt]
  · rw [List.isEmpty_iff, Selector.choice?_eq_none_iff]
  · obtain ⟨hcolumn, hcost⟩ := (Tableau.isProfitable_iff_lt htolerance).mp
      (Tableau.mem_profitable.mp (Selector.mem_of_choice? hj))
    obtain ⟨hlow, hhigh⟩ := Tableau.mem_variableColumns.mp hcolumn
    have hwidth : j < t.width := hhigh.trans_le (Nat.sub_le _ _)
    exact ⟨hlow, hhigh, ⟨_, Tableau.entry_eq_ok hrow hwidth, hcost⟩,
      fun hrule => Selector.isLeast_of_steepest htolerance hrule hj,
      fun hrule => Selector.isLeast_of_first htolerance hrule hj⟩
  · rintro allowed other p rfl
    rw [pivotUntilOptimal_eq_start_iff hrow, Selector.choice?_eq_none_iff, List.isEmpty_iff]

/-- Two of the three variables are worth most. -/
def tiedProblem : Problem ℚ where
  objective := ⟨[1, 3, 3], 0⟩
  constraints := [⟨[1, 1, 1], .atMost, 4⟩]
  goal := .maximize
  nonNegative := true

/-- Of the two cheapest columns the first one enters, and exchanging does not end, also
for a rule that remembers a column past the end. -/
theorem entering_select_tiedProblem :
    ∃ t next, Tableau.initial tiedProblem 0 = .ok t ∧
      (Selector.mk .steepest (some 100)).select t = .ok (some 2, next) ∧
      (Selector.mk .steepest (some 100)).search t = .ok (some 2, next) ∧
      IsLeast (cheapest (t.coeff 0) t.variableColumns) 2 ∧
      pivotUntilOptimal 10 ⟨.roundRobin, some 100⟩ ⟨t, 0, []⟩ ≠ .ok ⟨none, ⟨t, 0, []⟩⟩ := by
  have hruns : (Tableau.initial tiedProblem 0).toOption.map (fun t =>
      (decide (0 < t.height ∧ 0 ≤ t.tolerance),
        ((Selector.mk .steepest (some 100)).select t).toOption.map (·.1))) =
          some (true, some (some 2)) := by
    decide +kernel
  obtain ⟨t, hinitial, hruns⟩ := Option.map_eq_some_iff.mp hruns
  obtain ⟨hsizes, hselect⟩ := Prod.mk.inj hruns
  obtain ⟨hrow, htolerance⟩ := of_decide_eq_true hsizes
  obtain ⟨optimal, chosen, next, -, hchosen, -, hsearch, -, hnone, htaken, hstops⟩ :=
    entering_select hrow htolerance ⟨.steepest, some 100⟩
  rw [hchosen] at hselect
  obtain rfl : chosen = some 2 := by simpa [Except.toOption] using hselect
  obtain ⟨-, -, -, hleast, -⟩ := htaken 2 rfl
  refine ⟨t, next, Fault.eq_ok_of_toOption_eq_some hinitial, hchosen, hsearch, hleast rfl,
    fun hend => ?_⟩
  have hoptimal := (hstops 10 ⟨.roundRobin, some 100⟩ ⟨t, 0, []⟩ rfl).mp hend
  simpa using hnone.mpr hoptimal

end PrimalSimplex
