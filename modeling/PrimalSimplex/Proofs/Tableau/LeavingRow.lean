/-
  `Proofs.Tableau.LeavingRow`: how good the row is that leaves.

  The ratio test compares each ratio with one number, the recorded least ratio.  A
  ratio near that number joins it and does not lower it; so a recorded ratio is that
  of the first tie, and it may be above the true minimum, but by no more than the
  tolerance.  The other ties are near it on either side.  The first tie is therefore
  within one tolerance of the minimum and every tie within two; the row of an
  artificial variable, which may be any of the ties, can miss the minimum by the full
  two.  Without a tolerance the ties are exactly the rows with the least ratio, in
  their order, and nothing is missed.
-/
import Mathlib.Algebra.Field.Rat
import Mathlib.Algebra.Order.Ring.Rat
import Mathlib.Order.Bounds.Defs
import PrimalSimplex.Proofs.Tableau.Initial
import PrimalSimplex.Proofs.Tableau.Choice

set_option autoImplicit false

namespace PrimalSimplex

/-! ## Searching an increasing list -/

/-- In an increasing list, the first element that passes a test is the least one. -/
theorem isLeast_of_find?_eq_some {elements : List Nat} (hsorted : elements.Pairwise (· < ·))
    {test : Nat → Bool} {i : Nat} (h : elements.find? test = some i) :
    IsLeast {k | k ∈ elements ∧ test k = true} i := by
  obtain ⟨hpass, before, after, rfl, hfail⟩ := List.find?_eq_some_iff_append.mp h
  refine ⟨⟨List.mem_append_right _ (List.mem_cons_self ..), hpass⟩, ?_⟩
  rintro k ⟨hmem, hk⟩
  rcases List.mem_append.mp hmem with hbefore | hafter
  · have hnot := hfail k hbefore
    rw [hk] at hnot
    cases hnot
  · rcases List.mem_cons.mp hafter with rfl | hafter
    · exact le_refl _
    · have htail := (List.pairwise_append.mp hsorted).2.1
      exact ((List.pairwise_cons.mp htail).1 k hafter).le

/-- An increasing list begins with its least element. -/
theorem isLeast_of_head?_eq_some {elements : List Nat} (hsorted : elements.Pairwise (· < ·))
    {i : Nat} (h : elements.head? = some i) : IsLeast {k | k ∈ elements} i := by
  have hfind : elements.find? (fun _ => true) = some i := by
    rw [← List.head?_filter, List.filter_true]
    exact h
  have hleast := isLeast_of_find?_eq_some hsorted hfind
  exact ⟨hleast.1.1, fun k hk => hleast.2 ⟨hk, rfl⟩⟩

variable {F : Type}

/-! ## Ties -/

namespace Ties

section Heads

variable [Scalar F]

/-- The first of the rows has the recorded ratio. -/
def IsHeaded (ties : Ties F) (seen : List (Nat × F)) : Prop :=
  ∃ row, ties.rows.head? = some row ∧ (row, ties.ratio) ∈ seen

theorem IsHeaded.insert {ties : Ties F} {seen : List (Nat × F)} (h : ties.IsHeaded seen)
    (tolerance : F) (candidate : Nat × F) :
    (ties.insert tolerance candidate).IsHeaded (seen ++ [candidate]) := by
  obtain ⟨row, hrow, hmem⟩ := h
  unfold Ties.insert
  split
  · refine ⟨row, ?_, List.mem_append_left _ hmem⟩
    rw [List.head?_append, hrow]
    rfl
  · split
    · exact ⟨candidate.1, rfl, List.mem_append_right _ (List.mem_singleton_self _)⟩
    · exact ⟨row, hrow, List.mem_append_left _ hmem⟩

theorem isHeaded_of_ofCandidates? {tolerance : F} {candidates : List (Nat × F)} {ties : Ties F}
    (h : ofCandidates? tolerance candidates = some ties) : ties.IsHeaded candidates :=
  ofCandidates?_induction (fun _ => ⟨_, rfl, List.mem_singleton_self _⟩)
    (fun _ _ candidate ih => ih.insert tolerance candidate) h

end Heads

variable [Field F] [LinearOrder F] [IsStrictOrderedRing F]

/-- The rows are those that have the recorded ratio, in order, and no ratio is less. -/
structure Attains (ties : Ties F) (seen : List (Nat × F)) : Prop where
  rows_eq : ties.rows = (seen.filter fun candidate => decide (candidate.2 = ties.ratio)).map (·.1)
  le : ∀ candidate ∈ seen, ties.ratio ≤ candidate.2

theorem Attains.insert {ties : Ties F} {seen : List (Nat × F)} (h : ties.Attains seen)
    (candidate : Nat × F) : (ties.insert 0 candidate).Attains (seen ++ [candidate]) := by
  have hle : ∀ bound ≤ ties.ratio, bound ≤ candidate.2 →
      ∀ c ∈ seen ++ [candidate], bound ≤ c.2 := by
    intro bound hbound hlast c hc
    rcases List.mem_append.mp hc with hc | hc
    · exact hbound.trans (h.le c hc)
    · obtain rfl := List.mem_singleton.mp hc
      exact hlast
  unfold Ties.insert
  split
  · -- An equal ratio joins.
    rename_i hnear
    have hequal : candidate.2 = ties.ratio := Scalar.near_zero_iff.mp hnear
    refine ⟨?_, hle _ (le_refl _) hequal.ge⟩
    rw [List.filter_append, List.filter_cons, if_pos (decide_eq_true hequal), List.filter_nil,
      List.map_append, ← h.rows_eq]
    rfl
  · rename_i hfar
    have hne : candidate.2 ≠ ties.ratio := fun hequal => hfar (Scalar.near_zero_iff.mpr hequal)
    split
    · -- A lesser one is that of no row before.
      rename_i hless
      have hlt := Scalar.isLt_iff.mp hless
      have hnone : seen.filter (fun c => decide (c.2 = candidate.2)) = [] := by
        refine List.filter_eq_nil_iff.mpr fun c hc hsame => ?_
        have hgreater := h.le c hc
        rw [of_decide_eq_true hsame] at hgreater
        exact absurd hlt (not_lt.mpr hgreater)
      refine ⟨?_, hle _ hlt.le (le_refl _)⟩
      rw [List.filter_append, hnone, List.filter_cons, if_pos (decide_eq_true rfl)]
      rfl
    · -- A greater one changes nothing.
      rename_i hnotless
      refine ⟨?_, hle _ (le_refl _) (not_lt.mp fun hlt => hnotless (Scalar.isLt_iff.mpr hlt))⟩
      rw [List.filter_append, List.filter_cons, if_neg (by simpa using hne), List.filter_nil,
        List.append_nil, ← h.rows_eq]

/-- Without a tolerance, the ties are the rows with the least ratio. -/
theorem attains_of_ofCandidates? {candidates : List (Nat × F)} {ties : Ties F}
    (h : ofCandidates? 0 candidates = some ties) : ties.Attains candidates := by
  refine ofCandidates?_induction (fun first => ⟨?_, fun c hc => ?_⟩)
    (fun ties seen candidate ih => ih.insert candidate) h
  · rw [List.filter_cons, if_pos (decide_eq_true rfl)]
    rfl
  · obtain rfl := List.mem_singleton.mp hc
    exact le_refl _

end Ties

/-! ## The leaving row -/

namespace Tableau

variable [Field F] [LinearOrder F] [IsStrictOrderedRing F] {t : Tableau F}

theorem limits_iff_lt (htolerance : 0 ≤ t.tolerance) {j i : Nat} :
    t.Limits j i ↔ i ∈ t.constraintRows ∧ t.tolerance < t.coeff i j := by
  rw [Limits, Scalar.isPositive_iff_lt htolerance]

/-- Without a tolerance, the ties are the rows that have to give way, in order. -/
theorem rows_spec (htolerance : t.tolerance = 0) {j : Nat} {ties : Ties F}
    (h : Ties.ofCandidates? t.tolerance (t.ratios j) = some ties) :
    ties.rows.Pairwise (· < ·) ∧ ∀ i, i ∈ ties.rows ↔ t.IsLeaving j i := by
  rw [htolerance] at h
  have hattains := Ties.attains_of_ofCandidates? h
  obtain ⟨row, -, hfirst⟩ := Ties.isHeaded_of_ofCandidates? h
  have hmem : ∀ i, i ∈ ties.rows ↔ (i, ties.ratio) ∈ t.ratios j := by
    intro i
    rw [hattains.rows_eq, List.mem_map]
    constructor
    · rintro ⟨⟨k, ratio⟩, hk, rfl⟩
      obtain ⟨hin, hsame⟩ := List.mem_filter.mp hk
      rwa [show ratio = ties.ratio from of_decide_eq_true hsame] at hin
    · intro hin
      exact ⟨_, List.mem_filter.mpr ⟨hin, decide_eq_true rfl⟩, rfl⟩
  refine ⟨?_, fun i => (hmem i).trans ⟨fun hin => ?_, fun hleaving => ?_⟩⟩
  · have hrows : (t.ratios j).map (·.1) =
        t.constraintRows.filter fun i => Scalar.isPositive (t.coeff i j) t.tolerance := by
      rw [ratios, List.map_map]
      exact List.map_id _
    have hsorted : ((t.ratios j).map (·.1)).Pairwise (· < ·) := by
      rw [hrows]
      exact List.Pairwise.filter _ List.pairwise_lt_range'
    rw [hattains.rows_eq]
    exact hsorted.sublist (List.filter_sublist.map _)
  · obtain ⟨hlimits, hratio⟩ := mem_ratios.mp hin
    obtain ⟨hconstraint, hpos⟩ := (limits_iff htolerance).mp hlimits
    refine ⟨hconstraint, hpos, fun k hk hkpos => ?_⟩
    rw [hratio]
    exact hattains.le _ (mem_ratios.mpr ⟨(limits_iff htolerance).mpr ⟨hk, hkpos⟩, rfl⟩)
  · -- The recorded ratio is that of a row, so it is not below the least one.
    obtain ⟨hlimits, hratio⟩ := mem_ratios.mp hfirst
    obtain ⟨hconstraint, hpos⟩ := (limits_iff htolerance).mp hlimits
    have hin := mem_ratios.mpr
      ⟨(limits_iff htolerance).mpr ⟨hleaving.mem, hleaving.pos⟩, rfl⟩
    have hequal := le_antisymm (hratio ▸ hleaving.least row hconstraint hpos) (hattains.le _ hin)
    rwa [← hequal]

namespace WellShaped

variable {j row : Nat}

/-- The ratio of a chosen row is not far above that of any row which limits the column. -/
theorem ratio_le_of_leavingRow? (h : t.WellShaped) (htolerance : 0 ≤ t.tolerance)
    (hj : j < t.width) (hrow : t.leavingRow? j = .ok (some row)) {i : Nat}
    (hi : t.Limits j i) :
    t.coeff row t.boundColumn / t.coeff row j ≤
        t.coeff i t.boundColumn / t.coeff i j + 2 * t.tolerance ∧
      (t.artificials = 0 → t.coeff row t.boundColumn / t.coeff row j ≤
        t.coeff i t.boundColumn / t.coeff i j + t.tolerance) := by
  obtain ⟨ties, hties, hmem⟩ := h.exists_tie_of_leavingRow? hj hrow
  have hsummary := Ties.summarizes_of_ofCandidates? htolerance hties
  have hle := hsummary.le _ (mem_ratios.mpr ⟨hi, rfl⟩)
  refine ⟨?_, fun hnone => ?_⟩
  · obtain ⟨ratio, hratio, hnear⟩ := hsummary.near row hmem
    obtain ⟨-, rfl⟩ := mem_ratios.mp hratio
    have := (abs_le.mp hnear).2
    linarith
  · -- Where no artificial variable is preferred, it is the first tie.
    rw [h.leavingRow?_eq_ok hj, hties, Option.bind_some, if_pos hnone] at hrow
    obtain ⟨first, hfirst, hhead⟩ := Ties.isHeaded_of_ofCandidates? hties
    obtain rfl := Option.some.inj (hfirst.symm.trans (Except.ok.inj hrow))
    obtain ⟨-, hratio⟩ := mem_ratios.mp hhead
    rw [hratio]
    linarith

/-- Without a tolerance it is the first row with the least ratio where an artificial
variable is basic, as long as there are artificial variables and there is such a row,
and else the first row with the least ratio. -/
theorem isLeast_of_leavingRow? (h : t.WellShaped) (htolerance : t.tolerance = 0)
    (hj : j < t.width) (hrow : t.leavingRow? j = .ok (some row)) :
    (0 < t.artificials → (∃ i, t.IsLeaving j i ∧ t.hasArtificial i = true) →
        IsLeast {i | t.IsLeaving j i ∧ t.hasArtificial i = true} row) ∧
      (t.artificials = 0 ∨ (¬∃ i, t.IsLeaving j i ∧ t.hasArtificial i = true) →
        IsLeast {i | t.IsLeaving j i} row) := by
  obtain ⟨ties, hties, -⟩ := h.exists_tie_of_leavingRow? hj hrow
  obtain ⟨hsorted, hmem⟩ := rows_spec htolerance hties
  rw [h.leavingRow?_eq_ok hj, hties, Option.bind_some] at hrow
  have hrow := Except.ok.inj hrow
  have hfirst : ties.rows.head? = some row → IsLeast {i | t.IsLeaving j i} row := by
    intro hhead
    simpa only [hmem] using isLeast_of_head?_eq_some hsorted hhead
  split at hrow
  · rename_i hnone
    exact ⟨fun hsome => absurd hnone hsome.ne', fun _ => hfirst hrow⟩
  · rename_i hsome
    rcases Option.or_eq_some_iff.mp hrow with hfound | ⟨hnotfound, hhead⟩
    · have hleast := isLeast_of_find?_eq_some hsorted hfound
      simp only [hmem] at hleast
      exact ⟨fun _ _ => hleast, fun hor => absurd ⟨row, hleast.1⟩ (hor.resolve_left hsome)⟩
    · refine ⟨fun _ ⟨i, hi, hartificial⟩ => ?_, fun _ => hfirst hhead⟩
      exact absurd hartificial (List.find?_eq_none.mp hnotfound i ((hmem i).mpr hi))

end WellShaped

/-! ## The result -/

/-- The ratio test answers for every variable column: with no row exactly where no
entry is above the tolerance, and else with a row that has such an entry and whose
ratio is above the least one by no more than twice the tolerance, or once where there
are no artificial variables.  Without a tolerance it is the first of the rows with the
least ratio, where those of artificial variables come before all others. -/
theorem leastRatio_leavingRow? (h : t.WellShaped) (htolerance : 0 ≤ t.tolerance) {j : Nat}
    (hj : j ∈ t.variableColumns) :
    ∃ chosen, t.leavingRow? j = .ok chosen ∧
      (chosen = none ↔ ∀ i ∈ t.constraintRows, t.coeff i j ≤ t.tolerance) ∧
      ∀ row, chosen = some row →
        row ∈ t.constraintRows ∧ t.tolerance < t.coeff row j ∧
        (∀ i ∈ t.constraintRows, t.tolerance < t.coeff i j →
          t.coeff row t.boundColumn / t.coeff row j ≤
              t.coeff i t.boundColumn / t.coeff i j + 2 * t.tolerance ∧
            (t.artificials = 0 → t.coeff row t.boundColumn / t.coeff row j ≤
              t.coeff i t.boundColumn / t.coeff i j + t.tolerance)) ∧
        (t.tolerance = 0 →
          (0 < t.artificials → (∃ i, t.IsLeaving j i ∧ t.hasArtificial i = true) →
              IsLeast {i | t.IsLeaving j i ∧ t.hasArtificial i = true} row) ∧
            (t.artificials = 0 ∨ (¬∃ i, t.IsLeaving j i ∧ t.hasArtificial i = true) →
              IsLeast {i | t.IsLeaving j i} row)) := by
  have hwidth := h.lt_width_of_mem hj
  obtain ⟨chosen, hchosen, -, hnone⟩ := h.leavingRow_spec hwidth
  refine ⟨chosen, hchosen, ⟨fun hno i hi => ?_, fun hall => ?_⟩, ?_⟩
  · exact not_lt.mp fun hlt => hnone hno i ((limits_iff_lt htolerance).mpr ⟨hi, hlt⟩)
  · cases hrow : chosen with
    | none => rfl
    | some row =>
      obtain ⟨hrow, hlt⟩ :=
        (limits_iff_lt htolerance).mp (h.limits_of_leavingRow? hwidth (hrow ▸ hchosen))
      exact absurd hlt (not_lt.mpr (hall row hrow))
  · rintro row rfl
    obtain ⟨hrow, hlt⟩ := (limits_iff_lt htolerance).mp (h.limits_of_leavingRow? hwidth hchosen)
    refine ⟨hrow, hlt, fun i hi hentry => ?_,
      fun hzero => h.isLeast_of_leavingRow? hzero hwidth hchosen⟩
    exact h.ratio_le_of_leavingRow? htolerance hwidth hchosen
      ((limits_iff_lt htolerance).mpr ⟨hi, hentry⟩)

/-- Three rows with the ratios three, two and four; in the last one an artificial
variable is basic. -/
def driftProblem : Problem ℚ where
  objective := ⟨[1], 0⟩
  constraints := [⟨[2], .atMost, 6⟩, ⟨[2], .atMost, 4⟩, ⟨[2], .equal, 8⟩]
  goal := .maximize
  nonNegative := true

/-- With a tolerance of one, all three rows are ties of the first, and the row that
leaves is twice the tolerance above the least ratio. -/
theorem leastRatio_driftProblem :
    ∃ t, Tableau.initial driftProblem 1 = .ok t ∧ t.leavingRow? 2 = .ok (some 4) ∧
      t.coeff 4 t.boundColumn / t.coeff 4 2 = 4 ∧
      t.coeff 4 t.boundColumn / t.coeff 4 2 ≤
        t.coeff 3 t.boundColumn / t.coeff 3 2 + 2 * t.tolerance := by
  have hruns : (Tableau.initial driftProblem 1).toOption.map (fun t =>
      (decide (2 ∈ t.variableColumns ∧ 3 ∈ t.constraintRows), t.leavingRow? 2,
        decide (0 ≤ t.tolerance ∧ t.tolerance < t.coeff 3 2),
        t.coeff 4 t.boundColumn / t.coeff 4 2)) = some (true, .ok (some 4), true, 4) := by
    decide +kernel
  obtain ⟨t, hinitial, hruns⟩ := Option.map_eq_some_iff.mp hruns
  obtain ⟨hplace, hruns⟩ := Prod.mk.inj hruns
  obtain ⟨hrow, hruns⟩ := Prod.mk.inj hruns
  obtain ⟨htolerance, hratio⟩ := Prod.mk.inj hruns
  obtain ⟨hcolumn, hthree⟩ := of_decide_eq_true hplace
  obtain ⟨hnonneg, hentry⟩ := of_decide_eq_true htolerance
  have hinitial := Fault.eq_ok_of_toOption_eq_some hinitial
  obtain ⟨chosen, hchosen, -, hsome⟩ :=
    leastRatio_leavingRow? (isInitial_of_initial_eq hinitial).2.wellShaped hnonneg hcolumn
  obtain ⟨-, -, hle, -⟩ := hsome 4 (Except.ok.inj (hchosen.symm.trans hrow))
  exact ⟨t, hinitial, hrow, hratio, (hle 3 hthree hentry).1⟩

end Tableau

end PrimalSimplex
