/-
  `Proofs.Tableau.Choice`: which columns enter and which rows leave.

  A well-shaped tableau always answers: the rules read the costs of its variable
  columns, and the ratio test the entries of its constraint rows.  A chosen column
  is profitable, and none is chosen only where none is.  A chosen row comes from
  the ties of the ratio test, and none is chosen only where no entry is positive.
  Both are true of any scalars; over exact numbers the ties are, in addition, the
  rows whose ratio is near the least one.
-/
import PrimalSimplex.Proofs.Scalar.Exact
import PrimalSimplex.Proofs.Tableau.Entries

set_option autoImplicit false

namespace PrimalSimplex

variable {F : Type}

section Answers

variable [Scalar F]

/-! ## Entering columns -/

theorem exists_mem_of_leastCost? {columns : List (Nat × F)} {j : Nat}
    (h : leastCost? columns = some j) : ∃ cost, (j, cost) ∈ columns := by
  rcases columns with - | ⟨first, rest⟩
  · cases h
  · obtain rfl := Option.some.inj h
    -- The best column so far is always one of those that were seen.
    refine ⟨_, List.foldlRecOn rest _ (motive := fun best => best ∈ first :: rest)
      (List.mem_cons_self ..) fun best hbest next hnext => ?_⟩
    show (if Scalar.isLt next.2 best.2 then next else best) ∈ first :: rest
    split
    · exact List.mem_cons_of_mem _ hnext
    · exact hbest

omit [Scalar F] in
theorem mem_of_nextAfter? {last : Option Nat} {columns : List Nat} {j : Nat}
    (h : nextAfter? last columns = some j) : j ∈ columns := by
  rcases last with - | last
  · exact List.mem_of_head? h
  · rcases Option.or_eq_some_iff.mp h with hafter | ⟨_, hfirst⟩
    · exact List.mem_of_find?_eq_some hafter
    · exact List.mem_of_head? hfirst

namespace Tableau

/-- The variable of the column improves row 0. -/
def IsProfitable (t : Tableau F) (j : Nat) : Prop :=
  j ∈ t.variableColumns ∧ Scalar.isNegative (t.coeff 0 j) t.tolerance = true

/-- The columns whose variables improve row 0, in order. -/
def profitable (t : Tableau F) : List Nat :=
  t.variableColumns.filter fun j => Scalar.isNegative (t.coeff 0 j) t.tolerance

theorem mem_profitable {t : Tableau F} {j : Nat} : j ∈ t.profitable ↔ t.IsProfitable j :=
  List.mem_filter

theorem pairwise_profitable (t : Tableau F) : t.profitable.Pairwise (· < ·) :=
  List.Pairwise.filter _ List.pairwise_lt_range'

theorem profitableColumns_eq_map {t : Tableau F} (hrow : 0 < t.height) :
    t.profitableColumns = .ok (t.profitable.map fun j => (j, t.coeff 0 j)) := by
  rw [profitableColumns_eq_ok hrow, profitable, List.filter_map]
  rfl

/-- A tableau is optimal when no column is profitable. -/
theorem isOptimal_eq_ok {t : Tableau F} (hrow : 0 < t.height) :
    t.isOptimal = .ok t.profitable.isEmpty := by
  rw [isOptimal, profitableColumns_eq_map hrow, ← List.isEmpty_map]
  rfl

end Tableau

namespace Selector

variable {s : Selector} {t : Tableau F}

/-- The column that a rule takes, given the column that it took last. -/
def choice? (s : Selector) (t : Tableau F) : Option Nat :=
  match s.rule with
  | .steepest => leastCost? (t.profitable.map fun j => (j, t.coeff 0 j))
  | .first => t.profitable.head?
  | .roundRobin => nextAfter? s.last t.profitable

/-- A rule answers as soon as there is a row 0 to read. -/
theorem select_eq_ok (hrow : 0 < t.height) :
    s.select t = .ok (s.choice? t, { s with last := s.choice? t }) := by
  rw [select, Tableau.profitableColumns_eq_map hrow, choice?]
  cases s.rule with
  | steepest => rfl
  | first => simp [bind, Except.bind, pure, Except.pure, Function.comp_def]
  | roundRobin => simp [bind, Except.bind, pure, Except.pure, Function.comp_def]

theorem mem_of_choice? {j : Nat} (h : s.choice? t = some j) : j ∈ t.profitable := by
  unfold choice? at h
  cases hrule : s.rule with
  | steepest =>
    rw [hrule] at h
    obtain ⟨cost, hcost⟩ := exists_mem_of_leastCost? h
    obtain ⟨k, hk, hsame⟩ := List.mem_map.mp hcost
    cases hsame
    exact hk
  | first =>
    rw [hrule] at h
    exact List.mem_of_head? h
  | roundRobin =>
    rw [hrule] at h
    exact mem_of_nextAfter? h

theorem choice?_eq_none_iff : s.choice? t = none ↔ t.profitable = [] := by
  unfold choice?
  cases s.rule with
  | steepest => simp [leastCost?_eq_none_iff]
  | first => simp
  | roundRobin => simp [nextAfter?_eq_none_iff]

end Selector

namespace Tableau

/-- The constraint row bounds the variable of a column. -/
def Limits (t : Tableau F) (j i : Nat) : Prop :=
  i ∈ t.constraintRows ∧ Scalar.isPositive (t.coeff i j) t.tolerance = true

/-- The rows that limit a column, with their ratios. -/
def ratios (t : Tableau F) (j : Nat) : List (Nat × F) :=
  (t.constraintRows.filter fun i => Scalar.isPositive (t.coeff i j) t.tolerance).map
    fun i => (i, t.coeff i t.boundColumn / t.coeff i j)

theorem mem_ratios {t : Tableau F} {j i : Nat} {ratio : F} :
    (i, ratio) ∈ t.ratios j ↔ t.Limits j i ∧ t.coeff i t.boundColumn / t.coeff i j = ratio := by
  unfold ratios Limits
  constructor
  · intro hmem
    obtain ⟨k, hk, heq⟩ := List.mem_map.mp hmem
    cases heq
    exact ⟨List.mem_filter.mp hk, rfl⟩
  · rintro ⟨hlimits, rfl⟩
    exact List.mem_map_of_mem (List.mem_filter.mpr hlimits)

/-- Every rule answers: with a profitable column, or with none if there is none. -/
theorem WellShaped.select_spec {t : Tableau F} (h : t.WellShaped) (s : Selector) :
    ∃ chosen next, s.select t = .ok (chosen, next) ∧
      (∀ j, chosen = some j → t.IsProfitable j) ∧
      (chosen = none → ∀ j, ¬t.IsProfitable j) := by
  refine ⟨_, _, Selector.select_eq_ok h.height_pos, fun j hj => ?_, fun hnone j hj => ?_⟩
  · exact mem_profitable.mp (Selector.mem_of_choice? hj)
  · have hmem := mem_profitable.mpr hj
    rw [Selector.choice?_eq_none_iff.mp hnone] at hmem
    cases hmem

end Tableau

/-! ## Leaving rows -/

namespace Ties

theorem mem_rows_insert {tolerance : F} {ties : Ties F} {candidate : Nat × F} {i : Nat}
    (h : i ∈ (ties.insert tolerance candidate).rows) : i ∈ ties.rows ∨ i = candidate.1 := by
  unfold insert at h
  split at h
  · exact (List.mem_append.mp h).imp_right List.mem_singleton.mp
  · split at h
    · exact .inr (List.mem_singleton.mp h)
    · exact .inl h

/-- What holds of the first candidate alone, and goes on holding when one more is
taken into account, holds of all candidates. -/
theorem ofCandidates?_induction {tolerance : F} {motive : Ties F → List (Nat × F) → Prop}
    (hfirst : ∀ candidate : Nat × F, motive ⟨candidate.2, [candidate.1]⟩ [candidate])
    (hinsert : ∀ ties seen candidate, motive ties seen →
      motive (ties.insert tolerance candidate) (seen ++ [candidate]))
    {candidates : List (Nat × F)} {ties : Ties F}
    (h : ofCandidates? tolerance candidates = some ties) : motive ties candidates := by
  have hfold : ∀ (rest seen : List (Nat × F)) (start : Ties F), motive start seen →
      motive (rest.foldl (Ties.insert tolerance) start) (seen ++ rest) := by
    intro rest
    induction rest with
    | nil =>
      intro seen start hstart
      rwa [List.append_nil]
    | cons next rest ih =>
      intro seen start hstart
      rw [List.foldl_cons, List.append_cons]
      exact ih _ _ (hinsert _ _ next hstart)
  rcases candidates with - | ⟨first, rest⟩
  · cases h
  · obtain rfl := Option.some.inj h
    exact hfold rest [first] _ (hfirst first)

/-- Only candidates are ties. -/
theorem exists_mem_of_mem_rows {tolerance : F} {candidates : List (Nat × F)} {ties : Ties F}
    (h : ofCandidates? tolerance candidates = some ties) {i : Nat} (hi : i ∈ ties.rows) :
    ∃ ratio, (i, ratio) ∈ candidates := by
  refine ofCandidates?_induction
    (motive := fun ties seen => ∀ i ∈ ties.rows, ∃ ratio, (i, ratio) ∈ seen)
    (fun candidate i hi => ?_) (fun ties seen candidate ih i hi => ?_) h i hi
  · obtain rfl := List.mem_singleton.mp hi
    exact ⟨_, List.mem_singleton_self _⟩
  · rcases mem_rows_insert hi with hi | rfl
    · obtain ⟨ratio, hmem⟩ := ih i hi
      exact ⟨ratio, List.mem_append_left _ hmem⟩
    · exact ⟨_, List.mem_append_right _ (List.mem_singleton_self _)⟩

end Ties

namespace Tableau

/-- Whether an artificial variable is basic in a row. -/
def hasArtificial (t : Tableau F) (i : Nat) : Bool :=
  match t.basicLabel i with
  | .ok label => label.isArtificial
  | .error _ => false

namespace WellShaped

variable {t : Tableau F}

/-- The ratio test answers with one of its ties: the first one where an artificial
variable is basic, as long as there are artificial variables, or else the first. -/
theorem leavingRow?_eq_ok (h : t.WellShaped) {j : Nat} (hj : j < t.width) :
    t.leavingRow? j = .ok ((Ties.ofCandidates? t.tolerance (t.ratios j)).bind fun ties =>
      if t.artificials = 0 then ties.rows.head?
      else (ties.rows.find? t.hasArtificial).or ties.rows.head?) := by
  have hcandidates : t.candidateRows j = .ok (t.ratios j) := h.candidateRows_eq_ok hj
  unfold leavingRow?
  rw [hcandidates]
  simp only [bind, Except.bind, pure, Except.pure]
  cases hties : Ties.ofCandidates? t.tolerance (t.ratios j) with
  | none => rfl
  | some ties =>
    have htest : ∀ i ∈ ties.rows,
        (do return (← t.basicLabel i).isArtificial : Except Fault Bool) =
          .ok (t.hasArtificial i) := by
      intro i hi
      obtain ⟨ratio, hratio⟩ := Ties.exists_mem_of_mem_rows hties hi
      obtain ⟨label, hlabel⟩ := h.exists_basicLabel (mem_ratios.mp hratio).1.1
      rw [hasArtificial, hlabel]
      rfl
    have hfilter := Fault.filter_eq_ok htest
    simp only [bind, Except.bind, pure, Except.pure] at hfilter
    dsimp only [Option.bind_some]
    split
    · rfl
    · rw [hfilter, ← List.head?_filter]

/-- The ratio test answers: with one of its ties, or with none if no row limits
the column. -/
theorem leavingRow_spec (h : t.WellShaped) {j : Nat} (hj : j < t.width) :
    ∃ chosen, t.leavingRow? j = .ok chosen ∧
      (∀ i, chosen = some i →
        ∃ ties, Ties.ofCandidates? t.tolerance (t.ratios j) = some ties ∧ i ∈ ties.rows) ∧
      (chosen = none → ∀ i, ¬t.Limits j i) := by
  refine ⟨_, h.leavingRow?_eq_ok hj, fun i hi => ?_, fun hnone i hlimits => ?_⟩
  · obtain ⟨ties, hties, hchosen⟩ := Option.bind_eq_some_iff.mp hi
    refine ⟨ties, hties, ?_⟩
    split at hchosen
    · exact List.mem_of_head? hchosen
    · rcases Option.or_eq_some_iff.mp hchosen with hfirst | ⟨_, hfirst⟩
      · exact List.mem_of_find?_eq_some hfirst
      · exact List.mem_of_head? hfirst
  · have hmem := mem_ratios.mpr ⟨hlimits, rfl⟩
    cases hties : Ties.ofCandidates? t.tolerance (t.ratios j) with
    | none =>
      rw [Ties.ofCandidates?_eq_none_iff.mp hties] at hmem
      cases hmem
    | some ties =>
      have hhead : ties.rows.head? ≠ none := fun hempty =>
        Ties.rows_ne_nil_of_ofCandidates? hties (List.head?_eq_none_iff.mp hempty)
      rw [hties, Option.bind_some] at hnone
      split at hnone
      · exact hhead hnone
      · exact hhead (Option.or_eq_none_iff.mp hnone).2

/-- A row that is chosen is one of the ties. -/
theorem exists_tie_of_leavingRow? (h : t.WellShaped) {j row : Nat} (hj : j < t.width)
    (hrow : t.leavingRow? j = .ok (some row)) :
    ∃ ties, Ties.ofCandidates? t.tolerance (t.ratios j) = some ties ∧ row ∈ ties.rows := by
  obtain ⟨chosen, hchosen, hsome, _⟩ := h.leavingRow_spec hj
  obtain rfl : some row = chosen := Except.ok.inj (hrow.symm.trans hchosen)
  exact hsome row rfl

/-- So it limits the column. -/
theorem limits_of_leavingRow? (h : t.WellShaped) {j row : Nat} (hj : j < t.width)
    (hrow : t.leavingRow? j = .ok (some row)) : t.Limits j row := by
  obtain ⟨ties, hties, hmem⟩ := h.exists_tie_of_leavingRow? hj hrow
  obtain ⟨ratio, hratio⟩ := Ties.exists_mem_of_mem_rows hties hmem
  exact (mem_ratios.mp hratio).1

end WellShaped

end Tableau

end Answers

/-! ## Least ratios -/

section Exact

variable [Field F] [LinearOrder F] [IsStrictOrderedRing F]

namespace Ties

/-- The ratio of the ties is that of a row, and no row is much below it; every tie
is near it. -/
structure Summarizes (tolerance : F) (ties : Ties F) (seen : List (Nat × F)) : Prop where
  attained : ∃ candidate ∈ seen, candidate.2 = ties.ratio
  le : ∀ candidate ∈ seen, ties.ratio - tolerance ≤ candidate.2
  near : ∀ i ∈ ties.rows, ∃ ratio, (i, ratio) ∈ seen ∧ |ratio - ties.ratio| ≤ tolerance

theorem Summarizes.insert {tolerance : F} (htolerance : 0 ≤ tolerance) {ties : Ties F}
    {seen : List (Nat × F)} (h : ties.Summarizes tolerance seen) (candidate : Nat × F) :
    (ties.insert tolerance candidate).Summarizes tolerance (seen ++ [candidate]) := by
  have hlast : candidate ∈ seen ++ [candidate] :=
    List.mem_append_right _ (List.mem_singleton_self _)
  unfold Ties.insert
  split
  · -- A ratio near the least one joins.
    rename_i hnear
    have hclose := Scalar.near_iff.mp hnear
    obtain ⟨first, hfirst, hratio⟩ := h.attained
    refine ⟨⟨first, List.mem_append_left _ hfirst, hratio⟩, fun c hc => ?_, fun i hi => ?_⟩
    · rcases List.mem_append.mp hc with hc | hc
      · exact h.le c hc
      · obtain rfl := List.mem_singleton.mp hc
        have := (abs_le.mp hclose).1
        linarith
    · rcases List.mem_append.mp hi with hi | hi
      · obtain ⟨ratio, hmem, hle⟩ := h.near i hi
        exact ⟨ratio, List.mem_append_left _ hmem, hle⟩
      · obtain rfl := List.mem_singleton.mp hi
        exact ⟨_, hlast, hclose⟩
  · rename_i hfar
    have hapart : tolerance < |candidate.2 - ties.ratio| :=
      not_le.mp fun hle => hfar (Scalar.near_iff.mpr hle)
    split
    · -- A lesser one starts afresh.
      rename_i hless
      have hlt := Scalar.isLt_iff.mp hless
      refine ⟨⟨candidate, hlast, rfl⟩, fun c hc => ?_, fun i hi => ?_⟩
      · show candidate.2 - tolerance ≤ c.2
        rcases List.mem_append.mp hc with hc | hc
        · rw [abs_of_neg (sub_neg.mpr hlt)] at hapart
          have := h.le c hc
          linarith
        · obtain rfl := List.mem_singleton.mp hc
          linarith
      · obtain rfl := List.mem_singleton.mp hi
        refine ⟨_, hlast, ?_⟩
        rwa [sub_self, abs_zero]
    · -- A greater one changes nothing.
      rename_i hnotless
      have hle : ties.ratio ≤ candidate.2 :=
        not_lt.mp fun hlt => hnotless (Scalar.isLt_iff.mpr hlt)
      obtain ⟨first, hfirst, hratio⟩ := h.attained
      refine ⟨⟨first, List.mem_append_left _ hfirst, hratio⟩, fun c hc => ?_, fun i hi => ?_⟩
      · rcases List.mem_append.mp hc with hc | hc
        · exact h.le c hc
        · obtain rfl := List.mem_singleton.mp hc
          linarith
      · obtain ⟨ratio, hmem, hnear⟩ := h.near i hi
        exact ⟨ratio, List.mem_append_left _ hmem, hnear⟩

/-- The ties of all candidates summarize them. -/
theorem summarizes_of_ofCandidates? {tolerance : F} (htolerance : 0 ≤ tolerance)
    {candidates : List (Nat × F)} {ties : Ties F}
    (h : ofCandidates? tolerance candidates = some ties) :
    ties.Summarizes tolerance candidates := by
  refine ofCandidates?_induction (fun first => ?_)
    (fun ties seen candidate ih => ih.insert htolerance candidate) h
  refine ⟨⟨first, List.mem_singleton_self _, rfl⟩, fun c hc => ?_, fun i hi => ?_⟩
  · obtain rfl := List.mem_singleton.mp hc
    exact sub_le_self _ htolerance
  · obtain rfl := List.mem_singleton.mp hi
    refine ⟨first.2, List.mem_singleton_self _, ?_⟩
    rwa [sub_self, abs_zero]

end Ties

namespace Tableau

/-- Over exact numbers and without a tolerance, the chosen row limits the column
and has the least ratio of all rows that do. -/
structure IsLeaving (t : Tableau F) (j row : Nat) : Prop where
  mem : row ∈ t.constraintRows
  pos : 0 < t.coeff row j
  least : ∀ i ∈ t.constraintRows, 0 < t.coeff i j →
    t.coeff row t.boundColumn / t.coeff row j ≤ t.coeff i t.boundColumn / t.coeff i j

theorem limits_iff {t : Tableau F} (htolerance : t.tolerance = 0) {j i : Nat} :
    t.Limits j i ↔ i ∈ t.constraintRows ∧ 0 < t.coeff i j := by
  unfold Limits
  rw [htolerance, Scalar.isPositive_iff_lt (le_refl 0)]

theorem isProfitable_iff {t : Tableau F} (htolerance : t.tolerance = 0) {j : Nat} :
    t.IsProfitable j ↔ j ∈ t.variableColumns ∧ t.coeff 0 j < 0 := by
  unfold IsProfitable
  rw [htolerance, Scalar.isNegative_iff_lt (le_refl 0), neg_zero]

theorem WellShaped.isLeaving_of_leavingRow? {t : Tableau F} (h : t.WellShaped)
    (htolerance : t.tolerance = 0) {j row : Nat} (hj : j < t.width)
    (hrow : t.leavingRow? j = .ok (some row)) : t.IsLeaving j row := by
  obtain ⟨ties, hties, hmem⟩ := h.exists_tie_of_leavingRow? hj hrow
  rw [htolerance] at hties
  have hleast := Ties.summarizes_of_ofCandidates? (le_refl 0) hties
  obtain ⟨ratio, hratio, hnear⟩ := hleast.near row hmem
  obtain ⟨hlimits, rfl⟩ := mem_ratios.mp hratio
  have hequal : t.coeff row t.boundColumn / t.coeff row j = ties.ratio :=
    sub_eq_zero.mp (abs_nonpos_iff.mp hnear)
  obtain ⟨hconstraint, hpos⟩ := (limits_iff htolerance).mp hlimits
  refine ⟨hconstraint, hpos, fun i hi hipos => ?_⟩
  have hle := hleast.le _ (mem_ratios.mpr ⟨(limits_iff htolerance).mpr ⟨hi, hipos⟩, rfl⟩)
  rw [sub_zero] at hle
  rw [hequal]
  exact hle

end Tableau

end Exact

end PrimalSimplex
