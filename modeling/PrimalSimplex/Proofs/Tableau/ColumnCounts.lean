/-
  `Proofs.Tableau.ColumnCounts`: what the counts of a tableau count.

  A tableau carries the numbers of its decision, slack and artificial variables.  To
  begin with each variable has one column, so the numbers describe the columns, and
  exchanges change neither.  Leaving the first phase is different: columns of any kind
  may go, and a basic artificial column stays, while the numbers of decision and
  slack variables remain those of the problem and that of the artificial variables
  becomes zero.  So from then on the numbers describe the columns only if nothing but
  artificial columns went and none of these stayed.
-/
import PrimalSimplex.Proofs.Tableau.Determined

set_option autoImplicit false

namespace PrimalSimplex

open Column (Label Kind Layout)

/-! ## Labels by kind -/

namespace Column

/-- The number of labels of a kind. -/
def countKind (group : Kind) (labels : List Label) : Nat :=
  labels.countP fun label => decide (label.kind = group)

/-- Whether a column belongs to a variable. -/
def Label.isVariable (label : Label) : Bool := label.kind ≠ .objective && label.kind ≠ .bound

/-- Every label is of one kind. -/
theorem length_eq_sum_countKind (labels : List Label) :
    labels.length = (Kind.all.map fun group => countKind group labels).sum := by
  induction labels with
  | nil => rfl
  | cons label labels ih =>
    have hcons : ∀ group, countKind group (label :: labels) =
        countKind group labels + if label.kind = group then 1 else 0 := by
      intro group
      rw [countKind, List.countP_cons]
      simp only [decide_eq_true_eq]
      rfl
    have hone : (Kind.all.map fun group => if label.kind = group then 1 else 0).sum = 1 := by
      cases label.kind with
      | _ => rfl
    rw [List.length_cons, ih, List.map_congr_left fun group _ => hcons group,
      List.sum_map_add, hone]

/-- Labels of variables are of four kinds. -/
theorem length_eq_add_of_isVariable {labels : List Label}
    (h : ∀ label ∈ labels, label.isVariable = true) :
    labels.length = countKind .decision labels + countKind .offset labels
      + countKind .slack labels + countKind .artificial labels := by
  have hnone : ∀ group, (group = .objective ∨ group = .bound) → countKind group labels = 0 := by
    intro group hgroup
    refine List.countP_eq_zero.mpr fun label hlabel hkind => ?_
    have hvariable := h label hlabel
    rw [Label.isVariable, of_decide_eq_true hkind] at hvariable
    rcases hgroup with rfl | rfl
    · cases hvariable
    · cases hvariable
  have hsum := length_eq_sum_countKind labels
  simp only [Kind.all, List.map_cons, List.map_nil, List.sum_cons, List.sum_nil,
    hnone .objective (.inl rfl), hnone .bound (.inr rfl)] at hsum
  omega

/-- Other labels do not matter for a kind of variables. -/
theorem countKind_filter_isVariable {group : Kind} (labels : List Label)
    (hfirst : group ≠ .objective) (hlast : group ≠ .bound) :
    countKind group (labels.filter Label.isVariable) = countKind group labels := by
  rw [countKind, countKind, List.countP_filter]
  refine List.countP_congr fun label _ => ?_
  rw [Bool.and_eq_true, and_iff_left_iff_imp]
  intro hkind
  rw [Label.isVariable, of_decide_eq_true hkind]
  simp [hfirst, hlast]

namespace Layout

/-- In a layout there are as many labels of a kind as its group is long. -/
theorem countKind_labels (l : Layout) (group : Kind) :
    countKind group l.labels = l.size group := by
  have hgroup : ∀ other, countKind group (l.groupLabels other) =
      if other = group then l.size group else 0 := by
    intro other
    split
    · rename_i hsame
      subst hsame
      rw [← l.length_groupLabels, countKind, List.countP_eq_length]
      exact fun label hlabel => decide_eq_true (kind_of_mem_groupLabels hlabel)
    · rename_i hne
      rw [countKind, List.countP_eq_zero]
      intro label hlabel hkind
      exact hne ((kind_of_mem_groupLabels hlabel).symm.trans (of_decide_eq_true hkind))
  rw [labels, countKind, List.countP_flatMap]
  show (Kind.all.map fun other => countKind group (l.groupLabels other)).sum = l.size group
  rw [List.map_congr_left fun other _ => hgroup other]
  cases group with
  | _ => simp [Kind.all]

theorem isVariable_of_mem_unknowns {l : Layout} {label : Label} (h : label ∈ l.unknowns) :
    label.isVariable = true := by
  cases label with
  | auxiliary => exact (mem_unknowns.mp h).elim
  | objective => exact (mem_unknowns.mp h).elim
  | bound => exact (mem_unknowns.mp h).elim
  | _ => rfl

/-- The labels of variables are the unknowns. -/
theorem filter_isVariable_labels (l : Layout) :
    l.labels.filter Label.isVariable = l.unknowns := by
  have hobjectives : (l.groupLabels .objective).filter Label.isVariable = [] := by
    refine List.filter_eq_nil_iff.mpr fun label hlabel hvariable => ?_
    rw [Label.isVariable, kind_of_mem_groupLabels hlabel] at hvariable
    cases hvariable
  have hunknowns : l.unknowns.filter Label.isVariable = l.unknowns :=
    List.filter_eq_self.mpr fun _ => isVariable_of_mem_unknowns
  rw [l.labels_eq, List.filter_append, List.filter_append, hobjectives, hunknowns, List.nil_append]
  exact List.append_nil _

end Layout

end Column

open Column (countKind)

namespace Tableau

variable {F : Type}

/-- The number of columns of a kind. -/
def columnsOf (t : Tableau F) (group : Kind) : Nat := countKind group t.labels

/-- The counts of a tableau describe its columns, and its width. -/
structure CountsColumns (t : Tableau F) : Prop where
  decisions_eq : t.decisions = t.columnsOf .decision + t.columnsOf .offset
  slacks_eq : t.slacks = t.columnsOf .slack
  artificials_eq : t.artificials = t.columnsOf .artificial
  width_eq : t.width = t.objectives + t.decisions + t.slacks + t.artificials + 1

/-! ## Columns of variables -/

/-- Exactly the variable columns have labels of variables. -/
def NamesVariables (t : Tableau F) : Prop := t.labels.filter Label.isVariable = t.unknowns

namespace NamesVariables

variable {t u : Tableau F}

theorem isVariable (h : t.NamesVariables) {label : Label} (hlabel : label ∈ t.unknowns) :
    label.isVariable = true := by
  rw [← h] at hlabel
  exact (List.mem_filter.mp hlabel).2

theorem columnsOf_eq (h : t.NamesVariables) {group : Kind} (hfirst : group ≠ .objective)
    (hlast : group ≠ .bound) : t.columnsOf group = countKind group t.unknowns := by
  rw [columnsOf, ← Column.countKind_filter_isVariable _ hfirst hlast, h]

/-- Besides the columns of variables there are those of the objectives and of the right
hand sides. -/
theorem width_eq (h : t.NamesVariables) (ht : t.WellShaped) :
    t.width = t.objectives + (t.columnsOf .decision + t.columnsOf .offset) + t.columnsOf .slack
      + t.columnsOf .artificial + 1 := by
  have hlength : t.unknowns.length = t.boundColumn - t.objectives := by
    rw [unknowns, List.length_map, variableColumns, List.length_range']
  have hsum := Column.length_eq_add_of_isVariable fun _ => h.isVariable
  have hbound : t.boundColumn = t.width - 1 := rfl
  have hwidth := ht.objectives_lt_width
  rw [h.columnsOf_eq (by decide) (by decide), h.columnsOf_eq (by decide) (by decide),
    h.columnsOf_eq (by decide) (by decide), h.columnsOf_eq (by decide) (by decide)]
  omega

theorem of_sameFrame (h : t.NamesVariables) (hframe : t.SameFrame u) : u.NamesVariables := by
  have hunknowns : u.unknowns = t.unknowns := by
    rw [unknowns, hframe.variableColumns_eq]
    exact List.map_congr_left fun j _ => hframe.labelAt_eq j
  rw [NamesVariables, hframe.labels_eq, hunknowns]
  exact h

end NamesVariables

theorem SameFrame.columnsOf_eq {t u : Tableau F} (h : t.SameFrame u) (group : Kind) :
    u.columnsOf group = t.columnsOf group := by
  rw [columnsOf, h.labels_eq, columnsOf]

/-- With other numbers and another basis, the counts are the same. -/
theorem SameFrame.countsColumns {t u : Tableau F} (h : t.SameFrame u) (hcounts : t.CountsColumns) :
    u.CountsColumns where
  decisions_eq := by
    rw [h.columnsOf_eq, h.columnsOf_eq, h.frame]
    exact hcounts.decisions_eq
  slacks_eq := by
    rw [h.columnsOf_eq, h.frame]
    exact hcounts.slacks_eq
  artificials_eq := by
    rw [h.columnsOf_eq, h.frame]
    exact hcounts.artificials_eq
  width_eq := by
    rw [h.width_eq, h.objectives_eq, h.frame]
    exact hcounts.width_eq

theorem IsInitial.columnsOf_eq [Scalar F] {p : Problem F} {t : Tableau F} (h : t.IsInitial p)
    (group : Kind) : t.columnsOf group = p.layout.size group := by
  rw [columnsOf, h.labels_eq, Layout.countKind_labels]

variable [Field F] [LinearOrder F] {p : Problem F} {s t u v : Tableau F}

theorem IsInitial.namesVariables (h : t.IsInitial p) : t.NamesVariables := by
  rw [NamesVariables, h.labels_eq, Layout.filter_isVariable_labels, h.unknowns_eq]

/-- A column outside of those of the variables has another label than all of these. -/
theorem NamesVariables.isVariable_eq_false (h : t.NamesVariables) (ht : t.Canonical) {j : Nat}
    (hj : j < t.width) (hout : j ∉ t.variableColumns) : (t.labelAt j).isVariable = false := by
  rw [← Bool.not_eq_true]
  intro hvariable
  have hmem : t.labelAt j ∈ t.labels.filter Label.isVariable :=
    List.mem_filter.mpr ⟨List.mem_of_getElem? (ht.getElem?_labels hj), hvariable⟩
  rw [h] at hmem
  obtain ⟨k, hk, hlabel⟩ := List.mem_map.mp hmem
  exact hout (ht.eq_of_labelAt_eq (ht.lt_width_of_mem hk) hj hlabel ▸ hk)

/-! ## Columns that go -/

/-- The number of columns of a kind with a positive cost.  They go when the first phase
is left. -/
def costlyColumnsOf (t : Tableau F) (group : Kind) : Nat :=
  t.variableColumns.countP fun j =>
    decide ((t.labelAt j).kind = group) && decide (t.tolerance < t.coeff 0 j)

/-- The number of basic columns of a kind. -/
def basicColumnsOf (t : Tableau F) (group : Kind) : Nat :=
  t.basis.countP fun j => decide ((t.labelAt j).kind = group)

namespace IsReduction

/-- The labels that are left are those of the columns that are kept. -/
theorem labels_eq_map (h : t.IsReduction u) (ht : t.WellShaped) :
    u.labels = t.labelAt 1 :: (t.staying.map t.labelAt ++ [t.labelAt t.boundColumn]) := by
  have hkept : (keptPositions t.surplus t.width).map (t.labels[·]?) =
      (keptPositions t.surplus t.width).map (some ∘ t.labelAt) :=
    List.map_congr_left fun j hj => ht.getElem?_labels (mem_keptPositions.mp hj).1
  have hsome : u.labels.map some =
      ((keptPositions t.surplus t.width).map t.labelAt).map some := by
    rw [h.labels_eq, map_some_dropPositions, ht.length_labels, hkept, List.map_map]
  rw [List.map_injective_iff.mpr (Option.some_injective _) hsome,
    ht.keptPositions_surplus h.phase_eq, List.map_cons, List.map_append]
  rfl

theorem namesVariables (h : t.IsReduction u) (ht : t.Canonical) (hnames : t.NamesVariables) :
    u.NamesVariables := by
  have htwo := h.objectives_eq_two
  have hwidth := ht.objectives_lt_width
  have hone : (t.labelAt 1).isVariable = false :=
    hnames.isVariable_eq_false ht (by omega) fun hmem => by
      have := (mem_variableColumns.mp hmem).1
      omega
  have hbound : (t.labelAt t.boundColumn).isVariable = false :=
    hnames.isVariable_eq_false ht ht.boundColumn_lt fun hmem =>
      Nat.lt_irrefl _ (mem_variableColumns.mp hmem).2
  have hstay : (t.staying.map t.labelAt).filter Label.isVariable = t.staying.map t.labelAt := by
    refine List.filter_eq_self.mpr fun label hlabel => ?_
    obtain ⟨j, hj, rfl⟩ := List.mem_map.mp hlabel
    exact hnames.isVariable (labelAt_mem_unknowns (mem_staying.mp hj).1)
  rw [NamesVariables, h.labels_eq_map ht.toWellShaped, h.unknowns_eq ht.toWellShaped,
    List.filter_cons, hone, List.filter_append, hstay, List.filter_singleton, hbound]
  simp

variable [IsStrictOrderedRing F]

/-- A column that is not artificial goes if it has a positive cost. -/
theorem columnsOf_eq_add (h : t.IsReduction u) (ht : t.Canonical) (htolerance : 0 ≤ t.tolerance)
    (hnames : t.NamesVariables) {group : Kind} (hfirst : group ≠ .objective)
    (hlast : group ≠ .bound) (hother : group ≠ .artificial) :
    t.columnsOf group = u.columnsOf group + t.costlyColumnsOf group := by
  have hgoes : t.costlyColumnsOf group =
      (t.variableColumns.filter t.isSurplusAt).countP
        fun j => decide ((t.labelAt j).kind = group) := by
    rw [List.countP_filter, costlyColumnsOf]
    refine List.countP_congr fun j _ => ?_
    rw [Bool.and_eq_true, Bool.and_eq_true]
    refine and_congr_right fun hkind => ?_
    have hartificial : (t.labelAt j).isArtificial = false := by
      have hkind := of_decide_eq_true hkind
      cases hlabel : t.labelAt j with
      | artificial i =>
        rw [hlabel] at hkind
        exact absurd hkind.symm hother
      | _ => rfl
    rw [isSurplusAt, hartificial, Bool.false_and, Bool.or_false, decide_eq_true_iff,
      Scalar.isPositive_iff_lt htolerance]
  rw [hnames.columnsOf_eq hfirst hlast, (h.namesVariables ht hnames).columnsOf_eq hfirst hlast,
    h.unknowns_eq ht.toWellShaped, hgoes, unknowns, countKind, countKind, List.countP_map,
    List.countP_map, Nat.add_comm]
  exact List.countP_eq_countP_filter_add _ _ _

/-- An artificial column stays if it is basic. -/
theorem mem_staying_iff_mem_basis (ht : t.Canonical) (htolerance : 0 ≤ t.tolerance) {j : Nat}
    (hartificial : (t.labelAt j).isArtificial = true) : j ∈ t.staying ↔ j ∈ t.basis := by
  refine ⟨fun hstays => ?_, mem_staying_of_mem_basis ht htolerance⟩
  obtain ⟨-, hstays⟩ := mem_staying.mp hstays
  rw [isSurplusAt, hartificial, Bool.true_and, Bool.or_eq_false_iff] at hstays
  cases hbasic : t.basicRow? j with
  | none =>
    rw [hbasic] at hstays
    cases hstays.2
  | some row =>
    obtain ⟨k, -, hk⟩ := exists_getElem?_of_basicRow? hbasic
    exact List.mem_of_getElem? hk

/-- So the artificial labels that are left are those of basic columns. -/
theorem mem_labels_iff (h : t.IsReduction u) (ht : t.Canonical) (htolerance : 0 ≤ t.tolerance)
    (hnames : t.NamesVariables) {label : Label} (hartificial : label.isArtificial = true) :
    label ∈ u.labels ↔ ∃ j ∈ t.basis, t.label j = .ok label := by
  have hvariable : label.isVariable = true := by
    cases label with
    | artificial i => rfl
    | _ => cases hartificial
  have hunknown : label ∈ u.labels ↔ label ∈ t.staying.map t.labelAt := by
    rw [← h.unknowns_eq ht.toWellShaped, ← h.namesVariables ht hnames, List.mem_filter,
      and_iff_left hvariable]
  rw [hunknown, List.mem_map]
  refine exists_congr fun j => ⟨?_, ?_⟩
  · rintro ⟨hj, rfl⟩
    have hbasic := (mem_staying_iff_mem_basis ht htolerance hartificial).mp hj
    exact ⟨hbasic, ht.label_eq_ok (ht.basis_lt j hbasic)⟩
  · rintro ⟨hj, hlabel⟩
    obtain rfl := Except.ok.inj ((ht.label_eq_ok (ht.basis_lt j hj)).symm.trans hlabel)
    exact ⟨mem_staying_of_mem_basis ht htolerance hj, rfl⟩

theorem columnsOf_artificial (h : t.IsReduction u) (ht : t.Canonical)
    (htolerance : 0 ≤ t.tolerance) (hnames : t.NamesVariables) :
    u.columnsOf .artificial = t.basicColumnsOf .artificial := by
  have hkind : ∀ j, (t.labelAt j).kind = .artificial → (t.labelAt j).isArtificial = true := by
    intro j hkind
    cases hlabel : t.labelAt j with
    | artificial i => rfl
    | _ =>
      rw [hlabel] at hkind
      cases hkind
  have hsame : (t.staying.filter fun j => decide ((t.labelAt j).kind = .artificial)).Perm
      (t.basis.filter fun j => decide ((t.labelAt j).kind = .artificial)) := by
    refine (List.perm_ext_iff_of_nodup ((t.nodup_variableColumns.filter _).filter _)
      (ht.nodup_basis.filter _)).mpr fun j => ?_
    rw [List.mem_filter, @List.mem_filter _ _ t.basis]
    exact and_congr_left fun hartificial =>
      mem_staying_iff_mem_basis ht htolerance (hkind j (of_decide_eq_true hartificial))
  rw [(h.namesVariables ht hnames).columnsOf_eq (by decide) (by decide),
    h.unknowns_eq ht.toWellShaped, countKind, List.countP_map, List.countP_eq_length_filter,
    basicColumnsOf, List.countP_eq_length_filter]
  exact hsame.length_eq

end IsReduction

/-! ## Tableaus that are reached -/

/-- Exchanges change numbers and the basis only. -/
theorem Canonical.sameFrame_of_exchanges (hs : s.Canonical) (h : s.Exchanges t) :
    s.SameFrame t := by
  induction h with
  | refl => exact .refl s
  | tail hreached hstep ih =>
    obtain ⟨_, _, _, _, _, hpivot⟩ := (hs.exchanges hreached).1.exists_isPivot hstep
    exact ih.trans hpivot.sameFrame

/-- The first phase is left at most once. -/
theorem Evolves.exchanges_or_exists_reduce (h : s.Evolves t) :
    s.Exchanges t ∨ ∃ u v removed, s.Exchanges u ∧ u.phase = .feasibility ∧
      u.reduce = .ok ⟨v, removed⟩ ∧ v.Exchanges t := by
  induction h with
  | refl => exact .inl .refl
  | @tail t w hreached hstep ih =>
    rcases hstep with hexchange | ⟨removed, hreduce⟩
    · rcases ih with hexchanges | ⟨u, v, removed, hu, hphase, hreduce, hexchanges⟩
      · exact .inl (hexchanges.tail hexchange)
      · exact .inr ⟨u, v, removed, hu, hphase, hreduce, hexchanges.tail hexchange⟩
    · cases hphase : t.phase with
      | optimality =>
        -- It had been left before, and the step changes nothing.
        rw [reduce_of_optimality hphase] at hreduce
        obtain rfl : t = w := congrArg Reduction.tableau (Except.ok.inj hreduce)
        exact ih
      | feasibility =>
        exact .inr ⟨t, w, removed, Evolves.exchanges_of_feasibility hreached hphase, hphase,
          hreduce, .refl⟩

/-- The counts after the first phase was left from the first of two tableaus: those of
decision and slack variables still count the columns that went, and that of artificial
variables counts none of those that stay, which are the basic ones. -/
structure CountsLeft (t u : Tableau F) : Prop where
  decisions_eq : u.decisions = u.columnsOf .decision + u.columnsOf .offset
    + (t.costlyColumnsOf .decision + t.costlyColumnsOf .offset)
  slacks_eq : u.slacks = u.columnsOf .slack + t.costlyColumnsOf .slack
  artificials_eq : u.artificials = 0
  columnsOf_artificial : u.columnsOf .artificial = t.basicColumnsOf .artificial
  mem_labels_iff : ∀ label : Label, label.isArtificial = true →
    (label ∈ u.labels ↔ ∃ j ∈ t.basis, t.label j = .ok label)

theorem CountsLeft.countsColumns_iff (h : t.CountsLeft u)
    (hwidth : u.width = u.objectives + (u.columnsOf .decision + u.columnsOf .offset)
      + u.columnsOf .slack + u.columnsOf .artificial + 1) :
    u.CountsColumns ↔ t.costlyColumnsOf .decision = 0 ∧ t.costlyColumnsOf .offset = 0 ∧
      t.costlyColumnsOf .slack = 0 ∧ t.basicColumnsOf .artificial = 0 := by
  have hdecisions := h.decisions_eq
  have hslacks := h.slacks_eq
  have hartificials := h.artificials_eq
  have hstay := h.columnsOf_artificial
  constructor
  · intro hcounts
    have := hcounts.decisions_eq
    have := hcounts.slacks_eq
    have := hcounts.artificials_eq
    omega
  · rintro ⟨hdecision, hoffset, hslack, hartificial⟩
    constructor <;> omega

/-- Leaving the first phase changes the columns and no count but that of the artificial
variables. -/
theorem IsReduction.countsLeft [IsStrictOrderedRing F] (h : t.IsReduction u) (ht : t.Canonical)
    (htolerance : 0 ≤ t.tolerance) (hnames : t.NamesVariables) (hcounts : t.CountsColumns) :
    t.CountsLeft u := by
  have hgoes : ∀ {group : Kind}, group ≠ .objective → group ≠ .bound → group ≠ .artificial →
      t.columnsOf group = u.columnsOf group + t.costlyColumnsOf group :=
    h.columnsOf_eq_add ht htolerance hnames
  refine ⟨?_, ?_, by rw [h.frame], h.columnsOf_artificial ht htolerance hnames,
    fun _ => h.mem_labels_iff ht htolerance hnames⟩
  · have hdecisions : u.decisions = t.decisions := by rw [h.frame]
    rw [hdecisions, hcounts.decisions_eq, hgoes (by decide) (by decide) (by decide),
      hgoes (by decide) (by decide) (by decide)]
    omega
  · have hslacks : u.slacks = t.slacks := by rw [h.frame]
    rw [hslacks, hcounts.slacks_eq, hgoes (by decide) (by decide) (by decide)]

theorem CountsLeft.sameFrame (h : t.CountsLeft u) (hframe : u.SameFrame v) : t.CountsLeft v where
  decisions_eq := by
    rw [hframe.columnsOf_eq, hframe.columnsOf_eq, hframe.frame]
    exact h.decisions_eq
  slacks_eq := by
    rw [hframe.columnsOf_eq, hframe.frame]
    exact h.slacks_eq
  artificials_eq := by
    rw [hframe.frame]
    exact h.artificials_eq
  columnsOf_artificial := by
    rw [hframe.columnsOf_eq]
    exact h.columnsOf_artificial
  mem_labels_iff := by
    rw [hframe.labels_eq]
    exact h.mem_labels_iff

/-- In an initial tableau every variable has a column. -/
theorem countsColumns_of_initial_eq {tolerance : F}
    (hinitial : Tableau.initial p tolerance = .ok s) : s.CountsColumns := by
  obtain ⟨-, hisInitial⟩ := isInitial_of_initial_eq hinitial
  obtain ⟨hdecisions, hslacks⟩ := sizes_of_initial_eq hinitial
  have hdecisions' : s.decisions = s.columnsOf .decision + s.columnsOf .offset := by
    rw [hdecisions, hisInitial.columnsOf_eq, hisInitial.columnsOf_eq]
  have hslacks' : s.slacks = s.columnsOf .slack := by
    rw [hslacks, hisInitial.columnsOf_eq]
    rfl
  have hartificials : s.artificials = s.columnsOf .artificial := by
    rw [hisInitial.artificials_eq, hisInitial.columnsOf_eq]
    rfl
  refine ⟨hdecisions', hslacks', hartificials, ?_⟩
  rw [hdecisions', hslacks', hartificials]
  exact hisInitial.namesVariables.width_eq hisInitial.wellShaped

/-! ## The result -/

variable [IsStrictOrderedRing F]

/-- The width of a tableau is always that of its columns, kind by kind, and its numbers
of decision and slack variables are always those of the problem.  These numbers
describe the columns as long as the first phase was not left.  When it is left, the
number of artificial variables becomes zero while the artificial columns that are basic
then stay, and decision and slack columns with a positive cost go while their numbers stay; and
in the tableaus that are reached from there the numbers describe the columns if
there are no such columns. -/
theorem counts_of_evolves {tolerance : F} (htolerance : 0 ≤ tolerance)
    (hinitial : Tableau.initial p tolerance = .ok s) (hevolves : s.Evolves t) :
    t.width = t.objectives + (t.columnsOf .decision + t.columnsOf .offset) + t.columnsOf .slack
        + t.columnsOf .artificial + 1 ∧
      t.decisions = p.objective.variableCount + (if p.nonNegative then 0 else 1) ∧
      t.slacks = p.constraints.countP (fun c => c.relation.hasSlack) ∧
      (s.Exchanges t ∧ t.CountsColumns ∨
        ∃ u v removed, s.Exchanges u ∧ u.phase = .feasibility ∧ u.reduce = .ok ⟨v, removed⟩ ∧
          v.Exchanges t ∧ u.CountsLeft t ∧
          (t.CountsColumns ↔ u.costlyColumnsOf .decision = 0 ∧ u.costlyColumnsOf .offset = 0 ∧
            u.costlyColumnsOf .slack = 0 ∧ u.basicColumnsOf .artificial = 0)) := by
  have hbegin := countsColumns_of_initial_eq hinitial
  obtain ⟨hdecisions, hslacks⟩ := sizes_of_initial_eq hinitial
  obtain ⟨rfl, hisInitial⟩ := isInitial_of_initial_eq hinitial
  have hsize : p.layout.size .decision + p.layout.size .offset =
      p.objective.variableCount + (if p.nonNegative then 0 else 1) := by
    show p.objective.variableCount + (if (!p.nonNegative) = true then 1 else 0) = _
    cases p.nonNegative <;> rfl
  rw [hsize] at hdecisions
  rcases hevolves.exchanges_or_exists_reduce with hexchanges | ⟨u, v, removed, hu, hphase,
    hreduce, hv⟩
  · have hframe := hisInitial.canonical.sameFrame_of_exchanges hexchanges
    have hwellShaped := (hisInitial.canonical.exchanges hexchanges).1.toWellShaped
    refine ⟨(hisInitial.namesVariables.of_sameFrame hframe).width_eq hwellShaped, ?_, ?_,
      .inl ⟨hexchanges, hframe.countsColumns hbegin⟩⟩
    · rw [hframe.frame]
      exact hdecisions
    · rw [hframe.frame]
      exact hslacks
  · have hfirst := hisInitial.canonical.sameFrame_of_exchanges hu
    have hcanonical := (hisInitial.canonical.exchanges hu).1
    have hnames := hisInitial.namesVariables.of_sameFrame hfirst
    have htolerance' : 0 ≤ u.tolerance := hfirst.tolerance_eq ▸ htolerance
    have hreduction := hcanonical.isReduction_of_reduce_eq hphase hreduce
    have hcanonical' := hreduction.canonical hcanonical htolerance'
    have hsecond := hcanonical'.sameFrame_of_exchanges hv
    have hwidth := ((hreduction.namesVariables hcanonical hnames).of_sameFrame hsecond).width_eq
      (hcanonical'.exchanges hv).1.toWellShaped
    have hleft := (hreduction.countsLeft hcanonical htolerance' hnames
      (hfirst.countsColumns hbegin)).sameFrame hsecond
    refine ⟨hwidth, ?_, ?_, .inr ⟨u, v, removed, hu, hphase, hreduce, hv, hleft,
      hleft.countsColumns_iff hwidth⟩⟩
    · rw [hsecond.frame, hreduction.frame, hfirst.frame]
      exact hdecisions
    · rw [hsecond.frame, hreduction.frame, hfirst.frame]
      exact hslacks

/-- A problem with the origin as its only feasible point, where the first phase is over at
the start: all columns but the basic artificial one have a cost in it. -/
def barredProblem : Problem ℚ where
  objective := ⟨[1, 1], 0⟩
  constraints := [⟨[-1, -1], .atLeast, 0⟩]
  goal := .maximize
  nonNegative := true

theorem exists_evolves_barredProblem :
    ∃ s t, Tableau.initial barredProblem (1 / 1000000) = .ok s ∧ s.Evolves t ∧
      t.labels = [.objective, .artificial 0, .bound] ∧ t.phase = .optimality ∧
      (t.decisions, t.slacks, t.artificials) = (2, 1, 0) := by
  have hruns : ((Tableau.initial barredProblem (1 / 1000000)).toOption.bind fun s =>
      (s.follow? [.reduce]).map fun t =>
        (t.labels, t.phase, t.decisions, t.slacks, t.artificials)) =
      some ([.objective, .artificial 0, .bound], .optimality, 2, 1, 0) := by
    decide +kernel
  obtain ⟨s, hinitial, hfollows⟩ := Option.bind_eq_some_iff.mp hruns
  obtain ⟨t, hfollow, hparts⟩ := Option.map_eq_some_iff.mp hfollows
  obtain ⟨hlabels, hparts⟩ := Prod.mk.inj hparts
  obtain ⟨hphase, hcounts⟩ := Prod.mk.inj hparts
  exact ⟨s, t, Fault.eq_ok_of_toOption_eq_some hinitial,
    evolves_iff_exists_follow?.mpr ⟨_, hfollow⟩, hlabels, hphase, hcounts⟩

/-- None of the three counts needs to describe the columns. -/
theorem not_countsColumns_barredProblem :
    ∃ s t, Tableau.initial barredProblem (1 / 1000000) = .ok s ∧ s.Evolves t ∧
      t.decisions = 2 ∧ t.columnsOf .decision + t.columnsOf .offset = 0 ∧
      t.slacks = 1 ∧ t.columnsOf .slack = 0 ∧
      t.artificials = 0 ∧ t.columnsOf .artificial = 1 ∧ ¬t.CountsColumns := by
  obtain ⟨s, t, hinitial, hevolves, hlabels, -, hcounts⟩ := exists_evolves_barredProblem
  obtain ⟨hdecisions, hcounts⟩ := Prod.mk.inj hcounts
  obtain ⟨hslacks, hartificials⟩ := Prod.mk.inj hcounts
  have hcolumns : ∀ group,
      t.columnsOf group = countKind group [.objective, .artificial 0, .bound] :=
    fun group => congrArg (countKind group) hlabels
  have hslack : t.columnsOf .slack = 0 := hcolumns .slack
  refine ⟨s, t, hinitial, hevolves, hdecisions, ?_, hslacks, hslack, hartificials,
    hcolumns .artificial, fun hdescribes => ?_⟩
  · rw [hcolumns, hcolumns]
    rfl
  · have heq := hdescribes.slacks_eq
    rw [hslacks, hslack] at heq
    cases heq

/-- There the artificial column stays, since it is basic where the first phase is left. -/
theorem counts_barredProblem :
    ∃ s t u, Tableau.initial barredProblem (1 / 1000000) = .ok s ∧ s.Evolves t ∧
      t.phase = .optimality ∧ t.width = 1 + (t.columnsOf .decision + t.columnsOf .offset)
        + t.columnsOf .slack + t.columnsOf .artificial + 1 ∧
      s.Exchanges u ∧ u.CountsLeft t ∧ ∃ j ∈ u.basis, u.label j = .ok (.artificial 0) := by
  obtain ⟨s, t, hinitial, hevolves, hlabels, hphase, hcounts⟩ := exists_evolves_barredProblem
  obtain ⟨hwidth, -, -, hcases⟩ := counts_of_evolves (by decide +kernel) hinitial hevolves
  rw [objectives, hphase] at hwidth
  rcases hcases with ⟨-, hdescribes⟩ | ⟨u, v, -, hu, -, -, -, hleft, -⟩
  · have hslack : t.columnsOf .slack = 0 := congrArg (countKind .slack) hlabels
    have hslacks : t.slacks = 1 := congrArg (·.2.1) hcounts
    rw [hdescribes.slacks_eq, hslack] at hslacks
    cases hslacks
  · refine ⟨s, t, u, hinitial, hevolves, hphase, hwidth, hu, hleft, ?_⟩
    refine (hleft.mem_labels_iff (.artificial 0) rfl).mp ?_
    rw [hlabels]
    exact List.mem_cons_of_mem _ (List.mem_cons_self ..)

end Tableau

end PrimalSimplex
