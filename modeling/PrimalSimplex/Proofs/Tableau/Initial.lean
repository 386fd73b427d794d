/-
  `Proofs.Tableau.Initial`: the entries of an initial tableau.

  Every row is given by the coefficient of each label, the auxiliary objective
  included: what is left of it after rows were taken off is again a function of
  labels.  The basic variable of a constraint has the coefficient one in its own
  row and zero in all others, also in the auxiliary objective, where its one is
  taken off exactly once; so an initial tableau shows its basis.
-/
import PrimalSimplex.Proofs.Column.Layout
import PrimalSimplex.Proofs.Program.Placement
import PrimalSimplex.Proofs.Tableau.Canonical

set_option autoImplicit false

namespace PrimalSimplex

open Column (Kind Label Layout)

variable {F : Type}

/-! ## Placed constraints by position -/

namespace Problem

/-- Every constraint has a place. -/
theorem mem_constraints_iff {p : Problem F} {c : Constraint F} :
    c ∈ p.constraints ↔ ∃ placed ∈ p.placedConstraints, placed.constraint = c := by
  have hplaced : p.placedConstraints.map PlacedConstraint.constraint = p.constraints :=
    PlacedConstraint.map_constraint_place 0 0 p.constraints
  rw [← hplaced, List.mem_map]

theorem slack_lt {p : Problem F} {c : PlacedConstraint F} (hc : c ∈ p.placedConstraints)
    (hslack : c.constraint.relation.hasSlack = true) : c.slack < p.layout.slacks := by
  have hlt := (PlacedConstraint.bounds_of_mem_place hc).2.2.1 hslack
  rwa [Nat.zero_add] at hlt

theorem artificial_lt {p : Problem F} {c : PlacedConstraint F} (hc : c ∈ p.placedConstraints)
    (hneeds : c.constraint.relation.needsArtificial = true) :
    c.artificial < p.layout.artificials := by
  have hlt := (PlacedConstraint.bounds_of_mem_place hc).2.2.2 hneeds
  rwa [Nat.zero_add] at hlt

/-- Slack variables are found by their numbers. -/
theorem find?_slack {p : Problem F} {c : PlacedConstraint F} (hc : c ∈ p.placedConstraints)
    (hslack : c.constraint.relation.hasSlack = true) :
    (p.placedConstraints.find? fun d => d.constraint.relation.hasSlack && d.slack == c.slack) =
      some c := by
  have hpairwise := List.pairwise_iff_getElem.mp (PlacedConstraint.pairwise_place p.constraints 0 0)
  cases hfind : p.placedConstraints.find? fun d =>
      d.constraint.relation.hasSlack && d.slack == c.slack with
  | none =>
    have hout := List.find?_eq_none.mp hfind c hc
    rw [hslack, beq_self_eq_true] at hout
    exact absurd rfl hout
  | some d =>
    have htest := List.find?_some hfind
    obtain ⟨hhas, hequal⟩ := Bool.and_eq_true_iff.mp htest
    have hsame := beq_iff_eq.mp hequal
    obtain ⟨k, hk, rfl⟩ := List.mem_iff_getElem.mp (List.mem_of_find?_eq_some hfind)
    obtain ⟨l, hl, rfl⟩ := List.mem_iff_getElem.mp hc
    rcases Nat.lt_trichotomy k l with hlt | rfl | hgt
    · have := (hpairwise k l hk hl hlt).1 hhas
      exact absurd hsame (Nat.ne_of_lt this)
    · rfl
    · have := (hpairwise l k hl hk hgt).1 hslack
      exact absurd hsame (Nat.ne_of_gt this)

/-- There is a cost for every variable. -/
theorem length_costs [Scalar F] (p : Problem F) :
    p.costs.length = p.objective.variableCount := by
  unfold costs Objective.variableCount
  cases p.goal with
  | maximize => exact List.length_map _
  | minimize => rfl

/-- Two constraints share no basic variable. -/
theorem coefficient_basicLabel_eq [Scalar F] {p : Problem F} {k l : Nat}
    {c d : PlacedConstraint F} (hk : p.placedConstraints[k]? = some c)
    (hl : p.placedConstraints[l]? = some d) :
    d.coefficient c.basicLabel = if l = k then 1 else 0 := by
  have hpairwise := List.pairwise_iff_getElem.mp
    (PlacedConstraint.pairwise_coefficient_eq_zero p.constraints)
  obtain ⟨hklt, rfl⟩ := List.getElem?_eq_some_iff.mp hk
  obtain ⟨hllt, rfl⟩ := List.getElem?_eq_some_iff.mp hl
  rcases Nat.lt_trichotomy l k with hlt | rfl | hgt
  · rw [if_neg (Nat.ne_of_lt hlt)]
    exact (hpairwise l k hllt hklt hlt).2
  · rw [if_pos rfl]
    exact PlacedConstraint.coefficient_basicLabel _
  · rw [if_neg (Nat.ne_of_gt hgt)]
    exact (hpairwise k l hklt hllt hgt).1

/-- The label of a constraint's basic column. -/
theorem getElem?_basicColumn {p : Problem F} {c : PlacedConstraint F}
    (hc : c ∈ p.placedConstraints) :
    p.layout.labels[c.basicColumn p.layout]? = some c.basicLabel ∧
      p.layout.size .objective ≤ c.basicColumn p.layout ∧
      c.basicColumn p.layout + 1 < p.layout.width := by
  unfold PlacedConstraint.basicColumn PlacedConstraint.basicLabel
  split
  · rename_i hneeds
    have hlt : c.artificial < p.layout.artificials := artificial_lt hc hneeds
    have hbounds := p.layout.start_bounds .artificial (by decide) (by decide)
    have hsize : p.layout.size .artificial = p.layout.artificials := rfl
    refine ⟨?_, by omega, by omega⟩
    exact (Layout.getElem?_labels _ (hsize ▸ hlt)).trans (Layout.getElem?_map_range hlt)
  · rename_i hneeds
    have hlt : c.slack < p.layout.slacks :=
      slack_lt hc (PlacedConstraint.hasSlack_of_not_needsArtificial hneeds)
    have hbounds := p.layout.start_bounds .slack (by decide) (by decide)
    have hsize : p.layout.size .slack = p.layout.slacks := rfl
    refine ⟨?_, by omega, by omega⟩
    exact (Layout.getElem?_labels _ (hsize ▸ hlt)).trans (Layout.getElem?_map_range hlt)

end Problem

/-! ## The auxiliary objective -/

theorem Row.subtract_map [Scalar F] {α : Type} (multiple : F) (labels : List α) (f g : α → F) :
    Row.subtract multiple (labels.map f) (labels.map g) =
      labels.map fun label => f label - multiple * g label := by
  induction labels with
  | nil => rfl
  | cons label labels ih => rw [List.map_cons, List.map_cons, List.map_cons, ← ih]; rfl

/-- The coefficient of each variable in the auxiliary objective, before it is
expressed in the variables that are not basic. -/
def auxiliaryCoefficient [Scalar F] : Label → F
  | .auxiliary => -1
  | .artificial _ => 1
  | _ => 0

section Auxiliary

variable [Field F] [LinearOrder F]

namespace PlacedConstraint

/-- What a constraint with an artificial variable takes off the auxiliary objective. -/
def takenOff (label : Label) (c : PlacedConstraint F) : F :=
  if c.constraint.relation.needsArtificial then c.coefficient label else 0

theorem takenOff_eq_zero {label : Label} {c : PlacedConstraint F} (h : c.coefficient label = 0) :
    c.takenOff label = 0 := by
  rw [takenOff, h, ite_self]

/-- Where no constraint has the variable as its artificial one, rows are taken off and
that is all. -/
theorem foldl_express {label : Label} {placed : List (PlacedConstraint F)}
    (h : ∀ c ∈ placed, c.constraint.relation.needsArtificial = true →
      label ≠ .artificial c.artificial) (x : F) :
    placed.foldl (express label) x = x - (placed.map (takenOff label)).sum := by
  induction placed generalizing x with
  | nil => exact (sub_zero x).symm
  | cons c placed ih =>
    have hstep : express label x c = x - c.takenOff label := by
      unfold express takenOff
      split
      · rename_i hneeds
        rw [if_neg (h c (List.mem_cons_self ..) hneeds), one_mul]
      · exact (sub_zero x).symm
    rw [List.foldl_cons, ih fun d hd => h d (List.mem_cons_of_mem _ hd), hstep, List.map_cons,
      List.sum_cons, sub_sub]

/-- An artificial variable counts for one as soon as its constraint has its row, and before
that it might as well, since it occurs in no other row. -/
theorem foldl_express_artificial {constraints : List (Constraint F)} {slack artificial i : Nat}
    (hlow : artificial ≤ i)
    (hhigh : i < artificial + constraints.countP fun c => c.relation.needsArtificial) (x : F) :
    (place slack artificial constraints).foldl (express (.artificial i)) x =
      1 - ((place slack artificial constraints).map (takenOff (.artificial i))).sum := by
  induction constraints generalizing slack artificial x with
  | nil => exact absurd hlow (Nat.not_le_of_lt hhigh)
  | cons c rest ih =>
    rw [List.countP_cons] at hhigh
    rw [place, List.foldl_cons, List.map_cons, List.sum_cons]
    by_cases hneeds : c.relation.needsArtificial = true
    · rw [if_pos hneeds] at hhigh
      rw [if_pos hneeds]
      by_cases hown : i = artificial
      · -- No later constraint has the same one.
        have hlater : ∀ d ∈
            place (slack + if c.relation.hasSlack then 1 else 0) (artificial + 1) rest,
            d.constraint.relation.needsArtificial = true →
              Label.artificial i ≠ .artificial d.artificial := by
          intro d hd _ heq
          have hle := (bounds_of_mem_place hd).2.1
          have hsame := Label.artificial.inj heq
          omega
        have hfirst : express (.artificial i) x ⟨c, slack, artificial⟩ =
            1 - takenOff (.artificial i) ⟨c, slack, artificial⟩ := by
          unfold express takenOff
          rw [if_pos hneeds, if_pos hneeds, if_pos (congrArg Label.artificial hown), one_mul]
        rw [hfirst, foldl_express hlater, sub_sub]
      · have hfirst : takenOff (F := F) (.artificial i) ⟨c, slack, artificial⟩ = 0 :=
          takenOff_eq_zero (coefficient_artificial_eq_zero fun _ => hown)
        rw [hfirst, zero_add]
        exact ih (by omega) (by omega) _
    · rw [if_neg hneeds] at hhigh
      have hfirst : takenOff (F := F) (.artificial i) ⟨c, slack, artificial⟩ = 0 := if_neg hneeds
      rw [if_neg hneeds, hfirst, zero_add]
      exact ih hlow hhigh _

end PlacedConstraint

/-- Over exact numbers, the row of the auxiliary objective is this objective less the rows
with an artificial variable. -/
theorem Problem.auxiliaryCost_eq_sub {p : Problem F} {label : Label}
    (h : label ∈ p.layout.labels) :
    p.auxiliaryCost label =
      auxiliaryCoefficient label - (p.placedConstraints.map (·.takenOff label)).sum := by
  unfold auxiliaryCost
  cases label with
  | artificial i =>
    obtain ⟨k, hk, heq⟩ := List.mem_map.mp (Layout.mem_groupLabels_of_mem_labels h)
    obtain rfl := Label.artificial.inj heq
    refine PlacedConstraint.foldl_express_artificial (Nat.zero_le _) ?_ _
    rw [Nat.zero_add]
    exact List.mem_range.mp hk
  | _ =>
    refine PlacedConstraint.foldl_express (fun c _ _ hown => ?_) _
    cases hown

/-- A variable that occurs in no constraint keeps its coefficient. -/
theorem Problem.auxiliaryCost_eq {p : Problem F} {label : Label}
    (h : ∀ c ∈ p.placedConstraints, c.coefficient label = 0) (hmem : label ∈ p.layout.labels) :
    p.auxiliaryCost label = auxiliaryCoefficient label := by
  have hzero : (p.placedConstraints.map (·.takenOff label)).sum = 0 := by
    refine List.sum_eq_zero fun term hterm => ?_
    obtain ⟨c, hc, rfl⟩ := List.mem_map.mp hterm
    exact PlacedConstraint.takenOff_eq_zero (h c hc)
  rw [auxiliaryCost_eq_sub hmem, hzero, sub_zero]

/-- Basic variables have no part in the auxiliary objective. -/
theorem Problem.auxiliaryCost_basicLabel {p : Problem F} {c : PlacedConstraint F}
    (hc : c ∈ p.placedConstraints) : p.auxiliaryCost c.basicLabel = 0 := by
  obtain ⟨before, after, hplaced⟩ := List.append_of_mem hc
  have hpairwise : p.placedConstraints.Pairwise _ :=
    PlacedConstraint.pairwise_coefficient_eq_zero p.constraints
  rw [hplaced] at hpairwise
  obtain ⟨_, hafter, hbefore⟩ := List.pairwise_append.mp hpairwise
  have hafter := (List.pairwise_cons.mp hafter).1
  have hzero : ∀ others : List (PlacedConstraint F),
      (∀ d ∈ others, d.coefficient c.basicLabel = 0) →
      (others.map (·.takenOff c.basicLabel)).sum = 0 := by
    intro others hothers
    refine List.sum_eq_zero fun term hterm => ?_
    obtain ⟨d, hd, rfl⟩ := List.mem_map.mp hterm
    exact PlacedConstraint.takenOff_eq_zero (hothers d hd)
  rw [auxiliaryCost_eq_sub (List.mem_of_getElem? (getElem?_basicColumn hc).1), hplaced,
    List.map_append, List.sum_append, List.map_cons, List.sum_cons,
    hzero before fun d hd => (hbefore d hd c (List.mem_cons_self ..)).2,
    hzero after fun d hd => (hafter d hd).1, PlacedConstraint.takenOff, c.coefficient_basicLabel,
    zero_add, add_zero]
  unfold PlacedConstraint.basicLabel
  split
  · exact sub_self 1
  · exact sub_self 0

end Auxiliary

/-! ## The tableau -/

namespace Tableau

/-- The tableau is the initial one of a problem. -/
structure IsInitial [Scalar F] (p : Problem F) (t : Tableau F) : Prop where
  length_eq : ∀ c ∈ p.constraints, c.coefficients.length = p.objective.variableCount
  rows_eq : t.matrix.rows = p.initialRows
  width_eq : t.width = p.layout.width
  labels_eq : t.labels = p.layout.labels
  basis_eq : t.basis = p.placedConstraints.map fun c => c.basicColumn p.layout
  artificials_eq : t.artificials = p.layout.artificials
  phase_eq : t.phase = if 0 < p.layout.artificials then .feasibility else .optimality
  nonNegative_eq : t.nonNegative = p.nonNegative

/-- A problem has an initial tableau as soon as all lengths match. -/
theorem exists_initial [Scalar F] {p : Problem F} (tolerance : F)
    (hlength : ∀ c ∈ p.constraints, c.coefficients.length = p.objective.variableCount) :
    ∃ t, initial p tolerance = .ok t := by
  have hall : (p.constraints.all fun c =>
      c.coefficients.length == p.objective.variableCount) = true :=
    List.all_eq_true.mpr fun c hc => beq_iff_eq.mpr (hlength c hc)
  unfold initial
  rw [if_pos hall]
  exact ⟨_, rfl⟩

theorem isInitial_of_initial_eq [Scalar F] {p : Problem F} {tolerance : F} {t : Tableau F}
    (h : initial p tolerance = .ok t) : t.tolerance = tolerance ∧ t.IsInitial p := by
  unfold initial at h
  split at h
  · rename_i hall
    obtain rfl := Except.ok.inj h
    have hlength := List.all_eq_true.mp hall
    exact ⟨rfl, fun c hc => beq_iff_eq.mp (hlength c hc), rfl, rfl, rfl, rfl, rfl, rfl, rfl⟩
  · cases h

theorem sizes_of_initial_eq [Scalar F] {p : Problem F} {tolerance : F} {t : Tableau F}
    (h : initial p tolerance = .ok t) :
    t.decisions = p.layout.size .decision + p.layout.size .offset ∧
      t.slacks = p.layout.slacks := by
  unfold initial at h
  split at h
  · obtain rfl := Except.ok.inj h
    exact ⟨rfl, rfl⟩
  · cases h

namespace IsInitial

variable {p : Problem F} {t : Tableau F}

/-! ### Sizes -/

section Sizes

variable [Scalar F]

theorem objectives_eq (h : t.IsInitial p) : t.objectives = p.layout.size .objective := by
  rw [objectives, h.phase_eq, Layout.size]
  split
  · rfl
  · rfl

/-- There is a first phase exactly when there are artificial variables. -/
theorem phase_eq_feasibility_iff (h : t.IsInitial p) :
    t.phase = .feasibility ↔ 0 < p.layout.artificials := by
  rw [h.phase_eq]
  split
  · rename_i hsome
    exact iff_of_true rfl hsome
  · rename_i hnone
    exact iff_of_false nofun hnone

theorem length_objectiveRows (h : t.IsInitial p) : p.objectiveRows.length = t.objectives := by
  rw [h.objectives_eq, Layout.size, Problem.objectiveRows]
  split
  · rfl
  · rfl

theorem height_eq (h : t.IsInitial p) :
    t.height = t.objectives + p.placedConstraints.length := by
  show t.matrix.rows.length = _
  rw [h.rows_eq, Problem.initialRows, List.length_append, h.length_objectiveRows, List.length_map]

theorem size_objective_lt_width (h : t.IsInitial p) : p.layout.size .objective < t.width := by
  have hbounds := p.layout.start_bounds .decision (by decide) (by decide)
  rw [h.width_eq]
  omega

/-- The rows of constraints hold their coefficients. -/
theorem getElem?_constraint (h : t.IsInitial p) {k : Nat} {c : PlacedConstraint F}
    (hc : p.placedConstraints[k]? = some c) :
    t.matrix.rows[t.objectives + k]? = some (p.row c.coefficient) := by
  rw [h.rows_eq, Problem.initialRows,
    List.getElem?_append_right (by rw [h.length_objectiveRows]; omega), h.length_objectiveRows,
    Nat.add_sub_cancel_left, List.getElem?_map, hc, Option.map_some]

/-- So does the row of the objective. -/
theorem getElem?_objective (h : t.IsInitial p) :
    t.matrix.rows[t.objectiveRow]? = some (p.row p.objectiveCoefficient) := by
  have hlt : t.objectiveRow < p.objectiveRows.length := by
    rw [h.length_objectiveRows]
    exact t.objectiveRow_lt
  rw [h.rows_eq, Problem.initialRows, List.getElem?_append_left hlt, objectiveRow,
    h.objectives_eq, Layout.size, Problem.objectiveRows]
  split
  · rfl
  · rfl

/-- And that of the auxiliary objective, where it is. -/
theorem getElem?_auxiliary (h : t.IsInitial p) (hphase : t.phase = .feasibility) :
    t.matrix.rows[0]? = some (p.row p.auxiliaryCost) := by
  rw [h.rows_eq, Problem.initialRows, Problem.objectiveRows,
    if_pos (h.phase_eq_feasibility_iff.mp hphase)]
  rfl

theorem basicColumn_mem (h : t.IsInitial p) {c : PlacedConstraint F}
    (hc : c ∈ p.placedConstraints) : c.basicColumn p.layout ∈ t.variableColumns := by
  obtain ⟨_, hlow, hhigh⟩ := Problem.getElem?_basicColumn hc
  have hbound : t.boundColumn = t.width - 1 := rfl
  rw [mem_variableColumns, h.objectives_eq, hbound, h.width_eq]
  omega

theorem wellShaped (h : t.IsInitial p) : t.WellShaped where
  length_labels := by rw [h.labels_eq, Layout.length_labels, h.width_eq]
  height_eq := by rw [h.height_eq, h.basis_eq, List.length_map]
  objectives_lt_width := h.objectives_eq ▸ h.size_objective_lt_width
  basis_lt c hc := by
    rw [h.basis_eq] at hc
    obtain ⟨placed, hplaced, rfl⟩ := List.mem_map.mp hc
    have hhigh := (Problem.getElem?_basicColumn hplaced).2.2
    rw [h.width_eq]
    omega

/-- The columns have the labels of the layout. -/
theorem labelAt_mem (h : t.IsInitial p) {j : Nat} (hj : j < t.width) :
    t.labelAt j ∈ p.layout.labels :=
  h.labels_eq ▸ List.mem_of_getElem? (h.wellShaped.getElem?_labels hj)

end Sizes

/-! ### Entries -/

variable [Field F] [LinearOrder F]

theorem coeff_of_row (h : t.IsInitial p) {i j : Nat} {coefficient : Label → F}
    (hrow : t.matrix.rows[i]? = some (p.row coefficient)) (hj : j < t.width) :
    t.coeff i j = coefficient (t.labelAt j) := by
  have hlabel : p.layout.labels[j]? = some (t.labelAt j) :=
    h.labels_eq ▸ h.wellShaped.getElem?_labels hj
  refine Matrix.coeff_of_getElem? hrow ?_
  rw [Problem.row, List.getElem?_map, hlabel, Option.map_some]

theorem labelAt_boundColumn (h : t.IsInitial p) : t.labelAt t.boundColumn = .bound := by
  have hlabels := h.labels_eq.trans p.layout.labels_eq
  have hlast : t.boundColumn = t.labels.length - 1 := by
    rw [h.wellShaped.length_labels]
    rfl
  apply labelAt_of_getElem?
  rw [hlast, ← List.getLast?_eq_getElem?, hlabels, List.getLast?_concat]

theorem coeff_constraint (h : t.IsInitial p) {k j : Nat} {c : PlacedConstraint F}
    (hc : p.placedConstraints[k]? = some c) (hj : j < t.width) :
    t.coeff (t.objectives + k) j = c.coefficient (t.labelAt j) :=
  h.coeff_of_row (h.getElem?_constraint hc) hj

theorem coeff_objective (h : t.IsInitial p) {j : Nat} (hj : j < t.width) :
    t.coeff t.objectiveRow j = p.objectiveCoefficient (t.labelAt j) :=
  h.coeff_of_row h.getElem?_objective hj

theorem coeff_auxiliary (h : t.IsInitial p) (hphase : t.phase = .feasibility) {j : Nat}
    (hj : j < t.width) : t.coeff 0 j = p.auxiliaryCost (t.labelAt j) :=
  h.coeff_of_row (h.getElem?_auxiliary hphase) hj

/-- The rows of an initial tableau. -/
theorem row_cases (h : t.IsInitial p) {i : Nat} (hi : i < t.height) :
    (∃ k c, i = t.objectives + k ∧ p.placedConstraints[k]? = some c) ∨
      i = t.objectiveRow ∨ i = 0 ∧ t.phase = .feasibility := by
  have hheight := h.height_eq
  rcases Nat.lt_or_ge i t.objectives with hobjective | hconstraint
  · cases hphase : t.phase with
    | feasibility =>
      have htwo : t.objectives = 2 := by rw [objectives, hphase]; rfl
      have hrow : t.objectiveRow = t.objectives - 1 := rfl
      rcases Nat.eq_zero_or_pos i with hzero | hpos
      · exact .inr (.inr ⟨hzero, rfl⟩)
      · exact .inr (.inl (by omega))
    | optimality =>
      have hone : t.objectives = 1 := by rw [objectives, hphase]; rfl
      have hrow : t.objectiveRow = t.objectives - 1 := rfl
      exact .inr (.inl (by omega))
  · have hlt : i - t.objectives < p.placedConstraints.length := by omega
    exact .inl ⟨i - t.objectives, _, by omega, List.getElem?_eq_getElem hlt⟩

/-- An initial tableau shows its basis. -/
theorem canonical (h : t.IsInitial p) : t.Canonical where
  toWellShaped := h.wellShaped
  nodup_labels := h.labels_eq ▸ p.layout.nodup_labels
  basis_mem c hc := by
    rw [h.basis_eq] at hc
    obtain ⟨placed, hplaced, rfl⟩ := List.mem_map.mp hc
    exact h.basicColumn_mem hplaced
  unit k column hk i hi := by
    rw [h.basis_eq, List.getElem?_map] at hk
    obtain ⟨c, hc, rfl⟩ := Option.map_eq_some_iff.mp hk
    have hmem := List.mem_of_getElem? hc
    have hwidth := h.wellShaped.lt_width_of_mem (h.basicColumn_mem hmem)
    have hlabel : t.labelAt (c.basicColumn p.layout) = c.basicLabel :=
      labelAt_of_getElem? (h.labels_eq ▸ (Problem.getElem?_basicColumn hmem).1)
    have hobjective := t.objectiveRow_lt
    have hpos := t.objectives_pos
    rcases h.row_cases hi with ⟨l, d, rfl, hd⟩ | rfl | ⟨rfl, hphase⟩
    · rw [h.coeff_constraint hd hwidth, hlabel, Problem.coefficient_basicLabel_eq hc hd]
      exact if_congr (by omega) rfl rfl
    · rw [h.coeff_objective hwidth, hlabel, if_neg (by omega)]
      unfold PlacedConstraint.basicLabel
      split
      · rfl
      · rfl
    · rw [h.coeff_auxiliary hphase hwidth, hlabel, if_neg (by omega)]
      exact Problem.auxiliaryCost_basicLabel hmem

end IsInitial

end Tableau

end PrimalSimplex
