/-
  `Proofs.Solver.ExplicitOffset`: variables that may be negative.

  Where the variables may be negative, each of them is the difference of a variable
  that may not and one offset that all of them share.  The offset has a column of its
  own, made from sums of coefficients.  It is an ordinary variable: a problem that
  has the offset as one more decision variable begins with the same tableau, but for
  the name of that column, and so it is solved in the same way.
-/
import Mathlib.Logic.Equiv.Basic
import PrimalSimplex.Proofs.Solver.Outcome
import PrimalSimplex.Proofs.Solver.Rephrasing

set_option autoImplicit false

namespace PrimalSimplex

open Column (Label Layout)

/-! ## Names -/

/-- The offset is called a decision variable, and all numbers are shared. -/
def Likeness.explicitOffset (variableCount : Nat) : Likeness where
  rename := Equiv.swap .offset (.decision variableCount)
  isArtificial_rename := Equiv.apply_swap_eq_self rfl
  Signs sign sign' := sign = false ∧ sign' = true
  Shares _ _ _ _ := True
  shares_cost _ _ := trivial
  shares_bound _ := trivial
  shares_auxiliary := trivial
  shares_row _ _ := trivial
  shares_column _ _ _ := trivial

namespace Likeness

variable {variableCount : Nat}

theorem crosses_explicitOffset : (explicitOffset variableCount).Crosses := fun _ _ _ => trivial

theorem explicitOffset_offset :
    (explicitOffset variableCount).rename .offset = .decision variableCount :=
  Equiv.swap_apply_left _ _

/-- All other variables of a problem keep their names. -/
theorem explicitOffset_of_ne {label : Label} (hoffset : label ≠ .offset)
    (hdecision : label ≠ .decision variableCount) :
    (explicitOffset variableCount).rename label = label :=
  Equiv.swap_apply_of_ne_of_ne hoffset hdecision

theorem explicitOffset_decision {i : Nat} (hi : i < variableCount) :
    (explicitOffset variableCount).rename (.decision i) = .decision i :=
  explicitOffset_of_ne nofun fun h => Nat.ne_of_lt hi (Label.decision.inj h)

end Likeness

/-! ## Problems -/

variable {F : Type} [Field F]

/-- The constraint with the offset as its last variable. -/
def Constraint.explicitOffset (c : Constraint F) : Constraint F :=
  { c with coefficients := c.coefficients ++ [-c.coefficients.sum] }

/-- The objective with the offset as its last variable. -/
def Objective.explicitOffset (o : Objective F) : Objective F :=
  { o with coefficients := o.coefficients ++ [-o.coefficients.sum] }

/-- The problem with the offset as its last variable, where no variable may be
negative. -/
def Problem.explicitOffset (p : Problem F) : Problem F where
  objective := p.objective.explicitOffset
  constraints := p.constraints.map Constraint.explicitOffset
  goal := p.goal
  nonNegative := true

theorem Objective.variableCount_explicitOffset (o : Objective F) :
    o.explicitOffset.variableCount = o.variableCount + 1 :=
  List.length_append

variable [LinearOrder F]

theorem Constraint.standardize_explicitOffset (c : Constraint F) :
    c.explicitOffset.standardize = c.standardize.explicitOffset := by
  unfold standardize
  show (if Scalar.isLt c.bound 0 then _ else _) = _
  split
  · have hsum : -c.coefficients.sum = (c.coefficients.map fun a => -a).sum := List.sum_neg _
    show Constraint.mk ((c.coefficients ++ [-c.coefficients.sum]).map fun a => -a) _ _ =
      Constraint.mk ((c.coefficients.map fun a => -a) ++ [-(c.coefficients.map fun a => -a).sum])
        _ _
    rw [← hsum, List.map_append]
    rfl
  · rfl

namespace Problem

variable {p : Problem F}

theorem standardize_explicitOffset (p : Problem F) :
    p.explicitOffset.standardize = p.standardize.explicitOffset := by
  have hconstraints : (p.constraints.map Constraint.explicitOffset).map Constraint.standardize =
      (p.constraints.map Constraint.standardize).map Constraint.explicitOffset := by
    rw [List.map_map, List.map_map]
    exact List.map_congr_left fun c _ => c.standardize_explicitOffset
  exact congrArg (Problem.mk _ · _ _) hconstraints

omit [LinearOrder F] in
theorem WellFormed.explicitOffset (h : p.WellFormed) : p.explicitOffset.WellFormed where
  variableCount_ne_zero := by
    show p.objective.explicitOffset.variableCount ≠ 0
    rw [Objective.variableCount_explicitOffset]
    exact Nat.succ_ne_zero _
  length_eq c hc := by
    obtain ⟨d, hd, rfl⟩ := List.mem_map.mp hc
    show (d.coefficients ++ [_]).length = p.objective.explicitOffset.variableCount
    rw [Objective.variableCount_explicitOffset, List.length_append, h.length_eq d hd]
    rfl

/-- Of a well-formed problem, only the tolerance can be malformed. -/
theorem WellFormed.defects_eq (h : p.WellFormed) (tolerance : F) :
    p.defects tolerance = toleranceDefects tolerance := by
  have hzero := defects_eq_nil_iff.mpr ⟨le_refl 0, h⟩
  obtain ⟨hfront, hsum⟩ := List.append_eq_nil_iff.mp hzero
  obtain ⟨hfront, hconstraints⟩ := List.append_eq_nil_iff.mp hfront
  obtain ⟨_, hobjective⟩ := List.append_eq_nil_iff.mp hfront
  rw [defects, hsum, hconstraints, hobjective, List.append_nil, List.append_nil, List.append_nil]

/-! ## Columns -/

omit [LinearOrder F] in
theorem layout_explicitOffset (p : Problem F) :
    p.explicitOffset.layout =
      { p.layout with decisions := p.objective.variableCount + 1, hasOffset := false } := by
  unfold layout
  rw [explicitOffset, List.countP_map, List.countP_map, Objective.variableCount_explicitOffset]
  rfl

omit [LinearOrder F] in
/-- The column of the offset becomes that of the last decision variable. -/
theorem labels_explicitOffset (hsign : p.nonNegative = false) :
    p.explicitOffset.layout.labels =
      p.layout.labels.map (Likeness.explicitOffset p.objective.variableCount).rename := by
  have hkept : ∀ group : Column.Kind, group ≠ .decision → group ≠ .offset →
      (p.layout.groupLabels group).map (Likeness.explicitOffset p.objective.variableCount).rename =
        p.layout.groupLabels group := by
    intro group hdecision hoffset
    refine (List.map_congr_left fun label hlabel => ?_).trans (List.map_id _)
    have hkind := Layout.kind_of_mem_groupLabels hlabel
    refine Likeness.explicitOffset_of_ne ?_ ?_
    · rintro rfl
      exact hoffset hkind.symm
    · rintro rfl
      exact hdecision hkind.symm
  have hdecisions : (p.layout.groupLabels .decision).map
      (Likeness.explicitOffset p.objective.variableCount).rename =
        p.layout.groupLabels .decision := by
    refine (List.map_congr_left fun label hlabel => ?_).trans (List.map_id _)
    obtain ⟨i, hi, rfl⟩ := List.mem_map.mp hlabel
    exact Likeness.explicitOffset_decision (List.mem_range.mp hi)
  have hoffset : (p.layout.groupLabels .offset).map
      (Likeness.explicitOffset p.objective.variableCount).rename =
        [.decision p.objective.variableCount] := by
    have hgroup : p.layout.groupLabels .offset = [.offset] := by
      unfold Layout.groupLabels layout
      rw [hsign]
      rfl
    rw [hgroup, List.map_singleton, Likeness.explicitOffset_offset]
  have hgroups : p.explicitOffset.layout.groupLabels .decision =
      p.layout.groupLabels .decision ++ [.decision p.objective.variableCount] := by
    rw [layout_explicitOffset]
    show (List.range (p.objective.variableCount + 1)).map Label.decision = _
    rw [List.range_succ, List.map_append]
    rfl
  have hbound : [Label.bound].map (Likeness.explicitOffset p.objective.variableCount).rename =
      [.bound] := hkept .bound (by decide) (by decide)
  have hempty : p.explicitOffset.layout.groupLabels .offset = [] := by
    rw [layout_explicitOffset]
    rfl
  rw [Layout.labels_eq, Layout.unknowns, hgroups, hempty, List.append_nil, layout_explicitOffset,
    Layout.labels_eq, Layout.unknowns, List.map_append, List.map_append, List.map_append,
    List.map_append, List.map_append, hkept .objective (by decide) (by decide), hdecisions, hoffset,
    hkept .slack (by decide) (by decide), hkept .artificial (by decide) (by decide), hbound]
  rfl

omit [LinearOrder F] in
theorem placedConstraints_explicitOffset (p : Problem F) :
    p.explicitOffset.placedConstraints = p.placedConstraints.map fun c =>
      { c with constraint := c.constraint.explicitOffset } := by
  have hplace : ∀ (constraints : List (Constraint F)) (slack artificial : Nat),
      PlacedConstraint.place slack artificial (constraints.map Constraint.explicitOffset) =
        (PlacedConstraint.place slack artificial constraints).map fun c =>
          { c with constraint := c.constraint.explicitOffset } := by
    intro constraints
    induction constraints with
    | nil =>
      intro slack artificial
      rfl
    | cons c rest ih =>
      intro slack artificial
      exact congrArg (PlacedConstraint.mk c.explicitOffset slack artificial :: ·) (ih _ _)
  exact hplace p.constraints 0 0

theorem costs_explicitOffset (p : Problem F) :
    p.explicitOffset.costs = p.costs ++ [-p.costs.sum] := by
  have hgoal : p.explicitOffset.goal = p.goal := rfl
  unfold costs
  rw [hgoal]
  cases p.goal with
  | minimize => rfl
  | maximize =>
    have hsum : -p.objective.coefficients.sum = (p.objective.coefficients.map fun a => -a).sum :=
      List.sum_neg _
    show (p.objective.coefficients ++ [-p.objective.coefficients.sum]).map _ =
      p.objective.coefficients.map _ ++ _
    rw [List.map_append, ← hsum]
    rfl

/-! ## Coefficients -/

omit [Field F] [LinearOrder F] in
theorem lt_of_decision_mem_labels {i : Nat} (h : Label.decision i ∈ p.layout.labels) :
    i < p.objective.variableCount := by
  obtain ⟨k, hk, hlabel⟩ := List.mem_map.mp (Layout.mem_groupLabels_of_mem_labels h)
  obtain rfl := Label.decision.inj hlabel
  exact List.mem_range.mp hk

/-- Coefficients that are those of a list, and of its negated sum, stay the same when
the negated sum becomes the last of the list. -/
theorem coefficient_rename {f g : Label → F} {coefficients : List F}
    (hlength : coefficients.length = p.objective.variableCount)
    (hdecision : ∀ i, f (.decision i) = coefficients.getD i 0)
    (hoffset : f .offset = LinearForm.negatedSum coefficients)
    (hexplicit : ∀ i, g (.decision i) = (coefficients ++ [-coefficients.sum]).getD i 0)
    (hother : ∀ label : Label, label.kind ≠ .decision → label.kind ≠ .offset → g label = f label)
    {label : Label} (hlabel : label ∈ p.layout.labels) :
    g ((Likeness.explicitOffset p.objective.variableCount).rename label) = f label := by
  cases label with
  | decision i =>
    have hi := lt_of_decision_mem_labels hlabel
    rw [Likeness.explicitOffset_decision hi, hexplicit, hdecision, List.getD_eq_getElem?_getD,
      List.getElem?_append_left (hlength.symm ▸ hi), ← List.getD_eq_getElem?_getD]
  | offset =>
    rw [Likeness.explicitOffset_offset, hexplicit, hoffset, ← hlength,
      List.getD_eq_getElem?_getD, List.getElem?_concat_length, LinearForm.negatedSum_eq_neg_sum]
    rfl
  | auxiliary => exact hother .auxiliary nofun nofun
  | objective => exact hother .objective nofun nofun
  | slack i => exact hother (.slack i) nofun nofun
  | artificial i => exact hother (.artificial i) nofun nofun
  | bound => exact hother .bound nofun nofun

/-- The problem with an explicit offset is the same in other words. -/
theorem rephrases_explicitOffset (hsign : p.nonNegative = false)
    (hlength : ∀ c ∈ p.constraints, c.coefficients.length = p.objective.variableCount) :
    p.Rephrases (.explicitOffset p.objective.variableCount) p.explicitOffset where
  labels_eq := labels_explicitOffset hsign
  decisions_eq := by
    rw [layout_explicitOffset]
    show p.objective.variableCount + 1 + 0 =
      p.objective.variableCount + if !p.nonNegative then 1 else 0
    rw [hsign]
    rfl
  slacks_eq := by rw [layout_explicitOffset]
  artificials_eq := by rw [layout_explicitOffset]
  signs := ⟨hsign, rfl⟩
  constraints := by
    rw [placedConstraints_explicitOffset, List.forall₂_map_right_iff]
    refine List.forall₂_same.mpr fun c hc => ⟨rfl, rfl, rfl, fun label hlabel => ?_⟩
    refine coefficient_rename (hlength _ (mem_constraints_iff.mpr ⟨c, hc, rfl⟩)) (fun _ => rfl) rfl
      (fun _ => rfl) (fun label hdecision hoffset => ?_) hlabel
    cases label with
    | decision i => exact absurd rfl hdecision
    | offset => exact absurd rfl hoffset
    | auxiliary => rfl
    | objective => rfl
    | slack i => rfl
    | artificial i => rfl
    | bound => rfl
  auxiliaryCoefficient_rename label _ :=
    Equiv.apply_swap_eq_self (v := auxiliaryCoefficient) (i := .offset) (j := .decision _) rfl label
  objectiveCoefficient_rename hlabel _ := by
    refine coefficient_rename (p.length_costs) (fun _ => rfl) rfl
      (fun i => congrArg (List.getD · i 0) p.costs_explicitOffset)
      (fun label hdecision hoffset => ?_) (List.mem_of_getElem? hlabel)
    cases label with
    | decision i => exact absurd rfl hdecision
    | offset => exact absurd rfl hoffset
    | auxiliary => rfl
    | objective => rfl
    | slack i => rfl
    | artificial i => rfl
    | bound => rfl

end Problem

/-! ## Points -/

omit [LinearOrder F] in
/-- A form at a point that is shifted is the form with an explicit offset. -/
theorem LinearForm.dot_explicitOffset {coefficients kept : List F}
    (hlength : kept.length = coefficients.length) (offset : F) :
    dot (coefficients ++ [-coefficients.sum]) (kept ++ [offset]) =
      dot coefficients (kept.map (· - offset)) := by
  have hshift : ∀ (cs xs : List F) (o : F), xs.length = cs.length → ∀ extra : F,
      dot (cs ++ [extra]) (xs ++ [o]) = dot cs (xs.map (· - o)) + (cs.sum + extra) * o := by
    intro cs
    induction cs with
    | nil =>
      intro xs o hxs extra
      obtain rfl := List.length_eq_zero_iff.mp hxs
      simp
    | cons c cs ih =>
      intro xs o hxs extra
      cases xs with
      | nil => cases hxs
      | cons x xs =>
        rw [List.cons_append, List.cons_append, dot_cons_cons, ih xs o (Nat.succ.inj hxs),
          List.map_cons, dot_cons_cons, List.sum_cons]
        ring
  rw [hshift coefficients kept offset hlength, add_neg_cancel, zero_mul, add_zero]

/-- The point of the one tableau is that of the other one, less the offset. -/
theorem Tableau.Resembles.point_explicitOffset {t u : Tableau F} {o : Objective F}
    {a b : Solution F} (h : t.Resembles (.explicitOffset o.variableCount) u)
    (ha : t.solution o = .ok a) (hb : u.solution o.explicitOffset = .ok b) :
    b.value = a.value ∧ ∃ kept offset, kept.length = o.variableCount ∧
      b.point = kept ++ [offset] ∧ a.point = kept.map (· - offset) := by
  obtain ⟨hfree, hrestricted⟩ := h.signs
  obtain rfl := Except.ok.inj ((h.wellShaped.solution_eq_ok o).symm.trans ha)
  obtain rfl :=
    Except.ok.inj ((h.wellShaped_right.solution_eq_ok o.explicitOffset).symm.trans hb)
  have hkept : ((List.range o.variableCount).map fun i => t.basicValue (.decision i)).length =
      o.variableCount := by
    rw [List.length_map, List.length_range]
  have hpoint : ((List.range o.explicitOffset.variableCount).map fun i =>
      u.basicValue (.decision i) - u.basicOffset) =
      ((List.range o.variableCount).map fun i => t.basicValue (.decision i)) ++
        [t.basicValue .offset] := by
    have hlast := h.basicValue_rename .offset
    rw [Likeness.explicitOffset_offset] at hlast
    have hzero : u.basicOffset = 0 := by
      unfold basicOffset
      rw [hrestricted]
      rfl
    rw [Objective.variableCount_explicitOffset, List.range_succ, List.map_append, hzero]
    refine congrArg₂ (· ++ ·) (List.map_congr_left fun i hi => ?_) ?_
    · have hsame := h.basicValue_rename (.decision i)
      rw [Likeness.explicitOffset_decision (List.mem_range.mp hi)] at hsame
      rw [hsame, sub_zero]
    · rw [List.map_singleton, hlast, sub_zero]
  have hshifted : ((List.range o.variableCount).map fun i =>
      t.basicValue (.decision i) - t.basicOffset) =
      ((List.range o.variableCount).map fun i => t.basicValue (.decision i)).map
        (· - t.basicValue .offset) := by
    unfold basicOffset
    rw [hfree, List.map_map]
    rfl
  refine ⟨?_, _, _, hkept, hpoint, hshifted⟩
  show o.explicitOffset.value _ = o.value _
  rw [hpoint, hshifted, Objective.value_eq_add_dot, Objective.value_eq_add_dot]
  exact congrArg (o.constant + ·) (LinearForm.dot_explicitOffset hkept _)

/-! ## Runs -/

namespace Solver

/-- To solve a problem whose variables may be negative is to solve that with an
explicit offset, which is then subtracted.  Unless the tolerance is negative, neither of
them is rejected. -/
theorem optimize_explicitOffset (s : Solver F) {p : Problem F} (hwell : p.WellFormed)
    (hsign : p.nonNegative = false) :
    ∃ report report' s', s.optimize p = .ok (report, s') ∧
      s.optimize p.explicitOffset = .ok (report', s') ∧
      SameOutcome (fun a b => b.value = a.value ∧ ∃ kept offset,
        kept.length = p.objective.variableCount ∧ b.point = kept ++ [offset] ∧
        a.point = kept.map (· - offset)) report.result report'.result ∧
      (0 ≤ s.settings.tolerance → ∀ m, report.result ≠ .error (.malformedInput m) ∧
        report'.result ≠ .error (.malformedInput m)) := by
  have hrephrases : p.standardize.Rephrases (.explicitOffset p.objective.variableCount)
      p.explicitOffset.standardize := by
    rw [Problem.standardize_explicitOffset]
    refine Problem.rephrases_explicitOffset (p := p.standardize) hsign fun c hc => ?_
    obtain ⟨given, hgiven, rfl⟩ := List.mem_map.mp hc
    rw [Constraint.length_coefficients_standardize]
    exact hwell.length_eq given hgiven
  have hdefects : p.explicitOffset.defects s.settings.tolerance =
      p.defects s.settings.tolerance := by
    rw [hwell.defects_eq, hwell.explicitOffset.defects_eq]
  obtain ⟨report, report', s', hanswer, hanswer', houtcome⟩ :=
    hrephrases.exists_optimize Likeness.crosses_explicitOffset s hdefects
      fun h ha hb => h.point_explicitOffset ha hb
  refine ⟨report, report', s', hanswer, hanswer', houtcome, fun htolerance m => ⟨?_, ?_⟩⟩
  · exact result_ne_malformedInput htolerance hwell hanswer m
  · exact result_ne_malformedInput htolerance hwell.explicitOffset hanswer' m

/-- The optimum of a problem with all relations is found again with an explicit offset. -/
theorem optimize_explicitOffset_mixedProblem :
    ∃ report report' s', (create ⟨0, 10⟩ .steepest).optimize mixedProblem = .ok (report, s') ∧
      (create ⟨0, 10⟩ .steepest).optimize mixedProblem.explicitOffset = .ok (report', s') ∧
      report.result = .ok ⟨[1, 3], 10⟩ ∧ ∃ kept offset, kept.length = 2 ∧
        report'.result = .ok ⟨kept ++ [offset], 10⟩ ∧ kept.map (· - offset) = [1, 3] := by
  obtain ⟨report, report', s', hanswer, hanswer', houtcome, -⟩ :=
    optimize_explicitOffset (create ⟨0, 10⟩ .steepest) (p := mixedProblem)
      ⟨by decide, by decide⟩ rfl
  have hresult : report.result = .ok ⟨[1, 3], 10⟩ :=
    result_eq_of_answer?_eq hanswer answer?_mixedProblem
  refine ⟨report, report', s', hanswer, hanswer', hresult, ?_⟩
  rw [hresult] at houtcome
  generalize report'.result = result' at houtcome
  cases houtcome with
  | @solved _ b h =>
    obtain ⟨hvalue, kept, offset, hlength, hpoint, hshifted⟩ := h
    exact ⟨kept, offset, hlength, congrArg Except.ok (congrArg₂ Solution.mk hpoint hvalue),
      hshifted.symm⟩

end Solver

end PrimalSimplex
