/-
  `Proofs.Tableau.Region`: what the tableaus of the two phases are about.

  The region of a tableau are its nonnegative solutions.  In the first phase it is
  that of the initial tableau, and row 0 is the sum of the artificial variables;
  being nonnegative, this sum can neither fall without end nor be below the value
  where no column is profitable.  When that value is zero, the columns that go are
  those of variables which are zero wherever the artificial ones are, so the second
  phase has the feasible points as its region, no more and no less.
-/
import PrimalSimplex.Proofs.Tableau.BasicFeasible
import PrimalSimplex.Proofs.Tableau.Faithful

set_option autoImplicit false

namespace PrimalSimplex

open Column (Label Layout)

variable {F : Type} [Field F] [LinearOrder F]

namespace Tableau

/-- A nonnegative solution that is zero outside of the tableau. -/
structure Region (t : Tableau F) (x : Label → F) : Prop where
  covers : t.Covers x
  nonneg : 0 ≤ x
  solves : t.Solves x

theorem Restates.region_iff {s t : Tableau F} (h : s.Restates t)
    (hunknowns : t.unknowns = s.unknowns) {x : Label → F} : t.Region x ↔ s.Region x := by
  have hcovers : t.Covers x ↔ s.Covers x := by rw [Covers, Covers, hunknowns]
  constructor
  · intro hx
    exact ⟨hcovers.mp hx.covers, hx.nonneg, (h.solves_iff x hx.covers).mp hx.solves⟩
  · intro hx
    have hcovered := hcovers.mpr hx.covers
    exact ⟨hcovered, hx.nonneg, (h.solves_iff x hcovered).mpr hx.solves⟩

/-- As long as the first phase lasts, row 0 is the sum of the artificial variables. -/
theorem IsInitial.residual_eq_of_restates {p : Problem F} {s t : Tableau F} (h : s.IsInitial p)
    (hrestates : s.Restates t) (hphase : t.phase = .feasibility) {x : Label → F}
    (hcovers : t.Covers x) (hsolves : t.Solves x) :
    t.residual 0 x = ∑ i ∈ Finset.range p.layout.artificials, x (.artificial i) := by
  obtain ⟨hbegins, hresidual⟩ := hrestates.auxiliary_eq hphase
  rw [hresidual x hcovers hsolves]
  exact h.residual_auxiliary hbegins ((hrestates.solves_iff x hcovers).mp hsolves)

theorem IsInitial.artificial_eq_zero {p : Problem F} {s : Tableau F} (h : s.IsInitial p)
    {x : Label → F} (hcovers : s.Covers x) {i : Nat} (hi : p.layout.artificials ≤ i) :
    x (.artificial i) = 0 := by
  apply hcovers
  rw [h.unknowns_eq, Layout.mem_unknowns]
  exact Nat.not_lt.mpr hi

/-- Without a first phase there are no artificial variables. -/
theorem IsInitial.unaided_of_optimality {p : Problem F} {s : Tableau F} (h : s.IsInitial p)
    (hphase : s.phase = .optimality) {x : Label → F} (hcovers : s.Covers x) : Unaided x := by
  have hnone : p.layout.artificials = 0 := by
    by_contra hsome
    rw [h.phase_eq_feasibility_iff.mpr (Nat.pos_of_ne_zero hsome)] at hphase
    cases hphase
  exact fun i => h.artificial_eq_zero hcovers (hnone ▸ Nat.zero_le i)

theorem FeasibleBasis.region_basicValue {t : Tableau F} (h : t.FeasibleBasis) :
    t.Region t.basicValue :=
  ⟨h.covers_basicAssignment _, h.basicValue_nonneg, h.solves_basicValue⟩

namespace BasicFeasible

variable {t : Tableau F}

theorem region_basicValue (h : t.BasicFeasible) : t.Region t.basicValue :=
  h.feasibleBasis.region_basicValue

theorem region_ray [IsStrictOrderedRing F] (h : t.BasicFeasible) {j : Nat}
    (hj : j ∈ t.variableColumns) (hunlimited : ∀ i, ¬t.Limits j i) {amount : F}
    (hamount : 0 ≤ amount) : t.Region (t.ray j amount) :=
  ⟨h.covers_ray hj amount, h.ray_nonneg hunlimited hamount, h.solves_ray hj amount⟩

/-- Along the ray of a profitable column, row 0 falls below any number. -/
theorem exists_residual_ray_lt [IsStrictOrderedRing F] (h : t.BasicFeasible) {j : Nat}
    (hj : t.IsProfitable j) (target : F) :
    ∃ amount, 0 ≤ amount ∧ t.residual 0 (t.ray j amount) < target := by
  obtain ⟨hcolumn, hcost⟩ := (isProfitable_iff h.tolerance_eq).mp hj
  -- So far the target is reached, and one further.
  have hfar : 0 ≤ |target + t.coeff 0 t.boundColumn| + 1 :=
    add_nonneg (abs_nonneg _) zero_le_one
  refine ⟨(|target + t.coeff 0 t.boundColumn| + 1) / -t.coeff 0 j,
    div_nonneg hfar (neg_nonneg.mpr hcost.le), ?_⟩
  rw [h.residual_ray t.objectives_pos hcolumn]
  have hfalls : t.coeff 0 j * ((|target + t.coeff 0 t.boundColumn| + 1) / -t.coeff 0 j) =
      -(|target + t.coeff 0 t.boundColumn| + 1) := by
    rw [div_neg, mul_neg, mul_div_cancel₀ _ hcost.ne]
  have hleast := neg_abs_le (target + t.coeff 0 t.boundColumn)
  rw [hfalls]
  linarith

end BasicFeasible

/-! ## The first phase -/

/-- A tableau of the first phase of a problem, with the initial one. -/
structure InFirstPhase (p : Problem F) (initial t : Tableau F) : Prop extends
    BasicFeasible t where
  isInitial : initial.IsInitial p
  restates : initial.Restates t
  unknowns_eq : t.unknowns = initial.unknowns
  phase_eq : t.phase = .feasibility

namespace InFirstPhase

variable {p : Problem F} {s t u : Tableau F}

/-- The first phase begins with the initial tableau. -/
theorem ofIsInitial (h : s.IsInitial p) (htolerance : s.tolerance = 0)
    (hbounds : ∀ c ∈ p.constraints, 0 ≤ c.bound) (hphase : s.phase = .feasibility) :
    InFirstPhase p s s :=
  ⟨.ofIsInitial h htolerance hbounds, h, .refl s, rfl, hphase⟩

theorem region_iff (h : InFirstPhase p s t) {x : Label → F} : t.Region x ↔ s.Region x :=
  h.restates.region_iff h.unknowns_eq

/-- Row 0 is the sum of the artificial variables. -/
theorem residual_eq (h : InFirstPhase p s t) {x : Label → F} (hx : t.Region x) :
    t.residual 0 x = ∑ i ∈ Finset.range p.layout.artificials, x (.artificial i) :=
  h.isInitial.residual_eq_of_restates h.restates h.phase_eq hx.covers hx.solves

variable [IsStrictOrderedRing F]

theorem residual_nonneg (h : InFirstPhase p s t) {x : Label → F} (hx : t.Region x) :
    0 ≤ t.residual 0 x := by
  rw [h.residual_eq hx]
  exact Finset.sum_nonneg fun i _ => hx.nonneg _

/-- Row 0 is zero exactly where no artificial variable is in use. -/
theorem residual_eq_zero_iff (h : InFirstPhase p s t) {x : Label → F} (hx : t.Region x) :
    t.residual 0 x = 0 ↔ Unaided x := by
  have hterms : ∀ i ∈ Finset.range p.layout.artificials, 0 ≤ x (.artificial i) :=
    fun i _ => hx.nonneg _
  rw [h.residual_eq hx, Finset.sum_eq_zero_iff_of_nonneg hterms]
  constructor
  · intro hzero i
    rcases Nat.lt_or_ge i p.layout.artificials with hlt | hge
    · exact hzero i (Finset.mem_range.mpr hlt)
    · exact h.isInitial.artificial_eq_zero (h.region_iff.mp hx).covers hge
  · intro hunaided i _
    exact hunaided i

theorem exchange (h : InFirstPhase p s t) {j row : Nat} (hj : t.IsProfitable j)
    (hrow : t.leavingRow? j = .ok (some row)) (hpivot : t.pivot row j = .ok u) :
    InFirstPhase p s u := by
  obtain ⟨hbasic, hrestates, hunknowns, hphase⟩ := h.toBasicFeasible.exchange hj hrow hpivot
  exact ⟨hbasic, h.isInitial, h.restates.trans hrestates, hunknowns.trans h.unknowns_eq,
    hphase.trans h.phase_eq⟩

/-- Some row limits every profitable column. -/
theorem exists_limits (h : InFirstPhase p s t) {j : Nat} (hj : t.IsProfitable j) :
    ∃ i, t.Limits j i := by
  by_contra hnone
  have hunlimited : ∀ i, ¬t.Limits j i := fun i hi => hnone ⟨i, hi⟩
  obtain ⟨amount, hamount, hlt⟩ := h.exists_residual_ray_lt hj 0
  have hnonneg := h.residual_nonneg (h.region_ray hj.1 hunlimited hamount)
  exact absurd hlt (not_lt.mpr hnonneg)

/-- If row 0 cannot be brought to zero, no point is feasible. -/
theorem not_isFeasible (h : InFirstPhase p s t) (hoptimal : ∀ j, ¬t.IsProfitable j)
    (hne : t.coeff 0 t.boundColumn ≠ 0) (point : List F) : ¬p.IsFeasible point := by
  intro hfeasible
  have hregion : t.Region (p.encode point) := h.region_iff.mpr
    ⟨h.isInitial.covers_encode point, IsInitial.encode_nonneg hfeasible,
      h.isInitial.solves_encode hfeasible⟩
  have hzero := (h.residual_eq_zero_iff hregion).mpr (p.unaided_encode point)
  have hleast := h.residual_basicValue_le hoptimal hregion.nonneg
  have hnonneg := h.residual_nonneg h.region_basicValue
  rw [hzero] at hleast
  have hbasic := le_antisymm hleast hnonneg
  rw [h.residual_basicValue t.objectives_pos, neg_eq_zero] at hbasic
  exact hne hbasic

/-! ## Leaving the first phase -/

/-- Where row 0 is zero everywhere, so is every variable with a cost. -/
theorem eq_zero_of_cost_pos (h : InFirstPhase p s t) (hoptimal : ∀ j, ¬t.IsProfitable j)
    (hzero : t.coeff 0 t.boundColumn = 0) {x : Label → F} (hx : t.Region x) (hunaided : Unaided x)
    {j : Nat} (hj : j ∈ t.variableColumns) (hcost : 0 < t.coeff 0 j) : x (t.labelAt j) = 0 := by
  have hlhs : t.lhs 0 x = 0 := by
    have hresidual := (h.residual_eq_zero_iff hx).mpr hunaided
    rwa [residual, hzero, sub_zero] at hresidual
  rw [lhs_eq_sum, Finset.sum_eq_zero_iff_of_nonneg] at hlhs
  · have hterm := hlhs j (Finset.mem_Ico.mpr (mem_variableColumns.mp hj))
    exact (mul_eq_zero.mp hterm).resolve_left hcost.ne'
  · intro k hk
    have hcolumn := mem_variableColumns.mpr (Finset.mem_Ico.mp hk)
    exact mul_nonneg (h.cost_nonneg hoptimal hcolumn) (hx.nonneg _)

/-- What stays costs nothing. -/
theorem cost_eq_zero_of_mem_staying (h : InFirstPhase p s t) (hoptimal : ∀ j, ¬t.IsProfitable j)
    {j : Nat} (hj : j ∈ t.staying) : t.coeff 0 j = 0 := by
  obtain ⟨hcolumn, hstays⟩ := mem_staying.mp hj
  have hcost : Scalar.isPositive (t.coeff 0 j) t.tolerance = false :=
    (Bool.or_eq_false_iff.mp hstays).1
  rw [← Bool.not_eq_true, Scalar.isPositive_iff_lt h.tolerance_eq.ge, h.tolerance_eq] at hcost
  exact le_antisymm (not_lt.mp hcost) (h.cost_nonneg hoptimal hcolumn)

/-- After the first phase has brought row 0 to zero, what stays has the solutions
of the initial tableau without artificial variables as its region. -/
theorem region_reduction_iff (h : InFirstPhase p s t) (hoptimal : ∀ j, ¬t.IsProfitable j)
    (hzero : t.coeff 0 t.boundColumn = 0) (hreduction : t.IsReduction u) {x : Label → F} :
    u.Region x ↔ s.Region x ∧ Unaided x := by
  have hrestates := hreduction.restates h.toCanonical
  constructor
  · intro hx
    have hregion : t.Region x := ⟨hx.covers.mono hrestates.unknowns_subset, hx.nonneg,
      (hrestates.solves_iff x hx.covers).mp hx.solves⟩
    refine ⟨h.region_iff.mp hregion, (h.residual_eq_zero_iff hregion).mp ?_⟩
    -- Row 0 has no cost where something stays, and no variable where nothing does.
    rw [residual, hzero, sub_zero, lhs_eq_sum]
    refine Finset.sum_eq_zero fun j hj => ?_
    have hcolumn := mem_variableColumns.mpr (Finset.mem_Ico.mp hj)
    by_cases hstays : j ∈ t.staying
    · rw [h.cost_eq_zero_of_mem_staying hoptimal hstays, zero_mul]
    · rw [hreduction.eq_zero_of_covers h.toCanonical hx.covers hcolumn hstays, mul_zero]
  · rintro ⟨hinitial, hunaided⟩
    have hregion := h.region_iff.mpr hinitial
    have hcovers : u.Covers x := by
      intro label hlabel
      by_cases hmem : label ∈ t.unknowns
      · obtain ⟨j, hj, rfl⟩ := List.mem_map.mp hmem
        have hgoes : t.isSurplusAt j = true := by
          by_contra hstays
          apply hlabel
          rw [hreduction.unknowns_eq h.toWellShaped]
          exact List.mem_map_of_mem (mem_staying.mpr ⟨hj, Bool.eq_false_iff.mpr hstays⟩)
        rcases Bool.or_eq_true_iff.mp hgoes with hcost | hartificial
        · rw [Scalar.isPositive_iff_lt h.tolerance_eq.ge, h.tolerance_eq] at hcost
          exact h.eq_zero_of_cost_pos hoptimal hzero hregion hunaided hj hcost
        · have hname := (Bool.and_eq_true_iff.mp hartificial).1
          cases hlabelAt : t.labelAt j with
          | artificial i => exact hunaided i
          | _ => rw [hlabelAt] at hname; cases hname
      · exact hregion.covers label hmem
    exact ⟨hcovers, hregion.nonneg, (hrestates.solves_iff x hcovers).mpr hregion.solves⟩

end InFirstPhase

end Tableau

end PrimalSimplex
