/-
  `Proofs.Tableau.SecondPhase`: tableaus that present a problem.

  In the second phase the region of a tableau is, point by point, that of the
  problem, and row 0 says how bad a point is.  This is true after the columns of
  the first phase went, true of an initial tableau that needs no first phase, and
  kept by exchanges.  What the problem asks for can then be read off the end: the
  basic solution where no column is profitable, a ray where nothing limits one.
-/
import PrimalSimplex.Proofs.Tableau.Region

set_option autoImplicit false

namespace PrimalSimplex

open Column (Label Layout)

variable {F : Type} [Field F] [LinearOrder F]

namespace Tableau

/-- The tableau says of points what the problem says. -/
structure Presents (p : Problem F) (t : Tableau F) : Prop extends BasicFeasible t where
  phase_eq : t.phase = .optimality
  nonNegative_eq : t.nonNegative = p.nonNegative
  unaided : ∀ x, t.Region x → Unaided x
  isFeasible : ∀ x, t.Region x → p.IsFeasible (p.decode x)
  residual_eq : ∀ x, t.Region x → t.residual 0 x = p.goal.loss (p.objective.value (p.decode x))
  exists_region : ∀ point, p.IsFeasible point → ∃ x, t.Region x ∧ p.decode x = point

namespace Presents

variable {p : Problem F} {t : Tableau F}

/-- The basic solution stands for the point of the tableau. -/
theorem solution_eq_ok (h : Presents p t) :
    t.solution p.objective =
      .ok ⟨p.decode t.basicValue, p.objective.value (p.decode t.basicValue)⟩ :=
  h.solution_eq_decode h.nonNegative_eq

/-- No artificial variable has a value in the basic solution. -/
theorem value_artificial (h : Presents p t) {label : Label} (hlabel : label.isArtificial = true) :
    t.value label = .ok 0 := by
  rw [h.value_eq_ok]
  cases label with
  | artificial i => exact congrArg Except.ok (h.unaided _ h.region_basicValue i)
  | _ => cases hlabel

end Presents

variable [IsStrictOrderedRing F] {p : Problem F} {s t u : Tableau F}

/-! ## Beginnings -/

/-- A tableau that restates the initial one presents the problem as soon as its
region is that of the initial one without artificial variables. -/
theorem IsInitial.presents (h : s.IsInitial p) (hbasic : t.BasicFeasible)
    (hrestates : s.Restates t) (hphase : t.phase = .optimality)
    (hregion : ∀ x, t.Region x ↔ s.Region x ∧ Unaided x) : Presents p t where
  toBasicFeasible := hbasic
  phase_eq := hphase
  nonNegative_eq := hrestates.nonNegative_eq.trans h.nonNegative_eq
  unaided x hx := ((hregion x).mp hx).2
  isFeasible x hx := by
    obtain ⟨hinitial, hunaided⟩ := (hregion x).mp hx
    exact h.isFeasible_decode hinitial.solves hinitial.nonneg hunaided
  residual_eq x hx := by
    have hobjective := hrestates.objective_eq x hx.covers hx.solves
    rw [objectiveRow_of_optimality hphase, h.residual_objectiveRow] at hobjective
    exact hobjective
  exists_region point hfeasible :=
    ⟨p.encode point,
      (hregion _).mpr ⟨⟨h.covers_encode point, encode_nonneg hfeasible, h.solves_encode hfeasible⟩,
        p.unaided_encode point⟩,
      Problem.decode_encode hfeasible.length_eq⟩

/-- Without artificial variables there is no first phase to leave. -/
theorem IsInitial.presents_of_optimality (h : s.IsInitial p) (htolerance : s.tolerance = 0)
    (hbounds : ∀ c ∈ p.constraints, 0 ≤ c.bound) (hphase : s.phase = .optimality) :
    Presents p s := by
  refine h.presents (.ofIsInitial h htolerance hbounds) (.refl s) hphase fun x => ?_
  exact ⟨fun hx => ⟨hx, h.unaided_of_optimality hphase hx.covers⟩, fun hx => hx.1⟩

/-- After a first phase that has reached zero, the problem is presented. -/
theorem InFirstPhase.presents_reduction (h : InFirstPhase p s t)
    (hoptimal : ∀ j, ¬t.IsProfitable j) (hzero : t.coeff 0 t.boundColumn = 0)
    (hreduction : t.IsReduction u) : Presents p u := by
  have hrestates := h.restates.trans (hreduction.restates h.toCanonical)
  have hphase : u.phase = .optimality := by rw [hreduction.frame]
  exact h.isInitial.presents (h.toBasicFeasible.reduction hreduction) hrestates hphase
    fun x => h.region_reduction_iff hoptimal hzero hreduction

/-! ## Exchanges and ends -/

namespace Presents

theorem exchange (h : Presents p t) {j row : Nat} (hj : t.IsProfitable j)
    (hrow : t.leavingRow? j = .ok (some row)) (hpivot : t.pivot row j = .ok u) : Presents p u := by
  obtain ⟨hbasic, hrestates, hunknowns, hphase⟩ := h.toBasicFeasible.exchange hj hrow hpivot
  have hoptimality := hphase.trans h.phase_eq
  have hregion : ∀ x, u.Region x ↔ t.Region x := fun x => hrestates.region_iff hunknowns
  refine ⟨hbasic, hoptimality, hrestates.nonNegative_eq.trans h.nonNegative_eq, ?_, ?_, ?_, ?_⟩
  · intro x hx
    exact h.unaided x ((hregion x).mp hx)
  · intro x hx
    exact h.isFeasible x ((hregion x).mp hx)
  · intro x hx
    have hobjective := hrestates.objective_eq x hx.covers hx.solves
    rw [objectiveRow_of_optimality hoptimality, objectiveRow_of_optimality h.phase_eq] at hobjective
    rw [hobjective]
    exact h.residual_eq x ((hregion x).mp hx)
  · intro point hfeasible
    obtain ⟨x, hx, hpoint⟩ := h.exists_region point hfeasible
    exact ⟨x, (hregion x).mpr hx, hpoint⟩

/-- Without a profitable column, the basic solution is at least as good as any
feasible point. -/
theorem loss_le (h : Presents p t) (hoptimal : ∀ j, ¬t.IsProfitable j) {point : List F}
    (hfeasible : p.IsFeasible point) :
    p.goal.loss (p.objective.value (p.decode t.basicValue)) ≤
      p.goal.loss (p.objective.value point) := by
  obtain ⟨x, hx, rfl⟩ := h.exists_region point hfeasible
  rw [← h.residual_eq x hx, ← h.residual_eq _ h.region_basicValue]
  exact h.residual_basicValue_le hoptimal hx.nonneg

/-- Where nothing limits a profitable column, there are feasible points as good as
one likes. -/
theorem exists_loss_lt (h : Presents p t) {j : Nat} (hj : t.IsProfitable j)
    (hunlimited : ∀ i, ¬t.Limits j i) (target : F) :
    ∃ point, p.IsFeasible point ∧ p.goal.loss (p.objective.value point) < target := by
  obtain ⟨amount, hamount, hlt⟩ := h.exists_residual_ray_lt hj target
  have hregion := h.region_ray hj.1 hunlimited hamount
  refine ⟨p.decode (t.ray j amount), h.isFeasible _ hregion, ?_⟩
  rwa [← h.residual_eq _ hregion]

end Presents

end Tableau

end PrimalSimplex
