/-
  `Proofs.Tableau.NearlyFeasible`: how far off a tolerance can lead.

  A tolerance lets small things pass: an entry that is hardly positive does not
  limit a column, ratios that are near count as equal, and a column whose cost is
  hardly positive stays after the first phase.  A long step makes each of them
  large.  Where they make no difference, what remains is the end of the first
  phase, where row 0 may miss zero by the tolerance.  By that much, and no more,
  artificial variables are still in use, and nothing that the second phase does
  adds to it.  So no constraint is missed by more than the tolerance.
-/
import PrimalSimplex.Proofs.Tableau.Region

set_option autoImplicit false

namespace PrimalSimplex

open Column (Label Layout)
open LinearForm (dot)

variable {F : Type} [Field F] [LinearOrder F] [IsStrictOrderedRing F]

namespace Tableau

/-- A tableau that restates the initial one and shows a feasible basis.  In the
second phase it uses artificial variables up to the tolerance at most. -/
structure NearlyFeasible (p : Problem F) (initial t : Tableau F) : Prop extends
    FeasibleBasis t where
  isInitial : initial.IsInitial p
  restates : initial.Restates t
  artificial_le : t.phase = .optimality → ∀ x, t.Region x → ∀ i, x (.artificial i) ≤ t.tolerance

namespace NearlyFeasible

variable {p : Problem F} {s t u : Tableau F}

omit [IsStrictOrderedRing F] in
theorem ofIsInitial (h : s.IsInitial p) (htolerance : 0 ≤ s.tolerance)
    (hbounds : ∀ c ∈ p.constraints, 0 ≤ c.bound) : NearlyFeasible p s s where
  toFeasibleBasis := .ofIsInitial h hbounds
  isInitial := h
  restates := .refl s
  artificial_le hphase _ hx i := (h.unaided_of_optimality hphase hx.covers i).trans_le htolerance

/-! ## Steps -/

/-- The row with the least ratio keeps it so. -/
theorem exchange (h : NearlyFeasible p s t) {row column : Nat}
    (hcolumn : column ∈ t.variableColumns) (hleaving : t.IsLeaving column row)
    (hpivot : t.pivot row column = .ok u) : NearlyFeasible p s u := by
  have hspec := h.isPivot_of_pivot_eq hleaving.mem (h.lt_width_of_mem hcolumn) hpivot
  have hrestates := hspec.restates h.boundColumn_lt hleaving.mem hleaving.pos.ne'
  refine ⟨h.toFeasibleBasis.pivot hcolumn hleaving hspec, h.isInitial, h.restates.trans hrestates,
    fun hphase x hx i => ?_⟩
  rw [hrestates.tolerance_eq]
  exact h.artificial_le (hspec.sameFrame.phase_eq ▸ hphase) x
    ((hrestates.region_iff hspec.unknowns_eq).mp hx) i

/-- When row 0 is near zero and has no cost where a column stays, the artificial
variables together are not above the tolerance. -/
theorem reduction (h : NearlyFeasible p s t) (htolerance : 0 ≤ t.tolerance)
    (hreduction : t.IsReduction u) (hnear : |t.coeff 0 t.boundColumn| ≤ t.tolerance)
    (hcosts : ∀ j ∈ t.staying, t.coeff 0 j ≤ 0) : NearlyFeasible p s u := by
  have hrestates := hreduction.restates h.toCanonical
  refine ⟨h.toFeasibleBasis.reduction htolerance hreduction, h.isInitial,
    h.restates.trans hrestates, fun _ x hx i => ?_⟩
  have hcovers : t.Covers x := hx.covers.mono hrestates.unknowns_subset
  have hsolves : t.Solves x := (hrestates.solves_iff x hx.covers).mp hx.solves
  have hsum := h.isInitial.residual_eq_of_restates h.restates hreduction.phase_eq hcovers hsolves
  -- What stays has no positive cost, and what goes has no value.
  have hlhs : t.lhs 0 x ≤ 0 := by
    rw [lhs_eq_sum]
    refine Finset.sum_nonpos fun j hj => ?_
    have hcolumn := mem_variableColumns.mpr (Finset.mem_Ico.mp hj)
    by_cases hstays : j ∈ t.staying
    · exact mul_nonpos_of_nonpos_of_nonneg (hcosts j hstays) (hx.nonneg _)
    · rw [hreduction.eq_zero_of_covers h.toCanonical hx.covers hcolumn hstays, mul_zero]
  have hle : t.residual 0 x ≤ t.tolerance := by
    have hlow := (abs_le.mp hnear).1
    rw [residual]
    linarith
  rw [hrestates.tolerance_eq]
  rcases Nat.lt_or_ge i p.layout.artificials with hlt | hge
  · have hterm : x (.artificial i) ≤
        ∑ k ∈ Finset.range p.layout.artificials, x (.artificial k) :=
      Finset.single_le_sum (fun k _ => hx.nonneg (.artificial k)) (Finset.mem_range.mpr hlt)
    exact hterm.trans (hsum.symm.trans_le hle)
  · have hinitial : s.Covers x := hcovers.mono h.restates.unknowns_subset
    exact (h.isInitial.artificial_eq_zero hinitial hge).trans_le htolerance

/-! ## Points -/

omit [IsStrictOrderedRing F] in
theorem nonneg_decode (h : NearlyFeasible p s t) (hsign : p.nonNegative = true) :
    ∀ a ∈ p.decode t.basicValue, 0 ≤ a := by
  intro a ha
  obtain ⟨i, _, rfl⟩ := List.mem_map.mp ha
  rw [Problem.shift, if_pos hsign, sub_zero]
  exact h.basicValue_nonneg _

/-- In the second phase, the basic solution meets every constraint up to the
tolerance. -/
theorem isSatisfiedBy_decode (h : NearlyFeasible p s t) (hphase : t.phase = .optimality)
    (htolerance : 0 ≤ t.tolerance) {c : Constraint F} (hc : c ∈ p.constraints) :
    c.isSatisfiedBy (p.decode t.basicValue) t.tolerance = true := by
  obtain ⟨c, hplaced, rfl⟩ := Problem.mem_constraints_iff.mp hc
  have hequation := h.isInitial.dot_add_fill
    (h.toCanonical.solves_basicValue_of_restates h.restates) hplaced
  have hslack : 0 ≤ t.basicValue (.slack c.slack) := h.basicValue_nonneg _
  have hnonneg : 0 ≤ t.basicValue (.artificial c.artificial) := h.basicValue_nonneg _
  have hle := h.artificial_le hphase _ h.region_basicValue c.artificial
  rw [PlacedConstraint.fill_eq] at hequation
  rw [Constraint.isSatisfiedBy_iff]
  cases hrelation : c.constraint.relation with
  | equal =>
    rw [hrelation] at hequation
    dsimp only at hequation ⊢
    refine abs_le.mpr ⟨?_, ?_⟩
    · linarith
    · linarith
  | atLeast =>
    rw [hrelation] at hequation
    dsimp only at hequation ⊢
    linarith
  | atMost =>
    rw [hrelation] at hequation
    dsimp only at hequation ⊢
    linarith

end NearlyFeasible

end Tableau

end PrimalSimplex
