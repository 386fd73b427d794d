/-
  `Proofs.Tableau.Faithful`: feasible points and solutions are the same.

  A nonnegative solution of an initial tableau whose artificial variables are zero
  stands for a feasible point.  Conversely a feasible point is that of a solution:
  an offset as great as all its entries together makes the decision variables
  nonnegative, and each slack variable is what its constraint leaves.
-/
import PrimalSimplex.Proofs.Tableau.Encoding

set_option autoImplicit false

namespace PrimalSimplex

open Column (Label Layout)
open LinearForm (dot)

variable {F : Type} [Field F] [LinearOrder F]

/-- No artificial variable is in use. -/
def Unaided (x : Label → F) : Prop := ∀ i, x (.artificial i) = 0

/-- What a constraint leaves for its slack variable. -/
def Constraint.gap (c : Constraint F) (point : List F) : F :=
  match c.relation with
  | .equal => 0
  | .atLeast => dot c.coefficients point - c.bound
  | .atMost => c.bound - dot c.coefficients point

namespace Problem

/-- By how much all decision variables are raised to become nonnegative. -/
def lift (p : Problem F) (point : List F) : F :=
  if p.nonNegative then 0 else (point.map fun a => |a|).sum

/-- The values of the variables that stand for a point. -/
def encode (p : Problem F) (point : List F) (label : Label) : F :=
  if label ∈ p.layout.unknowns then
    match label with
    | .decision i => point.getD i 0 + p.lift point
    | .offset => p.lift point
    | .slack i =>
      ((p.placedConstraints.find? fun c => c.constraint.relation.hasSlack && c.slack == i).map
        fun c => c.constraint.gap point).getD 0
    | .auxiliary | .objective | .artificial _ | .bound => 0
  else 0

theorem unaided_encode (p : Problem F) (point : List F) : Unaided (p.encode point) := by
  intro i
  unfold encode
  split
  · rfl
  · rfl

theorem shift_encode (p : Problem F) (point : List F) :
    p.shift (p.encode point) = p.lift point := by
  unfold shift lift encode
  cases hsign : p.nonNegative with
  | true => rfl
  | false =>
    have hoffset : Label.offset ∈ p.layout.unknowns :=
      Layout.mem_unknowns.mpr (show (!p.nonNegative) = true by rw [hsign]; rfl)
    simp only [Bool.false_eq_true, if_false, hoffset, if_true, lift, hsign]

/-- The point is recovered. -/
theorem decode_encode {p : Problem F} {point : List F}
    (hlength : point.length = p.objective.variableCount) : p.decode (p.encode point) = point := by
  unfold decode
  rw [shift_encode]
  refine List.ext_getElem (by simp [hlength]) fun i hi hi' => ?_
  have hmem : Label.decision i ∈ p.layout.unknowns :=
    Layout.mem_unknowns.mpr (show i < p.objective.variableCount from hlength ▸ hi')
  have hvalue : p.encode point (.decision i) = point.getD i 0 + p.lift point := if_pos hmem
  rw [List.getElem_map, List.getElem_range, hvalue, add_sub_cancel_right,
    List.getD_eq_getElem?_getD, List.getElem?_eq_getElem hi', Option.getD_some]

theorem encode_slack {p : Problem F} {c : PlacedConstraint F} (hc : c ∈ p.placedConstraints)
    (hslack : c.constraint.relation.hasSlack = true) (point : List F) :
    p.encode point (.slack c.slack) = c.constraint.gap point := by
  have hmem : Label.slack c.slack ∈ p.layout.unknowns :=
    Layout.mem_unknowns.mpr (slack_lt hc hslack)
  apply (if_pos hmem).trans
  dsimp only
  rw [find?_slack hc hslack]
  rfl

/-- Without artificial variables, only the slack variable fills a row up. -/
theorem fill_eq {c : PlacedConstraint F} {x : Label → F} (hx : Unaided x) :
    c.fill x = match c.constraint.relation with
      | .equal => 0
      | .atLeast => -x (.slack c.slack)
      | .atMost => x (.slack c.slack) := by
  rw [PlacedConstraint.fill_eq, hx]
  cases c.constraint.relation with
  | equal => rfl
  | atLeast => exact zero_sub _
  | atMost => rfl

end Problem

namespace Tableau.IsInitial

variable {p : Problem F} {t : Tableau F}

theorem length_of_mem_place (h : t.IsInitial p) {c : PlacedConstraint F}
    (hc : c ∈ p.placedConstraints) :
    c.constraint.coefficients.length = p.objective.variableCount :=
  h.length_eq _ (Problem.mem_constraints_iff.mpr ⟨c, hc, rfl⟩)

theorem covers_encode (h : t.IsInitial p) (point : List F) : t.Covers (p.encode point) := by
  intro label hlabel
  rw [h.unknowns_eq] at hlabel
  exact if_neg hlabel

variable [IsStrictOrderedRing F]

/-- A nonnegative solution without artificial variables stands for a feasible
point. -/
theorem isFeasible_decode (h : t.IsInitial p) {x : Label → F} (hsolves : t.Solves x)
    (hnonneg : 0 ≤ x) (hunaided : Unaided x) : p.IsFeasible (p.decode x) where
  length_eq := by rw [Problem.decode, List.length_map, List.length_range]
  holds c hc := by
    obtain ⟨c, hplaced, rfl⟩ := Problem.mem_constraints_iff.mp hc
    have hbalance := h.solves_iff.mp hsolves c hplaced
    have hslack : 0 ≤ x (.slack c.slack) := hnonneg _
    rw [Problem.balance_coefficient hplaced (h.length_of_mem_place hplaced),
      Problem.fill_eq hunaided]
      at hbalance
    unfold Constraint.Holds
    cases hrelation : c.constraint.relation with
    | equal =>
      rw [hrelation] at hbalance
      dsimp only at hbalance ⊢
      linarith
    | atLeast =>
      rw [hrelation] at hbalance
      dsimp only at hbalance ⊢
      linarith
    | atMost =>
      rw [hrelation] at hbalance
      dsimp only at hbalance ⊢
      linarith
  nonneg hsign a ha := by
    obtain ⟨i, _, rfl⟩ := List.mem_map.mp ha
    rw [Problem.shift, if_pos hsign, sub_zero]
    exact hnonneg _

/-- The values that stand for a feasible point are nonnegative. -/
theorem encode_nonneg {point : List F} (hfeasible : p.IsFeasible point) :
    0 ≤ p.encode point := by
  have hlift : 0 ≤ p.lift point := by
    unfold Problem.lift
    split
    · exact le_refl 0
    · refine List.sum_nonneg fun a ha => ?_
      obtain ⟨b, _, rfl⟩ := List.mem_map.mp ha
      exact abs_nonneg b
  intro label
  unfold Problem.encode
  split
  · rename_i hmem
    cases label with
    | decision i =>
      have hlt : i < point.length := hfeasible.length_eq ▸ Layout.mem_unknowns.mp hmem
      have hat : point[i] ∈ point := List.getElem_mem hlt
      dsimp only
      rw [List.getD_eq_getElem?_getD, List.getElem?_eq_getElem hlt, Option.getD_some]
      cases hsign : p.nonNegative with
      | true => exact add_nonneg (hfeasible.nonneg hsign _ hat) hlift
      | false =>
        have hle : |point[i]| ≤ p.lift point := by
          rw [Problem.lift, hsign]
          refine List.single_le_sum (fun a ha => ?_) _ (List.mem_map_of_mem hat)
          obtain ⟨b, _, rfl⟩ := List.mem_map.mp ha
          exact abs_nonneg b
        have hneg := neg_abs_le point[i]
        exact (by linarith : (0 : F) ≤ point[i] + p.lift point)
    | offset => exact hlift
    | slack i =>
      dsimp only
      cases hfind : p.placedConstraints.find? fun c =>
          c.constraint.relation.hasSlack && c.slack == i with
      | none => exact le_refl 0
      | some c =>
        have hmem := Problem.mem_constraints_iff.mpr ⟨c, List.mem_of_find?_eq_some hfind, rfl⟩
        have hholds := hfeasible.holds _ hmem
        show 0 ≤ c.constraint.gap point
        unfold Constraint.Holds at hholds
        unfold Constraint.gap
        cases hrelation : c.constraint.relation with
        | equal => exact le_refl 0
        | atLeast =>
          rw [hrelation] at hholds
          exact sub_nonneg.mpr hholds
        | atMost =>
          rw [hrelation] at hholds
          exact sub_nonneg.mpr hholds
    | auxiliary => exact le_refl 0
    | objective => exact le_refl 0
    | artificial i => exact le_refl 0
    | bound => exact le_refl 0
  · exact le_refl 0

/-- The values that stand for a feasible point are a solution. -/
theorem solves_encode (h : t.IsInitial p) {point : List F} (hfeasible : p.IsFeasible point) :
    t.Solves (p.encode point) := by
  refine h.solves_iff.mpr fun c hc => ?_
  have hholds := hfeasible.holds _ (Problem.mem_constraints_iff.mpr ⟨c, hc, rfl⟩)
  rw [Problem.balance_coefficient hc (h.length_of_mem_place hc),
    Problem.fill_eq (p.unaided_encode point), Problem.decode_encode hfeasible.length_eq]
  unfold Constraint.Holds at hholds
  cases hrelation : c.constraint.relation with
  | equal =>
    rw [hrelation] at hholds
    dsimp only at hholds ⊢
    linarith
  | atLeast =>
    have hslack : c.constraint.relation.hasSlack = true := by rw [hrelation]; rfl
    dsimp only
    rw [Problem.encode_slack hc hslack, Constraint.gap, hrelation]
    dsimp only
    ring
  | atMost =>
    have hslack : c.constraint.relation.hasSlack = true := by rw [hrelation]; rfl
    dsimp only
    rw [Problem.encode_slack hc hslack, Constraint.gap, hrelation]
    dsimp only
    ring

end Tableau.IsInitial

end PrimalSimplex
