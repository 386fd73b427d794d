/-
  `Proofs.Program.Placement`: the slack and artificial variables of constraints.

  Variables are handed out in order, so a constraint has other ones than those
  after it.  The variable that is basic in a row at the start has the coefficient
  one there and occurs in no other row.
-/
import PrimalSimplex.Tableau.Initial

set_option autoImplicit false

namespace PrimalSimplex.PlacedConstraint

open Column (Label)

variable {F : Type}

/-- The variable that is basic in the row of a constraint at the start. -/
def basicLabel (c : PlacedConstraint F) : Label :=
  if c.constraint.relation.needsArtificial then .artificial c.artificial else .slack c.slack

theorem hasSlack_of_not_needsArtificial {r : Relation} (h : ¬r.needsArtificial = true) :
    r.hasSlack = true := by
  cases r with
  | equal => exact absurd rfl h
  | atLeast => rfl
  | atMost => rfl

/-! ## Places -/

/-- Numbers stay within the number of variables that are handed out. -/
theorem bounds_of_mem_place {constraints : List (Constraint F)} {slack artificial : Nat}
    {c : PlacedConstraint F} (h : c ∈ place slack artificial constraints) :
    slack ≤ c.slack ∧ artificial ≤ c.artificial ∧
      (c.constraint.relation.hasSlack = true →
        c.slack < slack + constraints.countP fun c => c.relation.hasSlack) ∧
      (c.constraint.relation.needsArtificial = true →
        c.artificial < artificial + constraints.countP fun c => c.relation.needsArtificial) := by
  induction constraints generalizing slack artificial with
  | nil => cases h
  | cons first rest ih =>
    rw [List.countP_cons, List.countP_cons]
    rcases List.mem_cons.mp h with rfl | h
    · refine ⟨Nat.le_refl _, Nat.le_refl _, fun hslack => ?_, fun hneeds => ?_⟩
      · change first.relation.hasSlack = true at hslack
        rw [hslack, if_pos rfl]
        change slack < _
        omega
      · change first.relation.needsArtificial = true at hneeds
        rw [hneeds, if_pos rfl]
        change artificial < _
        omega
    · obtain ⟨hslackLe, hartificialLe, hslackLt, hartificialLt⟩ := ih h
      refine ⟨by omega, by omega, fun hslack => ?_, fun hneeds => ?_⟩
      · have := hslackLt hslack
        omega
      · have := hartificialLt hneeds
        omega

/-- A constraint has lower numbers than those after it, where it uses them. -/
theorem pairwise_place (constraints : List (Constraint F)) (slack artificial : Nat) :
    (place slack artificial constraints).Pairwise fun c d =>
      (c.constraint.relation.hasSlack = true → c.slack < d.slack) ∧
        (c.constraint.relation.needsArtificial = true → c.artificial < d.artificial) := by
  induction constraints generalizing slack artificial with
  | nil => exact List.Pairwise.nil
  | cons first rest ih =>
    refine List.Pairwise.cons (fun d hd => ⟨fun hslack => ?_, fun hneeds => ?_⟩) (ih _ _)
    · have hle := (bounds_of_mem_place hd).1
      change first.relation.hasSlack = true at hslack
      rw [hslack, if_pos rfl] at hle
      exact hle
    · have hle := (bounds_of_mem_place hd).2.1
      change first.relation.needsArtificial = true at hneeds
      rw [hneeds, if_pos rfl] at hle
      exact hle

/-! ## Coefficients -/

variable [Scalar F]

theorem slackCoefficient?_of_hasSlack_eq_false {r : Relation} (h : r.hasSlack = false) :
    (r.slackCoefficient? : Option F) = none := by
  cases r with
  | equal => rfl
  | atLeast => cases h
  | atMost => cases h

theorem coefficient_slack_eq_zero {c : PlacedConstraint F} {i : Nat}
    (h : c.constraint.relation.hasSlack = true → i ≠ c.slack) : c.coefficient (.slack i) = 0 := by
  unfold coefficient
  cases hslack : c.constraint.relation.hasSlack with
  | true => exact if_neg (h hslack)
  | false =>
    dsimp only
    rw [slackCoefficient?_of_hasSlack_eq_false hslack]
    exact ite_self _

theorem coefficient_artificial_eq_zero {c : PlacedConstraint F} {i : Nat}
    (h : c.constraint.relation.needsArtificial = true → i ≠ c.artificial) :
    c.coefficient (.artificial i) = 0 :=
  if_neg fun ⟨heq, hneeds⟩ => h hneeds heq

/-- The basic variable of a row has the coefficient one in it. -/
theorem coefficient_basicLabel (c : PlacedConstraint F) : c.coefficient c.basicLabel = 1 := by
  unfold basicLabel
  cases hrelation : c.constraint.relation with
  | equal => exact if_pos ⟨rfl, by rw [hrelation]; rfl⟩
  | atLeast => exact if_pos ⟨rfl, by rw [hrelation]; rfl⟩
  | atMost =>
    apply (if_pos rfl).trans
    rw [hrelation]
    rfl

/-- It does not occur in any other row. -/
theorem pairwise_coefficient_eq_zero (constraints : List (Constraint F)) :
    (place 0 0 constraints).Pairwise fun c d =>
      d.coefficient c.basicLabel = 0 ∧ c.coefficient d.basicLabel = 0 := by
  apply (pairwise_place constraints 0 0).imp
  rintro c d ⟨hslack, hartificial⟩
  constructor
  · unfold basicLabel
    split
    · rename_i hneeds
      have hlt := hartificial hneeds
      exact coefficient_artificial_eq_zero fun _ => Nat.ne_of_lt hlt
    · rename_i hneeds
      have hlt := hslack (hasSlack_of_not_needsArtificial hneeds)
      exact coefficient_slack_eq_zero fun _ => Nat.ne_of_lt hlt
  · unfold basicLabel
    split
    · exact coefficient_artificial_eq_zero fun hneeds => Nat.ne_of_gt (hartificial hneeds)
    · exact coefficient_slack_eq_zero fun hhas => Nat.ne_of_gt (hslack hhas)

end PrimalSimplex.PlacedConstraint
