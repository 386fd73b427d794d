/-
  `Proofs.Tableau.FiniteEntries`: where the numbers of an initial tableau can overflow.

  An initial tableau holds the numbers of a problem, some of them negated, and for the
  offset the negated sum of a row.  The sums are over the given numbers, or over all of
  them negated, and signs decide nothing about what overflows.  So what was checked of the
  given problem holds of the standardized one.  Only the auxiliary objective adds numbers
  of several rows, and only there the tableau can hold what is not finite.
-/
import PrimalSimplex.Proofs.Tableau.Initial

set_option autoImplicit false

namespace PrimalSimplex

open Column (Label Layout)

variable {F : Type} [Scalar F]

/-! ## Numbers that are finite -/

/-- Zero and one are finite, and signs make no difference to what is. -/
structure Scalar.IsSignBlind (F : Type) [Scalar F] : Prop where
  zero : Scalar.isFinite (0 : F) = true
  one : Scalar.isFinite (1 : F) = true
  neg : ∀ a : F, Scalar.isFinite (-a) = Scalar.isFinite a
  sum_neg : ∀ l : List F, Scalar.isFinite ((l.map fun a => -a).foldl (· + ·) 0) =
    Scalar.isFinite (l.foldl (· + ·) 0)

/-- Exact numbers do not overflow. -/
theorem Scalar.isSignBlind_exact {F : Type} [Field F] [LinearOrder F] : Scalar.IsSignBlind F where
  zero := rfl
  one := rfl
  neg _ := rfl
  sum_neg _ := rfl

/-- The constraint has a coefficient for each variable, its numbers are finite, and where
there is an offset, so is the sum of its coefficients. -/
structure Constraint.IsSound (variableCount : Nat) (nonNegative : Bool) (c : Constraint F) :
    Prop where
  length_eq : c.coefficients.length = variableCount
  finite : ∀ a ∈ c.coefficients ++ [c.bound], Scalar.isFinite a = true
  sum_finite : nonNegative = false → Scalar.isFinite (c.coefficients.foldl (· + ·) 0) = true

/-- The objective has variables, and its numbers are finite. -/
structure Objective.IsSound (o : Objective F) : Prop where
  ne_nil : o.coefficients ≠ []
  finite : ∀ a ∈ o.coefficients ++ [o.constant], Scalar.isFinite a = true

/-- The tolerance is finite and not negative. -/
structure Scalar.IsTolerance (tolerance : F) : Prop where
  finite : Scalar.isFinite tolerance = true
  nonneg : Scalar.isLt tolerance 0 = false

/-- Nothing is wrong with a problem and a tolerance, as they are given. -/
structure Problem.IsSound (p : Problem F) (tolerance : F) : Prop where
  tolerance : Scalar.IsTolerance tolerance
  objective : p.objective.IsSound
  constraints : ∀ c ∈ p.constraints, c.IsSound p.objective.variableCount p.nonNegative
  sum_finite : p.nonNegative = false →
    Scalar.isFinite (p.objective.coefficients.foldl (· + ·) 0) = true

/-! ## Standardizing -/

namespace Constraint.IsSound

variable {variableCount : Nat} {nonNegative : Bool} {c : Constraint F}

theorem negate (hF : Scalar.IsSignBlind F) (h : c.IsSound variableCount nonNegative) :
    c.negate.IsSound variableCount nonNegative where
  length_eq := by
    rw [← h.length_eq]
    exact List.length_map _
  finite a ha := by
    have hnumbers : c.negate.coefficients ++ [c.negate.bound] =
        (c.coefficients ++ [c.bound]).map fun a => -a := by
      simp [Constraint.negate]
    rw [hnumbers] at ha
    obtain ⟨b, hb, rfl⟩ := List.mem_map.mp ha
    rw [hF.neg, h.finite b hb]
  sum_finite hfree := (hF.sum_neg _).trans (h.sum_finite hfree)

theorem standardize (hF : Scalar.IsSignBlind F) (h : c.IsSound variableCount nonNegative) :
    c.standardize.IsSound variableCount nonNegative := by
  unfold Constraint.standardize
  split
  · exact h.negate hF
  · exact h

end Constraint.IsSound

/-- Standardizing takes nothing away that was checked. -/
theorem Problem.IsSound.standardize {p : Problem F} {tolerance : F} (hF : Scalar.IsSignBlind F)
    (h : p.IsSound tolerance) : p.standardize.IsSound tolerance where
  tolerance := h.tolerance
  objective := h.objective
  constraints c hc := by
    obtain ⟨given, hgiven, rfl⟩ := List.mem_map.mp hc
    exact (h.constraints given hgiven).standardize hF
  sum_finite := h.sum_finite

/-! ## Rows -/

theorem isFinite_getD (hF : Scalar.IsSignBlind F) {l : List F}
    (h : ∀ a ∈ l, Scalar.isFinite a = true) (i : Nat) : Scalar.isFinite (l.getD i 0) = true := by
  rw [List.getD_eq_getElem?_getD]
  cases hi : l[i]? with
  | none => exact hF.zero
  | some a => exact h a (List.mem_of_getElem? hi)

/-- The numbers of a constraint are finite, that of the offset where there is one. -/
theorem PlacedConstraint.isFinite_coefficient (hF : Scalar.IsSignBlind F)
    {c : PlacedConstraint F} {variableCount : Nat} {nonNegative : Bool}
    (h : c.constraint.IsSound variableCount nonNegative) {label : Label}
    (hoffset : label = .offset → nonNegative = false) :
    Scalar.isFinite (c.coefficient label) = true := by
  cases label with
  | auxiliary => exact hF.zero
  | objective => exact hF.zero
  | decision i =>
    exact isFinite_getD hF (fun a ha => h.finite a (List.mem_append_left _ ha)) i
  | offset => exact (hF.neg _).trans (h.sum_finite (hoffset rfl))
  | slack i =>
    simp only [coefficient]
    split
    · cases c.constraint.relation with
      | equal => exact hF.zero
      | atLeast => exact (hF.neg 1).trans hF.one
      | atMost => exact hF.one
    · exact hF.zero
  | artificial i =>
    simp only [coefficient]
    split
    · exact hF.one
    · exact hF.zero
  | bound => exact h.finite c.constraint.bound (by simp)

namespace Problem

variable {p : Problem F} {tolerance : F}

/-- Costs are the coefficients of the objective, as they are or all of them negated. -/
theorem isFinite_costs (hF : Scalar.IsSignBlind F) (h : p.IsSound tolerance) :
    (∀ a ∈ p.costs, Scalar.isFinite a = true) ∧
      (p.nonNegative = false → Scalar.isFinite (p.costs.foldl (· + ·) 0) = true) := by
  have hcoefficients : ∀ a ∈ p.objective.coefficients, Scalar.isFinite a = true :=
    fun a ha => h.objective.finite a (List.mem_append_left _ ha)
  unfold costs
  cases p.goal with
  | minimize => exact ⟨hcoefficients, h.sum_finite⟩
  | maximize =>
    refine ⟨fun a ha => ?_, fun hfree => (hF.sum_neg _).trans (h.sum_finite hfree)⟩
    obtain ⟨b, hb, rfl⟩ := List.mem_map.mp ha
    rw [hF.neg, hcoefficients b hb]

/-- So are those of the objective. -/
theorem isFinite_objectiveCoefficient (hF : Scalar.IsSignBlind F) (h : p.IsSound tolerance)
    {label : Label} (hoffset : label = .offset → p.nonNegative = false) :
    Scalar.isFinite (p.objectiveCoefficient label) = true := by
  have hconstant := h.objective.finite p.objective.constant (by simp)
  cases label with
  | auxiliary => exact hF.zero
  | objective =>
    simp only [objectiveCoefficient]
    cases p.goal with
    | maximize => exact hF.one
    | minimize => exact (hF.neg 1).trans hF.one
  | decision i => exact isFinite_getD hF (isFinite_costs hF h).1 i
  | offset => exact (hF.neg _).trans ((isFinite_costs hF h).2 (hoffset rfl))
  | slack i => exact hF.zero
  | artificial i => exact hF.zero
  | bound =>
    simp only [objectiveCoefficient]
    cases p.goal with
    | maximize => exact hconstant
    | minimize => exact (hF.neg _).trans hconstant

omit [Scalar F] in
/-- There is a column for the offset only where variables may be negative. -/
theorem nonNegative_eq_false_of_offset_mem (h : Label.offset ∈ p.layout.labels) :
    p.nonNegative = false := by
  have hmem := Layout.mem_groupLabels_of_mem_labels h
  cases hsign : p.nonNegative with
  | false => rfl
  | true => simp [Label.kind, Layout.groupLabels, layout, hsign] at hmem

theorem isFinite_of_mem_row {coefficient : Label → F}
    (h : ∀ label, (label = .offset → p.nonNegative = false) →
      Scalar.isFinite (coefficient label) = true) {x : F} (hx : x ∈ p.row coefficient) :
    Scalar.isFinite x = true := by
  obtain ⟨label, hlabel, rfl⟩ := List.mem_map.mp hx
  refine h label fun hoffset => ?_
  exact nonNegative_eq_false_of_offset_mem (hoffset ▸ hlabel)

/-- The rows of the tableau that take nothing from other rows. -/
def plainRows (p : Problem F) : List (List F) :=
  p.row p.objectiveCoefficient :: p.placedConstraints.map fun c => p.row c.coefficient

theorem isFinite_of_mem_plainRows (hF : Scalar.IsSignBlind F) (h : p.IsSound tolerance)
    {row : List F} (hrow : row ∈ p.plainRows) : ∀ x ∈ row, Scalar.isFinite x = true := by
  intro x hx
  rcases List.mem_cons.mp hrow with rfl | hrow
  · exact isFinite_of_mem_row (fun _ => isFinite_objectiveCoefficient hF h) hx
  · obtain ⟨c, hc, rfl⟩ := List.mem_map.mp hrow
    have hsound := h.constraints _ (mem_constraints_iff.mpr ⟨c, hc, rfl⟩)
    exact isFinite_of_mem_row (fun _ => c.isFinite_coefficient hF hsound) hx

/-- The auxiliary objective comes before them, where it is. -/
theorem initialRows_eq (p : Problem F) :
    p.initialRows = if 0 < p.layout.artificials then p.row p.auxiliaryCost :: p.plainRows
      else p.plainRows := by
  unfold initialRows objectiveRows
  split
  · rfl
  · rfl

end Problem

/-! ## The tableau -/

namespace Tableau

variable {p : Problem F} {t : Tableau F} {tolerance : F}

/-- Some number of the auxiliary objective is not finite. -/
def Overflows (t : Tableau F) : Prop :=
  t.phase = .feasibility ∧ ∃ j x, t.entry 0 j = .ok x ∧ Scalar.isFinite x = false

theorem isFinite_iff : t.isFinite = true ↔
    ∀ i j x, t.entry i j = .ok x → Scalar.isFinite x = true := by
  simp only [isFinite, Matrix.isFinite, List.all_eq_true]
  constructor
  · intro hall i j x hentry
    obtain ⟨row, hrow, hx⟩ := Matrix.entry_eq_ok_iff.mp hentry
    exact hall row (List.mem_of_getElem? hrow) x (List.mem_of_getElem? hx)
  · intro hall row hrow x hx
    obtain ⟨i, hi⟩ := List.mem_iff_getElem?.mp hrow
    obtain ⟨j, hj⟩ := List.mem_iff_getElem?.mp hx
    exact hall i j x (Matrix.entry_eq_ok_iff.mpr ⟨row, hi, hj⟩)

namespace IsInitial

/-- What is not in the row of the auxiliary objective comes from the problem. -/
theorem isFinite_entry (hF : Scalar.IsSignBlind F) (h : t.IsInitial p)
    (hsound : p.IsSound tolerance) {i j : Nat} {x : F} (hentry : t.entry i j = .ok x) :
    t.phase = .feasibility ∧ i = 0 ∨ Scalar.isFinite x = true := by
  obtain ⟨row, hrow, hx⟩ := Matrix.entry_eq_ok_iff.mp hentry
  have hplain : row ∈ p.plainRows → Scalar.isFinite x = true := fun hmem =>
    Problem.isFinite_of_mem_plainRows hF hsound hmem x (List.mem_of_getElem? hx)
  rw [h.rows_eq, Problem.initialRows_eq] at hrow
  split at hrow
  · rename_i hartificial
    cases i with
    | zero => exact .inl ⟨h.phase_eq_feasibility_iff.mpr hartificial, rfl⟩
    | succ i =>
      rw [List.getElem?_cons_succ] at hrow
      exact .inr (hplain (List.mem_of_getElem? hrow))
  · exact .inr (hplain (List.mem_of_getElem? hrow))

/-- The numbers of a sound problem overflow in the auxiliary objective or not at all. -/
theorem isFinite_eq_false_iff (hF : Scalar.IsSignBlind F) (h : t.IsInitial p)
    (hsound : p.IsSound tolerance) : t.isFinite = false ↔ t.Overflows := by
  rw [← Bool.not_eq_true, isFinite_iff]
  constructor
  · intro hsome
    simp only [not_forall] at hsome
    obtain ⟨i, j, x, hentry, hnot⟩ := hsome
    rcases h.isFinite_entry hF hsound hentry with ⟨hphase, rfl⟩ | hfinite
    · exact ⟨hphase, j, x, hentry, Bool.eq_false_iff.mpr hnot⟩
    · exact absurd hfinite hnot
  · rintro ⟨-, j, x, hentry, hnot⟩ hall
    rw [hall 0 j x hentry] at hnot
    cases hnot

end IsInitial

end Tableau

end PrimalSimplex
