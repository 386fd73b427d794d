/-
  `Proofs.Tableau.Assignment`: a tableau as a system of equations.

  Columns stand for variables, so a value for each label turns every row into an
  equation or, for an objective, into a number.  Labels outlive the columns that
  are removed between the phases; that is why assignments are functions of labels
  and not of positions, and why an assignment of fewer columns is, extended by
  zero, one of more.

  `Restates` is what pivoting and reducing a tableau have in common: the new
  tableau has the same solutions, as far as it still has columns for them, and on
  these its objective rows say the same.
-/
import Mathlib.Algebra.BigOperators.Intervals
import PrimalSimplex.Proofs.Scalar.Exact
import PrimalSimplex.Proofs.Tableau.Entries

set_option autoImplicit false

namespace PrimalSimplex.Tableau

open Column (Label)

variable {F : Type}

/-- The variables that have a column. -/
def unknowns (t : Tableau F) : List Label :=
  t.variableColumns.map t.labelAt

/-- The row of the problem's objective, the last one above the constraints. -/
def objectiveRow (t : Tableau F) : Nat := t.objectives - 1

theorem objectiveRow_lt (t : Tableau F) : t.objectiveRow < t.objectives := by
  have := t.objectives_pos
  unfold objectiveRow
  omega

theorem objectiveRow_of_optimality {t : Tableau F} (hphase : t.phase = .optimality) :
    t.objectiveRow = 0 := by
  rw [objectiveRow, objectives, hphase]
  rfl

theorem labelAt_mem_unknowns {t : Tableau F} {j : Nat} (hj : j ∈ t.variableColumns) :
    t.labelAt j ∈ t.unknowns :=
  List.mem_map_of_mem hj

variable [Field F] [LinearOrder F]

/-! ## Equations -/

/-- The left hand side of a row, when the variables have the given values. -/
def lhs (t : Tableau F) (i : Nat) (x : Label → F) : F :=
  (t.variableColumns.map fun j => t.coeff i j * x (t.labelAt j)).sum

/-- The left hand side of a row less its right hand side. -/
def residual (t : Tableau F) (i : Nat) (x : Label → F) : F :=
  t.lhs i x - t.coeff i t.boundColumn

/-- The values solve the equation of every constraint row. -/
def Solves (t : Tableau F) (x : Label → F) : Prop :=
  ∀ i ∈ t.constraintRows, t.lhs i x = t.coeff i t.boundColumn

/-- Only variables with a column have a value other than zero. -/
def Covers (t : Tableau F) (x : Label → F) : Prop :=
  ∀ label ∉ t.unknowns, x label = 0

theorem lhs_eq_sum (t : Tableau F) (i : Nat) (x : Label → F) :
    t.lhs i x = ∑ j ∈ Finset.Ico t.objectives t.boundColumn, t.coeff i j * x (t.labelAt j) :=
  rfl

theorem Solves.residual_eq_zero {t : Tableau F} {x : Label → F} (h : t.Solves x) {i : Nat}
    (hi : i ∈ t.constraintRows) : t.residual i x = 0 :=
  sub_eq_zero.mpr (h i hi)

theorem lhs_add (t : Tableau F) (i : Nat) (x y : Label → F) :
    t.lhs i (x + y) = t.lhs i x + t.lhs i y := by
  simp only [lhs_eq_sum, Pi.add_apply, mul_add, Finset.sum_add_distrib]

/-! ## Restating -/

/-- The second tableau is about some of the variables of the first one, and says
the same about them. -/
structure Restates (s t : Tableau F) : Prop where
  unknowns_subset : t.unknowns ⊆ s.unknowns
  solves_iff : ∀ x, t.Covers x → (t.Solves x ↔ s.Solves x)
  objective_eq : ∀ x, t.Covers x → t.Solves x →
    t.residual t.objectiveRow x = s.residual s.objectiveRow x
  /-- As long as the auxiliary objective is there, it says the same too. -/
  auxiliary_eq : t.phase = .feasibility →
    s.phase = .feasibility ∧ ∀ x, t.Covers x → t.Solves x → t.residual 0 x = s.residual 0 x
  nonNegative_eq : t.nonNegative = s.nonNegative
  tolerance_eq : t.tolerance = s.tolerance

omit [LinearOrder F] in
theorem Covers.mono {s t : Tableau F} {x : Label → F} (hx : t.Covers x)
    (h : t.unknowns ⊆ s.unknowns) : s.Covers x :=
  fun label hlabel => hx label fun hmem => hlabel (h hmem)

namespace Restates

theorem refl (t : Tableau F) : t.Restates t :=
  ⟨fun _ h => h, fun _ _ => Iff.rfl, fun _ _ _ => rfl, fun h => ⟨h, fun _ _ _ => rfl⟩, rfl, rfl⟩

theorem trans {r s t : Tableau F} (hrs : r.Restates s) (hst : s.Restates t) : r.Restates t where
  unknowns_subset := fun _ h => hrs.unknowns_subset (hst.unknowns_subset h)
  solves_iff x hx :=
    (hst.solves_iff x hx).trans (hrs.solves_iff x (hx.mono hst.unknowns_subset))
  objective_eq x hx hsolves := by
    have hsolves' : s.Solves x := (hst.solves_iff x hx).mp hsolves
    rw [hst.objective_eq x hx hsolves]
    exact hrs.objective_eq x (hx.mono hst.unknowns_subset) hsolves'
  auxiliary_eq hphase := by
    obtain ⟨hphase', heq⟩ := hst.auxiliary_eq hphase
    obtain ⟨hphase'', heq'⟩ := hrs.auxiliary_eq hphase'
    refine ⟨hphase'', fun x hx hsolves => ?_⟩
    have hsolves' : s.Solves x := (hst.solves_iff x hx).mp hsolves
    rw [heq x hx hsolves]
    exact heq' x (hx.mono hst.unknowns_subset) hsolves'
  nonNegative_eq := hst.nonNegative_eq.trans hrs.nonNegative_eq
  tolerance_eq := hst.tolerance_eq.trans hrs.tolerance_eq

end Restates

end PrimalSimplex.Tableau
