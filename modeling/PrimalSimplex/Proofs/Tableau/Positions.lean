/-
  `Proofs.Tableau.Positions`: one position for every variable.

  Numbers are put into a matrix by group and place, and looked up by label.  Wherever the
  layout has a label, the two ways lead to the same column, whichever groups are empty:
  the matrix that is filled number by number has the coefficients of a variable in the
  column in which the tableau finds it, and the basis names the columns of the basic
  variables.  Labels that the layout does not have are not found.
-/
import PrimalSimplex.Proofs.Column.Place
import PrimalSimplex.Proofs.Tableau.Assembly

set_option autoImplicit false

namespace PrimalSimplex

open Column (Kind Label Layout)

variable {F : Type} [Scalar F]

/-! ## Initial tableaus -/

namespace Tableau

variable {p : Problem F} {t : Tableau F}

omit [Scalar F] in
/-- Looking for a label gives its position in the layout, as long as no column is
removed. -/
theorem columnOf?_eq_position? (hlabels : t.labels = p.layout.labels) (label : Label) :
    t.columnOf? label = p.layout.position? label := by
  cases hposition : p.layout.position? label with
  | some j =>
    refine columnOf?_of_label_eq (hlabels ▸ p.layout.nodup_labels) (Fault.fetch_eq_ok_iff.mpr ?_)
    rw [hlabels]
    exact Layout.getElem?_labels_eq_some_iff.mpr hposition
  | none =>
    rw [columnOf?, List.idxOf?_eq_none_iff, hlabels]
    intro hmem
    obtain ⟨j, hj⟩ := List.mem_iff_getElem?.mp hmem
    rw [Layout.getElem?_labels_eq_some_iff.mp hj] at hposition
    cases hposition

/-- A tableau has the coefficients of every variable of a problem in the column in which
it finds the variable. -/
structure Locates (t : Tableau F) (p : Problem F) : Prop where
  columnOf?_eq : ∀ label, t.columnOf? label = p.layout.position? label
  /-- Where a number is put that is meant for a variable. -/
  put_eq : ∀ label group i column, p.layout.place? label = some (group, i) →
    t.columnOf? label = some column →
    ∀ row x (m : Matrix F), p.put row group i x m = m.set row column x
  basis_eq : ∀ (k : Nat) (c : PlacedConstraint F), p.placedConstraints[k]? = some c →
    t.basis[k]? = t.columnOf? c.basicLabel
  constraint_eq : ∀ label column (k : Nat) (c : PlacedConstraint F),
    t.columnOf? label = some column → p.placedConstraints[k]? = some c →
    t.entry (t.objectives + k) column = .ok (c.coefficient label)
  objective_eq : ∀ label column, t.columnOf? label = some column →
    t.entry t.objectiveRow column = .ok (p.objectiveCoefficient label)
  auxiliary_eq : ∀ label column, t.columnOf? label = some column → t.phase = .feasibility →
    t.entry 0 column = .ok (p.auxiliaryCost label)

theorem IsInitial.locates (h : t.IsInitial p) : t.Locates p := by
  have hlocate := columnOf?_eq_position? h.labels_eq
  -- What a row has for a label is in the column in which the label is found.
  have hentry : ∀ {i column : Nat} {label : Label} {coefficient : Label → F},
      t.matrix.rows[i]? = some (p.row coefficient) → t.columnOf? label = some column →
      t.entry i column = .ok (coefficient label) := by
    intro i column label coefficient hrow hcolumn
    rw [hlocate] at hcolumn
    refine Matrix.entry_eq_ok_iff.mpr ⟨_, hrow, ?_⟩
    rw [Problem.row, List.getElem?_map, Layout.getElem?_labels_eq_some_iff.mpr hcolumn,
      Option.map_some]
  refine ⟨hlocate, fun label group i column hplace hcolumn row x m => ?_, fun k c hc => ?_,
    fun label column k c hcolumn hc => hentry (h.getElem?_constraint hc) hcolumn,
    fun label column hcolumn => hentry h.getElem?_objective hcolumn,
    fun label column hcolumn hphase => hentry (h.getElem?_auxiliary hphase) hcolumn⟩
  · rw [hlocate, Layout.position?, hplace, Option.map_some] at hcolumn
    exact congrArg (m.set row · x) (Option.some.inj hcolumn)
  · have hat := (Problem.getElem?_basicColumn (List.mem_of_getElem? hc)).1
    rw [hlocate, h.basis_eq, List.getElem?_map, hc, Option.map_some,
      Layout.getElem?_labels_eq_some_iff.mp hat]

end Tableau

/-- The groups of a layout, in order and with their sizes, fill its width without gaps,
and each column has a label that no other one has, at the place that the label gives.  So
it is the same to put numbers at places counted from the starts of groups, which is how
the matrix of a problem is filled, and to look for labels in its tableau. -/
theorem Column.Layout.locates_of_layout_eq (l : Layout) :
    l.start .objective = 0 ∧
      (Kind.all.IsChain fun group next => l.stop group = l.start next) ∧
      l.stop .bound = l.width ∧
      Kind.all.flatMap l.positions = List.range l.width ∧
      Kind.all.map (fun group => l.stop group - l.start group) =
        [if 0 < l.artificials then 2 else 1, l.decisions, if l.hasOffset then 1 else 0, l.slacks,
          l.artificials, 1] ∧
      l.labels.length = l.width ∧ l.labels.Nodup ∧
      (∀ j label, l.labels[j]? = some label ↔ l.position? label = some j) ∧
      ∀ (p : Problem F) (tolerance : F) (t : Tableau F), p.layout = l →
        Tableau.initial p tolerance = .ok t →
          p.assemble = .ok t.matrix ∧ t.Locates p := by
  refine ⟨rfl, l.isChain_all, ?_, l.flatMap_positions, ?_, l.length_labels, l.nodup_labels,
    fun j label => Layout.getElem?_labels_eq_some_iff, ?_⟩
  · exact l.stop_eq_totalSize (show Kind.all = Kind.all.dropLast ++ [.bound] from rfl)
  · rw [funext l.stop_sub_start]
    rfl
  · rintro p tolerance t rfl hinitial
    exact ⟨Tableau.assemble_eq_of_initial_eq hinitial,
      (Tableau.isInitial_of_initial_eq hinitial).2.locates⟩

/-- Three constraints on two variables that may be negative, one of which needs an
artificial variable. -/
def groupedProblem : Problem ℚ where
  objective := ⟨[1, -2], 3⟩
  constraints := [⟨[1, 0], .atMost, 4⟩, ⟨[1, 1], .atLeast, 1⟩, ⟨[0, 1], .atMost, 2⟩]
  goal := .maximize
  nonNegative := false

/-- Its columns are `W Z | x0 x1 x- | s0 s1 s2 | a0 | RHS`.  The second constraint is row
3, and takes its slack variable off. -/
theorem locates_groupedProblem :
    ∃ t, Tableau.initial groupedProblem 0 = .ok t ∧ groupedProblem.assemble = .ok t.matrix ∧
      t.Locates groupedProblem ∧ t.columnOf? (.slack 1) = some 6 ∧ t.entry 3 6 = .ok (-1) ∧
      t.columnOf? (.artificial 1) = none ∧ t.basis[1]? = some 8 := by
  obtain ⟨t, hinitial⟩ := Tableau.exists_initial (p := groupedProblem) 0 (by decide)
  obtain ⟨-, -, -, -, -, -, -, -, hlocate⟩ :=
    Column.Layout.locates_of_layout_eq (F := ℚ) groupedProblem.layout
  obtain ⟨hassemble, hlocates⟩ := hlocate groupedProblem 0 t rfl hinitial
  have htwo : t.objectives = 2 := (Tableau.isInitial_of_initial_eq hinitial).2.objectives_eq
  have hslack : t.columnOf? (.slack 1) = some 6 := hlocates.columnOf?_eq (.slack 1)
  have hentry := hlocates.constraint_eq (.slack 1) 6 1 _ hslack rfl
  have hbasic := hlocates.basis_eq 1 _ rfl
  rw [htwo] at hentry
  exact ⟨t, hinitial, hassemble, hlocates, hslack, hentry, hlocates.columnOf?_eq (.artificial 1),
    hbasic.trans (hlocates.columnOf?_eq (.artificial 0))⟩

end PrimalSimplex
