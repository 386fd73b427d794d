/-
  `Proofs.Solver.InOrder`: every tableau of a run shows a feasible basis.

  Over exact numbers and without a tolerance, the initial tableau of a well-formed
  problem is in order, and no step takes that away: not an exchange, whatever rule
  has chosen its column, and not the change between the phases.  So every tableau
  of a run is in order, also of a run that ends without a solution.
-/
import PrimalSimplex.Proofs.Solver.Defects
import PrimalSimplex.Proofs.Solver.Outcome
import PrimalSimplex.Proofs.Solver.Visited
import PrimalSimplex.Tableau.Check

set_option autoImplicit false

namespace PrimalSimplex

variable {F : Type}

/-! ## Problems that are solved -/

/-- There are variables, and every constraint has a coefficient for each. -/
structure Problem.WellFormed (p : Problem F) : Prop where
  variableCount_ne_zero : p.objective.variableCount ≠ 0
  length_eq : ∀ c ∈ p.constraints, c.coefficients.length = p.objective.variableCount

section Accepted

variable [Field F] [LinearOrder F]

/-- Exact numbers leave nothing else to be wrong with a problem. -/
theorem Problem.defects_eq_nil_iff {p : Problem F} {tolerance : F} :
    p.defects tolerance = [] ↔ 0 ≤ tolerance ∧ p.WellFormed := by
  rw [defects_eq_nil_iff_isSound Scalar.isSignBlind_exact]
  constructor
  · intro h
    refine ⟨?_, ?_, fun c hc => (h.constraints c hc).length_eq⟩
    · simpa [← Bool.not_eq_true] using h.tolerance.nonneg
    · simpa [Objective.variableCount] using h.objective.ne_nil
  · rintro ⟨hnonneg, hwell⟩
    refine ⟨⟨by simp, ?_⟩, ⟨?_, by simp⟩, fun c hc => ⟨hwell.length_eq c hc, by simp, by simp⟩,
      by simp⟩
    · simpa [← Bool.not_eq_true] using hnonneg
    · simpa [Objective.variableCount] using hwell.variableCount_ne_zero

theorem Tableau.isFinite_eq_true (t : Tableau F) : t.isFinite = true :=
  List.all_eq_true.mpr fun _ _ => List.all_eq_true.mpr fun _ _ => Scalar.isFinite_eq_true _

/-- A well-formed problem is answered, and the answer is the end of a run. -/
theorem Solver.exists_leads {s : Solver F} {p : Problem F} (htolerance : 0 ≤ s.settings.tolerance)
    (hwell : p.WellFormed) :
    ∃ report s' initial final, s.optimize p = .ok (report, s') ∧
      Tableau.initial p.standardize s.settings.tolerance = .ok initial ∧
      report.tableau? = some final ∧ Leads report.journal initial final := by
  obtain ⟨report, hanswer, hsolving⟩ := s.optimize_spec p
  have hdefects := Problem.defects_eq_nil_iff.mpr ⟨htolerance, hwell⟩
  obtain ⟨final, hfinal⟩ := hsolving.exists_tableau hdefects Tableau.isFinite_eq_true
  obtain ⟨initial, hinitial, hleads⟩ := hsolving.leads hfinal
  exact ⟨report, _, initial, final, hanswer, hinitial, hfinal, hleads⟩

end Accepted

/-! ## Order -/

namespace Tableau

variable [Field F] [LinearOrder F] {t u : Tableau F}

/-- The tableau shows a basis with a feasible solution. -/
structure ShowsFeasibleBasis (t : Tableau F) : Prop where
  length_labels : t.labels.length = t.width
  length_basis : t.basis.length + t.objectives = t.height
  nodup_basis : t.basis.Nodup
  /-- A basic column is the unit vector of its row. -/
  unit : ∀ k column, t.basis[k]? = some column → ∀ i < t.height,
    t.entry i column = .ok (if i = t.objectives + k then 1 else 0)
  bound_nonneg : ∀ row ∈ t.constraintRows, ∃ value, t.bound row = .ok value ∧ 0 ≤ value

namespace FeasibleBasis

theorem showsFeasibleBasis (h : t.FeasibleBasis) : t.ShowsFeasibleBasis where
  length_labels := h.length_labels
  length_basis := by rw [h.height_eq, Nat.add_comm]
  nodup_basis := h.nodup_basis
  unit k column hk i hi := by
    rw [entry_eq_ok hi (h.basis_lt column (List.mem_of_getElem? hk)), h.unit k column hk i hi]
  bound_nonneg row hrow :=
    ⟨_, h.bound_eq_ok (mem_constraintRows.mp hrow).2, h.bound_nonneg row hrow⟩

variable [IsStrictOrderedRing F]

theorem isUnitColumn_eq_ok (h : t.FeasibleBasis) (htolerance : 0 ≤ t.tolerance) {k column : Nat}
    (hk : t.basis[k]? = some column) : t.isUnitColumn column (t.objectives + k) = .ok true := by
  have hmarks : ((List.range t.height).mapM fun i => do
      return Scalar.near (← t.entry i column) (if i = t.objectives + k then 1 else 0)
        t.tolerance) = .ok ((List.range t.height).map fun _ => true) := by
    refine Fault.mapM_eq_ok fun i hi => ?_
    rw [h.showsFeasibleBasis.unit k column hk i (List.mem_range.mp hi)]
    refine congrArg Except.ok (Scalar.near_iff.mpr ?_)
    show |(if i = t.objectives + k then 1 else 0) - (if i = t.objectives + k then 1 else 0)| ≤
      t.tolerance
    rwa [sub_self, abs_zero]
  rw [isUnitColumn, hmarks]
  exact congrArg Except.ok (List.all_eq_true.mpr (by simp))

theorem isBoundInOrder_eq_ok (h : t.FeasibleBasis) (htolerance : 0 ≤ t.tolerance) {row : Nat}
    (hrow : row ∈ t.constraintRows) : t.isBoundInOrder row = .ok true := by
  obtain ⟨value, hvalue, hnonneg⟩ := h.showsFeasibleBasis.bound_nonneg row hrow
  have hscale : 0 ≤ (if Scalar.isLt 1 |value| then |value| else 1) := by
    split
    · exact abs_nonneg value
    · exact zero_le_one
  have hnegative : Scalar.isNegative (value / if Scalar.isLt 1 |value| then |value| else 1)
      t.tolerance = false := by
    rw [← Bool.not_eq_true, Scalar.isNegative_iff_lt htolerance, not_lt]
    exact (neg_nonpos.mpr htolerance).trans (div_nonneg hnonneg hscale)
  rw [isBoundInOrder, hvalue]
  exact congrArg (fun negative => Except.ok !negative) hnegative

/-- Such a tableau passes the check, whatever the tolerance is. -/
theorem isInOrder_eq_ok (h : t.FeasibleBasis) (htolerance : 0 ≤ t.tolerance) :
    t.isInOrder = .ok true := by
  have hunits : (t.basis.zipIdx.mapM fun basic =>
      t.isUnitColumn basic.1 (t.objectives + basic.2)) =
      .ok (t.basis.zipIdx.map fun _ => true) :=
    Fault.mapM_eq_ok fun _ hmem =>
      h.isUnitColumn_eq_ok htolerance (List.mem_zipIdx_iff_getElem?.mp hmem)
  have hbounds : t.constraintRows.mapM t.isBoundInOrder =
      .ok (t.constraintRows.map fun _ => true) :=
    Fault.mapM_eq_ok fun _ hrow => h.isBoundInOrder_eq_ok htolerance hrow
  have hlabels := h.length_labels
  have hbasis := h.showsFeasibleBasis.length_basis
  have hnodup := h.nodup_basis
  rw [isInOrder, hunits, hbounds]
  refine congrArg Except.ok ?_
  simp [hlabels, hbasis, hnodup]

end FeasibleBasis

namespace BasicFeasible

variable [IsStrictOrderedRing F]

/-- No step of a run takes a feasible basis away. -/
theorem advances (h : t.BasicFeasible) (hstep : t.Advances u) : u.BasicFeasible := by
  cases hstep with
  | exchange hcolumn hrow hpivot => exact (h.exchange hcolumn hrow hpivot).1
  | leave hphase _ _ _ hreduce => exact h.reduction (h.isReduction_of_reduce_eq hphase hreduce)
  | begin _ => exact h

end BasicFeasible

end Tableau

/-! ## Runs -/

namespace Solver

variable [Field F] [LinearOrder F] [IsStrictOrderedRing F] {s : Solver F} {p : Problem F}

/-- From the initial tableau to the one that is reported, every tableau that a solver
goes through shows a feasible basis. -/
theorem showsFeasibleBasis_of_visited (htolerance : s.settings.tolerance = 0)
    (hwell : p.WellFormed) :
    ∃ report s' initial final, s.optimize p = .ok (report, s') ∧
      Tableau.initial p.standardize 0 = .ok initial ∧ report.tableau? = some final ∧
      Leads report.journal initial final ∧
      ∀ t ∈ visited report.journal, t.ShowsFeasibleBasis ∧ t.isInOrder = .ok true := by
  obtain ⟨report, s', initial, final, hanswer, hinitial, hfinal, hleads⟩ :=
    exists_leads htolerance.ge hwell
  rw [htolerance] at hinitial
  obtain ⟨hzero, hisInitial⟩ := Tableau.isInitial_of_initial_eq hinitial
  have hbegins := Tableau.BasicFeasible.ofIsInitial hisInitial hzero
    Problem.bound_nonneg_of_mem_standardize
  have hall := hleads.forall_visited hbegins fun _ _ hstep ht => ht.advances hstep
  refine ⟨report, s', initial, final, hanswer, hinitial, hfinal, hleads, fun t ht => ?_⟩
  have hbasic := hall t ht
  exact ⟨hbasic.feasibleBasis.showsFeasibleBasis,
    hbasic.feasibleBasis.isInOrder_eq_ok hbasic.tolerance_eq.ge⟩

theorem showsFeasibleBasis_endlessProblem :
    ∃ report s', (create ⟨0, 10⟩ .roundRobin).optimize endlessProblem = .ok (report, s') ∧
      ∀ t ∈ visited report.journal, t.ShowsFeasibleBasis := by
  obtain ⟨report, s', _, _, hanswer, _, _, _, hall⟩ :=
    showsFeasibleBasis_of_visited (s := create ⟨0, 10⟩ .roundRobin) (p := endlessProblem) rfl
      ⟨by decide, by decide⟩
  exact ⟨report, s', hanswer, fun t ht => (hall t ht).1⟩

end Solver

end PrimalSimplex
