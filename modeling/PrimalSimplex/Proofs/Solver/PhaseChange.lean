/-
  `Proofs.Solver.PhaseChange`: the first phase is left without losing a point.

  When the first phase succeeds, the nonnegative solutions of the tableau that is
  left are, extended by zero to the columns that went, those of the initial tableau
  without artificial variables.  An artificial variable that is still there is
  therefore zero in all of them, and stays so in everything the second phase visits.
-/
import Mathlib.Data.Set.Function
import PrimalSimplex.Proofs.Solver.Outcome

set_option autoImplicit false

namespace PrimalSimplex

open Column (Label)
open Tableau (InFirstPhase Presents)

/-! ## Values for the variables of a tableau -/

namespace Tableau

variable {F : Type}

/-- A value for each variable of a tableau. -/
def Assignment (t : Tableau F) : Type := {label // label ∈ t.unknowns} → F

namespace Assignment

variable [Field F] {s t : Tableau F}

/-- The values of all variables, those without a column being zero. -/
def extend (x : t.Assignment) (label : Label) : F :=
  if h : label ∈ t.unknowns then x ⟨label, h⟩ else 0

/-- The values for the variables of another tableau, zero where there were none. -/
def extendTo (s : Tableau F) (x : t.Assignment) : s.Assignment := fun label => x.extend label.1

theorem extend_apply (x : t.Assignment) (label : {label // label ∈ t.unknowns}) :
    x.extend label.1 = x label := dif_pos label.2

theorem covers_extend (x : t.Assignment) : t.Covers x.extend := fun _ hlabel => dif_neg hlabel

theorem extend_injective : Function.Injective (extend (t := t)) := by
  intro x y h
  funext label
  rw [← x.extend_apply, ← y.extend_apply, h]

/-- Values that are zero outside of a tableau are those of an assignment. -/
theorem exists_extend_eq {y : Label → F} (hy : t.Covers y) : ∃ x : t.Assignment, x.extend = y := by
  refine ⟨fun label => y label.1, funext fun label => ?_⟩
  by_cases hlabel : label ∈ t.unknowns
  · exact dif_pos hlabel
  · rw [hy label hlabel]
    exact dif_neg hlabel

/-- Nothing is lost in a tableau with more variables. -/
theorem extend_extendTo (h : t.unknowns ⊆ s.unknowns) (x : t.Assignment) :
    (x.extendTo s).extend = x.extend := by
  funext label
  by_cases hlabel : label ∈ s.unknowns
  · exact dif_pos hlabel
  · rw [x.covers_extend label fun hmem => hlabel (h hmem)]
    exact dif_neg hlabel

variable [LinearOrder F]

/-- No value is negative, and the equation of every constraint row holds. -/
def IsSolution (x : t.Assignment) : Prop := (∀ label, 0 ≤ x label) ∧ t.Solves x.extend

/-- The artificial variables are zero. -/
def IsUnaided (x : t.Assignment) : Prop := ∀ label, label.1.isArtificial = true → x label = 0

theorem isSolution_iff {x : t.Assignment} : x.IsSolution ↔ t.Region x.extend := by
  constructor
  · rintro ⟨hnonneg, hsolves⟩
    refine ⟨x.covers_extend, fun label => ?_, hsolves⟩
    by_cases hlabel : label ∈ t.unknowns
    · exact (hnonneg ⟨label, hlabel⟩).trans_eq (x.extend_apply ⟨label, hlabel⟩).symm
    · exact (x.covers_extend label hlabel).ge
  · intro hregion
    exact ⟨fun label => (hregion.nonneg label.1).trans_eq (x.extend_apply label), hregion.solves⟩

omit [LinearOrder F] in
theorem isUnaided_iff {x : t.Assignment} : x.IsUnaided ↔ Unaided x.extend := by
  constructor
  · intro hunaided i
    by_cases hlabel : Label.artificial i ∈ t.unknowns
    · exact (x.extend_apply ⟨_, hlabel⟩).trans (hunaided ⟨_, hlabel⟩ rfl)
    · exact x.covers_extend _ hlabel
  · rintro hunaided ⟨label, hlabel⟩ hartificial
    rw [← x.extend_apply ⟨label, hlabel⟩]
    cases label with
    | artificial i => exact hunaided i
    | _ => cases hartificial

end Assignment

end Tableau

open Tableau (Assignment)

variable {F : Type} [Field F] [LinearOrder F] [IsStrictOrderedRing F]

/-! ## The second phase -/

/-- Every tableau that the second phase visits presents the problem. -/
theorem OptimalityRun.visited_presents {p : Problem F} {limit : Nat} {begun : Progress F}
    {stage : Stage F} (h : OptimalityRun limit begun stage) (hbegun : Presents p begun.tableau) :
    ∃ events, stage.progress.events = events ++ begun.events ∧
      ∀ u ∈ visited events, Presents p u := by
  have hpivots : ∀ {inner : Stage F},
      Pivoting limit (begun.record (.optimalityStarted begun.tableau)) inner →
      ∃ events, inner.progress.events = events ++ begun.events ∧
        ∀ u ∈ visited events, Presents p u := by
    intro inner hpivoting
    obtain ⟨_, events, hevents, hvisited⟩ := hpivoting.invariant
      (fun _ _ _ _ ht hj hrow hpivot => ht.exchange hj hrow hpivot) hbegun
    refine ⟨events ++ [.optimalityStarted begun.tableau], ?_, fun u hu => ?_⟩
    · rw [hevents, List.append_assoc]
      rfl
    · rw [visited, List.filterMap_append] at hu
      rcases List.mem_append.mp hu with hu | hu
      · exact hvisited u hu
      · obtain rfl := List.mem_singleton.mp hu
        exact hbegun
  cases h with
  | stopped hpivoting => exact hpivots hpivoting
  | @reached q hpivoting =>
    obtain ⟨events, hevents, hvisited⟩ := hpivots hpivoting
    refine ⟨.optimalityDone q.iterations :: events, ?_, hvisited⟩
    exact congrArg (.optimalityDone q.iterations :: ·) hevents

/-! ## Between the phases -/

/-- A first phase that succeeds is left for a tableau with the same nonnegative
solutions, as far as these do without artificial variables. -/
theorem Progress.leaveFeasibility_bijOn {p : Problem F} {rule : EnteringRule} {limit : Nat}
    {begun : Progress F} {stage : Stage F} (hbounds : ∀ c ∈ p.constraints, 0 ≤ c.bound)
    (hneeds : ∃ c ∈ p.constraints, c.relation.needsArtificial = true)
    (hinitial : Tableau.initial p 0 = .ok begun.tableau)
    (hrun : runFeasibility rule limit begun = .ok stage) (hreached : stage.failure? = none) :
    ∃ next, stage.progress.leaveFeasibility = .ok next ∧
      next.tableau.unknowns ⊆ begun.tableau.unknowns ∧
      Set.BijOn (Assignment.extendTo begun.tableau)
        {x : next.tableau.Assignment | x.IsSolution}
        {y : begun.tableau.Assignment | y.IsSolution ∧ y.IsUnaided} ∧
      (∀ x : next.tableau.Assignment, x.IsSolution → x.IsUnaided) ∧
      ∀ rule limit, ∃ final events, runOptimality rule limit next = .ok final ∧
        final.progress.events = events ++ next.events ∧
        ∀ u ∈ final.progress.tableau :: visited events, ∀ label : Label,
          label.isArtificial = true → u.value label = .ok 0 := by
  obtain ⟨htolerance, hisInitial⟩ := Tableau.isInitial_of_initial_eq hinitial
  have hartificials : 0 < p.layout.artificials := List.countP_pos_iff.mpr hneeds
  have hphase : begun.tableau.phase = .feasibility := by
    rw [hisInitial.phase_eq, if_pos hartificials]
  have hbegun := InFirstPhase.ofIsInitial hisInitial htolerance hbounds hphase
  obtain ⟨failure?, q⟩ := stage
  obtain rfl : failure? = none := hreached
  obtain ⟨stage, hstage, hfeasibility⟩ := runFeasibility_spec rule limit hisInitial.wellShaped
  obtain rfl := Except.ok.inj (hrun.symm.trans hstage)
  obtain ⟨hend, hoptimal, hzero⟩ := hfeasibility.reached_spec hbegun
  obtain ⟨next, hnext, hreduction, _, _⟩ := q.leaveFeasibility_spec hend.toWellShaped hend.phase_eq
  have hregion : ∀ x, next.tableau.Region x ↔ begun.tableau.Region x ∧ Unaided x :=
    fun x => hend.region_reduction_iff hoptimal hzero hreduction
  have hpresents := hend.presents_reduction hoptimal hzero hreduction
  have hsubset : next.tableau.unknowns ⊆ begun.tableau.unknowns :=
    (hend.restates.trans (hreduction.restates hend.toCanonical)).unknowns_subset
  refine ⟨next, hnext, hsubset, ⟨?_, ?_, ?_⟩, ?_, ?_⟩
  · -- Extensions are solutions.
    intro x hx
    obtain ⟨hsolution, hunaided⟩ := (hregion _).mp (Assignment.isSolution_iff.mp hx)
    rw [← Assignment.extend_extendTo hsubset] at hsolution hunaided
    exact ⟨Assignment.isSolution_iff.mpr hsolution, Assignment.isUnaided_iff.mpr hunaided⟩
  · -- Different values have different extensions.
    intro x _ y _ hxy
    apply Assignment.extend_injective
    rw [← Assignment.extend_extendTo hsubset, ← Assignment.extend_extendTo hsubset, hxy]
  · -- Every solution without artificial variables is an extension.
    rintro y ⟨hsolution, hunaided⟩
    have hy := (hregion _).mpr
      ⟨Assignment.isSolution_iff.mp hsolution, Assignment.isUnaided_iff.mp hunaided⟩
    obtain ⟨x, hx⟩ := Assignment.exists_extend_eq hy.covers
    refine ⟨x, Assignment.isSolution_iff.mpr (hx ▸ hy), Assignment.extend_injective ?_⟩
    rw [Assignment.extend_extendTo hsubset, hx]
  · intro x hx
    exact Assignment.isUnaided_iff.mpr (hpresents.unaided _ (Assignment.isSolution_iff.mp hx))
  · intro rule limit
    obtain ⟨final, hfinal, hoptimality⟩ := runOptimality_spec rule limit hpresents.toWellShaped
    obtain ⟨events, hevents, hvisited⟩ := hoptimality.visited_presents hpresents
    refine ⟨final, events, hfinal, hevents, fun u hu label hlabel => ?_⟩
    rcases List.mem_cons.mp hu with rfl | hu
    · exact (hoptimality.spec hpresents).1.value_artificial hlabel
    · exact (hvisited u hu).value_artificial hlabel

/-- A problem that says the same twice, so that an artificial variable stays. -/
def redundantProblem : Problem ℚ where
  objective := ⟨[1, 3], 0⟩
  constraints := [⟨[1, 1], .equal, 1⟩, ⟨[2, 2], .equal, 2⟩]
  goal := .minimize
  nonNegative := true

theorem leaveFeasibility_redundantProblem :
    ∃ begun stage next, Tableau.initial redundantProblem 0 = .ok begun.tableau ∧
      runFeasibility .steepest 10 begun = .ok stage ∧
      stage.progress.leaveFeasibility = .ok next ∧
      Set.BijOn (Assignment.extendTo begun.tableau)
        {x : next.tableau.Assignment | x.IsSolution}
        {y : begun.tableau.Assignment | y.IsSolution ∧ y.IsUnaided} := by
  have hruns : ((Tableau.initial redundantProblem 0).toOption.bind fun t =>
      (runFeasibility .steepest 10 ⟨t, 0, []⟩).toOption.map (·.failure?)) = some none := by
    decide +kernel
  obtain ⟨t, hinitial, hstage⟩ := Option.bind_eq_some_iff.mp hruns
  obtain ⟨stage, hrun, hreached⟩ := Option.map_eq_some_iff.mp hstage
  have hinitial := Fault.eq_ok_of_toOption_eq_some hinitial
  have hrun := Fault.eq_ok_of_toOption_eq_some hrun
  have hbounds : ∀ c ∈ redundantProblem.constraints, 0 ≤ c.bound := by decide +kernel
  have hneeds : ∃ c ∈ redundantProblem.constraints, c.relation.needsArtificial = true :=
    ⟨_, List.mem_cons_self .., rfl⟩
  obtain ⟨next, hnext, _, hbijOn, _⟩ :=
    Progress.leaveFeasibility_bijOn hbounds hneeds hinitial hrun hreached
  exact ⟨⟨t, 0, []⟩, stage, next, hinitial, hrun, hnext, hbijOn⟩

end PrimalSimplex
