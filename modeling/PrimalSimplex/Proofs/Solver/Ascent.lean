/-
  `Proofs.Solver.Ascent`: the loop of a phase makes progress or stays where it is.

  Over exact numbers and without a tolerance, row 0 never falls in a run, and rises
  with each pivot in whose row there is something to gain.  So the pivots between two
  moments with the same basic columns were all degenerate.  A run without degenerate
  pivots meets no basis twice and has an end, for there are only so many of them.
-/
import PrimalSimplex.Proofs.Solver.InOrder
import PrimalSimplex.Proofs.Solver.Pivots
import PrimalSimplex.Proofs.Tableau.Ascent

set_option autoImplicit false

namespace PrimalSimplex

variable {F : Type} [Field F] [LinearOrder F]

/-! ## One pivot -/

namespace Pivot

/-- The right hand side of the pivot row is zero, and so is what the pivot gains. -/
def IsDegenerate (x : Pivot F) : Prop := x.before.bound x.row = .ok 0

/-- Row 0 does not fall, and it rises exactly when the right hand side of the pivot row
is positive. -/
structure Ascends (x : Pivot F) (level next bound : F) : Prop where
  level_eq : x.before.bound 0 = .ok level
  next_eq : x.after.bound 0 = .ok next
  bound_eq : x.before.bound x.row = .ok bound
  bound_nonneg : 0 ≤ bound
  level_le : level ≤ next
  level_lt_iff : level < next ↔ 0 < bound

/-- The same columns are basic before the first of some pivots and after the last. -/
def ComesBack (segment : List (Pivot F)) : Prop :=
  ∃ first last, segment.head? = some first ∧ segment.getLast? = some last ∧
    first.before.SameBasis last.after

/-- Pivots that follow upon one another and that are all degenerate wherever they come
back to the same basic columns, so that without degenerate ones they never do. -/
structure Progresses (loop : List (Pivot F)) : Prop where
  isChain : loop.IsChain fun x y => x.after = y.before
  isDegenerate : ∀ segment, segment <:+: loop → ComesBack segment → ∀ x ∈ segment, x.IsDegenerate
  not_comesBack : (∀ x ∈ loop, ¬x.IsDegenerate) →
    ∀ segment, segment <:+: loop → ¬ComesBack segment

/-- A pivot of a run, in a tableau with at most so many columns. -/
structure Fits (width : Nat) (x : Pivot F) : Prop where
  isMade : x.IsMade
  basicFeasible : x.before.BasicFeasible
  width_le : x.before.width ≤ width

namespace Fits

variable {width : Nat} {x : Pivot F}

theorem bound_eq_ok (h : x.Fits width) :
    x.before.bound x.row = .ok (x.before.coeff x.row x.before.boundColumn) := by
  obtain ⟨column, hprofitable, hrow, _⟩ := h.isMade
  have hshape := h.basicFeasible.toWellShaped
  have hmem := hshape.mem_constraintRows_of_leavingRow? (hshape.lt_width_of_mem hprofitable.1) hrow
  exact hshape.bound_eq_ok (Tableau.mem_constraintRows.mp hmem).2

variable [IsStrictOrderedRing F]

theorem rises (h : x.Fits width) :
    x.after.BasicFeasible ∧ x.before.Rises x.after ∧
      0 ≤ x.before.coeff x.row x.before.boundColumn ∧
      (x.before.level < x.after.level ↔ 0 < x.before.coeff x.row x.before.boundColumn) := by
  obtain ⟨column, hprofitable, hrow, hpivot⟩ := h.isMade
  exact h.basicFeasible.rises hprofitable hrow hpivot

/-- A pivot that does not raise row 0 is degenerate, and the other way round. -/
theorem isDegenerate_iff (h : x.Fits width) :
    x.IsDegenerate ↔ x.after.level ≤ x.before.level := by
  obtain ⟨_, _, hnonneg, hlt⟩ := h.rises
  rw [IsDegenerate, h.bound_eq_ok, ← not_lt, hlt, not_lt]
  constructor
  · intro hzero
    exact (Except.ok.inj hzero).le
  · intro hle
    exact congrArg Except.ok (le_antisymm hle hnonneg)

theorem exists_ascends (h : x.Fits width) : ∃ level next bound, x.Ascends level next bound := by
  obtain ⟨hafter, hrises, hnonneg, hlt⟩ := h.rises
  exact ⟨_, _, _, h.basicFeasible.bound_eq_ok h.basicFeasible.height_pos,
    hafter.bound_eq_ok hafter.height_pos, h.bound_eq_ok, hnonneg, hrises.level_le, hlt⟩

end Fits

/-! ## Pivots in a row -/

variable [IsStrictOrderedRing F] {width : Nat} {loop : List (Pivot F)}

/-- Pivots that follow upon one another do not lower row 0, and if they leave it where it
was, each of them does. -/
theorem rises_of_isChain (hfits : ∀ x ∈ loop, x.Fits width)
    (hchain : loop.IsChain fun x y => x.after = y.before) {first last : Pivot F}
    (hfirst : loop.head? = some first) (hlast : loop.getLast? = some last) :
    last.after.BasicFeasible ∧ first.before.Rises last.after ∧
      (last.after.level ≤ first.before.level → ∀ x ∈ loop, x.IsDegenerate) := by
  induction loop generalizing first with
  | nil => cases hfirst
  | cons x rest ih =>
    obtain rfl := Option.some.inj hfirst
    obtain ⟨hx, hrest⟩ := List.forall_mem_cons.mp hfits
    obtain ⟨hafter, hrises, _, _⟩ := hx.rises
    cases rest with
    | nil =>
      obtain rfl := Option.some.inj hlast
      exact ⟨hafter, hrises, fun hle => List.forall_mem_singleton.mpr (hx.isDegenerate_iff.mpr hle)⟩
    | cons y rest =>
      obtain ⟨hnext, hchain⟩ := List.isChain_cons_cons.mp hchain
      rw [List.getLast?_cons_cons] at hlast
      obtain ⟨hend, hon, hflat⟩ := ih hrest hchain rfl hlast
      rw [← hnext] at hon hflat
      refine ⟨hend, hrises.trans hon, fun hle => List.forall_mem_cons.mpr ⟨?_, hflat ?_⟩⟩
      · exact hx.isDegenerate_iff.mpr (hon.level_le.trans hle)
      · exact hle.trans hrises.level_le

/-- So pivots that come back to the same basic columns are all degenerate. -/
theorem isDegenerate_of_comesBack (hfits : ∀ x ∈ loop, x.Fits width)
    (hchain : loop.IsChain fun x y => x.after = y.before) (hback : ComesBack loop) :
    ∀ x ∈ loop, x.IsDegenerate := by
  obtain ⟨first, last, hfirst, hlast, hbasis⟩ := hback
  obtain ⟨hend, hrises, hflat⟩ := rises_of_isChain hfits hchain hfirst hlast
  have hbegin := (hfits first (List.mem_of_head? hfirst)).basicFeasible
  exact hflat (hrises.level_eq_of_sameBasis hbegin.toCanonical hend.toCanonical hbasis).le

theorem progresses_of_isChain (hfits : ∀ x ∈ loop, x.Fits width)
    (hchain : loop.IsChain fun x y => x.after = y.before) : Progresses loop := by
  have hback : ∀ segment, segment <:+: loop → ComesBack segment →
      ∀ x ∈ segment, x.IsDegenerate := by
    intro segment hsegment
    have hpart := List.IsChain.infix hchain hsegment
    exact isDegenerate_of_comesBack (fun x hx => hfits x (hsegment.subset hx)) hpart
  refine ⟨hchain, hback, fun hmoves segment hsegment hreturns => ?_⟩
  have hflat := hback segment hsegment hreturns
  obtain ⟨first, _, hfirst, _⟩ := hreturns
  have hmem := List.mem_of_head? hfirst
  exact hmoves first (hsegment.subset hmem) (hflat first hmem)

/-- Without degenerate pivots there are at most as many as sets of columns. -/
theorem length_le_of_isChain (hfits : ∀ x ∈ loop, x.Fits width)
    (hchain : loop.IsChain fun x y => x.after = y.before)
    (hmoves : ∀ x ∈ loop, ¬x.IsDegenerate) : loop.length ≤ 2 ^ (width - 2) := by
  have hbelow : (loop.map Pivot.before).IsChain Tableau.IsBelow := by
    refine (List.isChain_map _).mpr (hchain.imp_of_mem_imp fun x y hx hy hnext => ?_)
    obtain ⟨_, hrises, _, _⟩ := (hfits x hx).rises
    have hlt := not_le.mp ((hfits x hx).isDegenerate_iff.not.mp (hmoves x hx))
    rw [hnext] at hrises hlt
    exact ⟨hrises, (hfits x hx).basicFeasible, (hfits y hy).basicFeasible, hlt⟩
  rw [← List.length_map (f := Pivot.before)]
  refine Tableau.length_le_of_isChain hbelow fun t ht => ?_
  obtain ⟨x, hx, rfl⟩ := List.mem_map.mp ht
  exact ⟨(hfits x hx).basicFeasible.toCanonical, (hfits x hx).width_le⟩

end Pivot

/-! ## Runs -/

variable [IsStrictOrderedRing F]

/-- A step of a run adds no column. -/
theorem Tableau.BasicFeasible.width_le_of_advances {t u : Tableau F} (h : t.BasicFeasible)
    (hstep : t.Advances u) : u.width ≤ t.width := by
  cases hstep with
  | exchange hcolumn hrow hpivot =>
    exact (h.rises hcolumn hrow hpivot).2.1.sameFrame.width_eq.le
  | leave hphase _ _ _ hreduce =>
    rw [(h.isReduction_of_reduce_eq hphase hreduce).width_eq]
    exact (List.length_filter_le _ _).trans List.length_range.le
  | begin _ => exact le_refl _

/-- The pivots that a run tells of are those of feasible bases, within the columns of the
initial tableau. -/
theorem fits_of_leads {p : Problem F} {journal : List (Event F)} {initial final : Tableau F}
    (hinitial : Tableau.initial p.standardize 0 = .ok initial)
    (hleads : Leads journal initial final) (hrecounts : Recounts journal final) :
    ∀ x ∈ pivots journal, x.Fits p.standardize.layout.width := by
  obtain ⟨hzero, hisInitial⟩ := Tableau.isInitial_of_initial_eq hinitial
  have hbegins := Tableau.BasicFeasible.ofIsInitial hisInitial hzero
    Problem.bound_nonneg_of_mem_standardize
  have hall := hleads.forall_visited
    (motive := fun t => t.BasicFeasible ∧ t.width ≤ p.standardize.layout.width)
    ⟨hbegins, hisInitial.width_eq.le⟩
    fun _ _ hstep ht => ⟨ht.1.advances hstep, (ht.1.width_le_of_advances hstep).trans ht.2⟩
  intro x hx
  obtain ⟨hmade, hbefore⟩ := hrecounts.made x hx
  obtain ⟨hbasic, hwidth⟩ := hall _ hbefore
  exact ⟨hmade, hbasic, hwidth⟩

namespace Solver

variable {s : Solver F} {p : Problem F}

/-- Row 0 ascends in the loop of each phase.  The journal of a run tells of all pivots,
and those of a phase follow upon one another.  Each was made by the rules; it does not
lower row 0, and raises it exactly when the right hand side of its row is positive.
Pivots of a phase that come back to the same basic columns are all degenerate.  So a
loop without degenerate pivots meets no basis twice; and it is not ended by the limit,
if this leaves enough iterations for it besides those of the other phase.  A run without
degenerate pivots has a limit that it does not reach. -/
theorem ascends_of_optimize (htolerance : s.settings.tolerance = 0) (hwell : p.WellFormed) :
    ∃ report s', s.optimize p = .ok (report, s') ∧
      (pivots report.journal).length = exchanges report.journal ∧
      (∀ x ∈ pivots report.journal, x.IsMade ∧ ∃ level next bound, x.Ascends level next bound) ∧
      (∀ phase, Pivot.Progresses (pivotsIn phase report.journal) ∧
        ∀ other ≠ phase, (∀ x ∈ pivotsIn phase report.journal, ¬x.IsDegenerate) →
          (pivotsIn other report.journal).length + 2 ^ p.standardize.layout.width ≤
            s.settings.maxIterations →
          ∀ count, report.result ≠ .error (.iterationLimitExceeded count)) ∧
      ((∀ x ∈ pivots report.journal, ¬x.IsDegenerate) →
        2 ^ p.standardize.layout.width ≤ s.settings.maxIterations →
        ∀ count, report.result ≠ .error (.iterationLimitExceeded count)) := by
  obtain ⟨report, hanswer, hsolving⟩ := s.optimize_spec p
  obtain ⟨final, hfinal⟩ := hsolving.exists_tableau
    (Problem.defects_eq_nil_iff.mpr ⟨htolerance.ge, hwell⟩) Tableau.isFinite_eq_true
  obtain ⟨initial, hinitial, hleads⟩ := hsolving.leads hfinal
  have hrecounts := hsolving.recounts hfinal
  rw [htolerance] at hinitial
  have hfits := fits_of_leads hinitial hleads hrecounts
  have hin : ∀ phase, ∀ x ∈ pivotsIn phase report.journal, x ∈ pivots report.journal :=
    fun _ _ hx => (List.mem_filter.mp hx).1
  have hlength : ∀ phase, (∀ x ∈ pivotsIn phase report.journal, ¬x.IsDegenerate) →
      (pivotsIn phase report.journal).length ≤ 2 ^ (p.standardize.layout.width - 2) :=
    fun phase => Pivot.length_le_of_isChain (fun x hx => hfits x (hin phase x hx))
      (hrecounts.isChain phase)
  have hpower : 4 * 2 ^ (p.standardize.layout.width - 2) = 2 ^ p.standardize.layout.width := by
    rw [show 4 = 2 ^ 2 from rfl, ← pow_add,
      Nat.add_sub_cancel' p.standardize.layout.two_le_width]
  have hpositive := Nat.two_pow_pos (p.standardize.layout.width - 2)
  refine ⟨report, _, hanswer, hrecounts.length_eq,
    fun x hx => ⟨(hfits x hx).isMade, (hfits x hx).exists_ascends⟩, fun phase => ⟨?_, ?_⟩, ?_⟩
  · exact Pivot.progresses_of_isChain (fun x hx => hfits x (hin phase x hx))
      (hrecounts.isChain phase)
  · intro other hother hmoves hlarge count hresult
    have hcount := hsolving.length_pivots_eq hrecounts hresult
    have hshort := hlength phase hmoves
    rw [← length_pivotsIn_add hother] at hcount
    omega
  · intro hmoves hlarge count hresult
    have hcount := hsolving.length_pivots_eq hrecounts hresult
    have hfirst := hlength .feasibility fun x hx => hmoves x (hin _ x hx)
    have hsecond := hlength .optimality fun x hx => hmoves x (hin _ x hx)
    have hphases : Phase.optimality ≠ .feasibility := nofun
    rw [← length_pivotsIn_add hphases] at hcount
    omega

theorem ascends_mixedProblem :
    ∃ report s', (create ⟨0, 10⟩ .steepest).optimize mixedProblem = .ok (report, s') ∧
      (pivots report.journal).length = 3 ∧
      ∀ x ∈ pivots report.journal, ∃ level next bound, x.Ascends level next bound := by
  have hcount : (((create ⟨0, 10⟩ .steepest).optimize mixedProblem).toOption.map fun answer =>
      (pivots answer.1.journal).length) = some 3 := by
    decide +kernel
  obtain ⟨⟨report, s'⟩, hanswer, hlength⟩ := Option.map_eq_some_iff.mp hcount
  have hanswer := Fault.eq_ok_of_toOption_eq_some hanswer
  obtain ⟨other, _, hother, _, hascends, _⟩ :=
    ascends_of_optimize (s := create ⟨0, 10⟩ .steepest) (p := mixedProblem) rfl
      ⟨by decide, by decide⟩
  obtain rfl : report = other := congrArg Prod.fst (Except.ok.inj (hanswer.symm.trans hother))
  exact ⟨report, s', hanswer, hlength, fun x hx => (hascends x hx).2⟩

end Solver

end PrimalSimplex
