/-
  `Proofs.Tableau.Assembly`: filling the matrix of an initial tableau.

  The rows of an initial tableau are given by the coefficients of labels.  By hand
  they are filled number by number: every group of columns has a start, and from
  there on numbers go into a matrix of zeros, and the row of each constraint with an
  artificial variable is taken off the auxiliary objective as soon as it is there.
  Below, the filling never leaves the matrix and never takes a row off itself, and it
  gives the rows of the initial tableau, whatever the arithmetic.
-/
import Mathlib.Logic.Function.Basic
import PrimalSimplex.Proofs.Column.Layout
import PrimalSimplex.Proofs.Matrix.RowOperations
import PrimalSimplex.Proofs.Tableau.Initial

set_option autoImplicit false

namespace PrimalSimplex

open Column (Kind Label Layout)
open PlacedConstraint (express)

variable {F : Type} [Scalar F]

/-! ## Filling -/

/-- Puts numbers beside each other into a row, from a column on. -/
def Matrix.setFrom (i : Nat) : Nat → List F → Matrix F → Except Fault (Matrix F)
  | _, [], m => .ok m
  | j, x :: rest, m => m.set i j x >>= setFrom i (j + 1) rest

namespace Problem

/-- Puts a number into a column of a group. -/
def put (p : Problem F) (i : Nat) (group : Kind) (k : Nat) (x : F) (m : Matrix F) :
    Except Fault (Matrix F) :=
  m.set i (p.layout.start group + k) x

/-- Puts the coefficient of the offset into a row, if there is an offset. -/
def fillOffset (p : Problem F) (i : Nat) (x : F) (m : Matrix F) : Except Fault (Matrix F) :=
  if p.nonNegative then .ok m else p.put i .offset 0 x m

/-- Puts the coefficients of a form and a right hand side into a row. -/
def fillForm (p : Problem F) (i : Nat) (coefficients : List F) (bound : F) (m : Matrix F) :
    Except Fault (Matrix F) := do
  let filled ← m.setFrom i (p.layout.start .decision) coefficients
  let shifted ← p.fillOffset i (LinearForm.negatedSum coefficients) filled
  p.put i .bound 0 bound shifted

/-- Fills the row of the objective. -/
def fillObjective (p : Problem F) (m : Matrix F) : Except Fault (Matrix F) := do
  let row := p.layout.size .objective - 1
  let marked ← p.put row .objective row (p.objectiveCoefficient .objective) m
  p.fillForm row p.costs (p.objectiveCoefficient .bound) marked

/-- Puts the coefficient of a slack variable into a row, if the constraint has one. -/
def fillSlack (p : Problem F) (row : Nat) (c : PlacedConstraint F) (m : Matrix F) :
    Except Fault (Matrix F) :=
  match (c.constraint.relation.slackCoefficient? : Option F) with
  | some x => p.put row .slack c.slack x m
  | none => .ok m

/-- Puts the artificial variable of a constraint, if it needs one, into its row and the
auxiliary objective, and takes the row off that. -/
def fillArtificial (p : Problem F) (row : Nat) (c : PlacedConstraint F) (m : Matrix F) :
    Except Fault (Matrix F) :=
  if c.constraint.relation.needsArtificial then do
    let counted ← p.put 0 .artificial c.artificial 1 m
    let placed ← p.put row .artificial c.artificial 1 counted
    placed.subtractRow 0 row 1
  else .ok m

/-- Fills the row of a constraint. -/
def fillConstraint (p : Problem F) (m : Matrix F) (placed : PlacedConstraint F × Nat) :
    Except Fault (Matrix F) := do
  let row := p.layout.size .objective + placed.2
  let filled ← p.fillForm row placed.1.constraint.coefficients placed.1.constraint.bound m
  let slackened ← p.fillSlack row placed.1 filled
  p.fillArtificial row placed.1 slackened

/-- The number of rows of the initial tableau. -/
def initialHeight (p : Problem F) : Nat :=
  p.layout.size .objective + p.constraints.length

/-- Fills a matrix of zeros, number by number. -/
def assemble (p : Problem F) : Except Fault (Matrix F) := do
  let zeros := Matrix.zeros p.initialHeight p.layout.width
  let marked ← (if 0 < p.layout.artificials then p.put 0 .objective 0 (-1) zeros else .ok zeros)
  let filled ← p.fillObjective marked
  p.placedConstraints.zipIdx.foldlM p.fillConstraint filled

/-! ## Filled matrices -/

/-- The matrix is as large as that of the initial tableau, and each row is given by
coefficients. -/
structure Filled (p : Problem F) (f : Nat → Label → F) (m : Matrix F) : Prop where
  width_eq : m.width = p.layout.width
  rows_eq : m.rows = (List.range p.initialHeight).map fun i => p.row (f i)

variable {p : Problem F} {f : Nat → Label → F} {m : Matrix F} {i : Nat}

omit [Scalar F] in
theorem length_placedConstraints (p : Problem F) :
    p.placedConstraints.length = p.constraints.length := by
  rw [← PlacedConstraint.map_constraint_place 0 0 p.constraints, List.length_map]
  rfl

omit [Scalar F] in
theorem row_congr {f g : Label → F} (h : ∀ label ∈ p.layout.labels, f label = g label) :
    p.row f = p.row g :=
  List.map_congr_left h

omit [Scalar F] in
/-- To put a number into a row is to change the coefficient of one label. -/
theorem row_set {f : Label → F} {j : Nat} {label : Label}
    (hlabel : p.layout.labels[j]? = some label) (x : F) :
    (p.row f).set j x = p.row (Function.update f label x) := by
  obtain ⟨hj, hat⟩ := List.getElem?_eq_some_iff.mp hlabel
  refine List.ext_getElem? fun k => ?_
  unfold row
  rw [List.getElem?_set, List.getElem?_map, List.getElem?_map, List.length_map]
  by_cases hk : j = k
  · rw [if_pos hk, if_pos hj, ← hk, hlabel, Option.map_some, Function.update_self]
  · rw [if_neg hk]
    cases hother : p.layout.labels[k]? with
    | none => rfl
    | some other =>
      have hne : other ≠ label := by
        rintro rfl
        exact hk ((List.getElem?_inj hj p.layout.nodup_labels).mp (hlabel.trans hother.symm))
      rw [Option.map_some, Option.map_some, Function.update_of_ne hne]

theorem row_subtract (multiple : F) (f g : Label → F) :
    Row.subtract multiple (p.row f) (p.row g) = p.row fun label => f label - multiple * g label :=
  Row.subtract_map multiple p.layout.labels f g

/-! ## Coefficients -/

/-- Coefficients after those of some decision variables have been put in. -/
def withDecisions (f : Label → F) : Nat → List F → Label → F
  | _, [] => f
  | k, x :: rest => withDecisions (Function.update f (.decision k) x) (k + 1) rest

omit [Scalar F] in
theorem withDecisions_of_ne (f : Label → F) (k : Nat) (values : List F) {label : Label}
    (h : ∀ d, label ≠ .decision d) : withDecisions f k values label = f label := by
  induction values generalizing f k with
  | nil => rfl
  | cons x rest ih => rw [withDecisions, ih, Function.update_of_ne (h k)]

omit [Scalar F] in
theorem withDecisions_decision (f : Label → F) (k : Nat) (values : List F) (d : Nat) :
    withDecisions f k values (.decision d) =
      if k ≤ d then values.getD (d - k) (f (.decision d)) else f (.decision d) := by
  induction values generalizing f k with
  | nil => exact (ite_self _).symm
  | cons x rest ih =>
    rw [withDecisions, ih]
    rcases Nat.lt_trichotomy d k with hlt | rfl | hgt
    · have hne : Label.decision d ≠ .decision k := fun h => Nat.ne_of_lt hlt (Label.decision.inj h)
      rw [if_neg (by omega), if_neg (by omega), Function.update_of_ne hne]
    · rw [if_neg (by omega), if_pos (Nat.le_refl _), Function.update_self, Nat.sub_self]
      rfl
    · have hne : Label.decision d ≠ .decision k := fun h => Nat.ne_of_gt hgt (Label.decision.inj h)
      have hplace : d - k = d - (k + 1) + 1 := by omega
      rw [if_pos (by omega), if_pos (by omega), Function.update_of_ne hne, hplace,
        List.getD_cons_succ]

/-- Coefficients after those of a form have been put in. -/
def withForm (f : Label → F) (coefficients : List F) (bound : F) : Label → F
  | .decision d => coefficients.getD d (f (.decision d))
  | .offset => LinearForm.negatedSum coefficients
  | .bound => bound
  | label => f label

/-! ## Single numbers -/

namespace Filled

omit [Scalar F] in
theorem height_eq (h : p.Filled f m) : m.height = p.initialHeight := by
  show m.rows.length = _
  rw [h.rows_eq, List.length_map, List.length_range]

omit [Scalar F] in
theorem getElem?_rows (h : p.Filled f m) (hi : i < p.initialHeight) :
    m.rows[i]? = some (p.row (f i)) := by
  rw [h.rows_eq, List.getElem?_map, List.getElem?_range hi, Option.map_some]

omit [Scalar F] in
/-- A row may be replaced by one that is given by coefficients. -/
theorem of_getElem? {g : Label → F} {n : Matrix F} (h : p.Filled f m)
    (hheight : n.height = m.height) (hwidth : n.width = m.width)
    (hrows : ∀ k row, m.rows[k]? = some row → n.rows[k]? = some (if k = i then p.row g else row)) :
    p.Filled (Function.update f i g) n where
  width_eq := hwidth.trans h.width_eq
  rows_eq := by
    refine List.ext_getElem? fun k => ?_
    rcases Nat.lt_or_ge k p.initialHeight with hk | hk
    · rw [hrows k _ (h.getElem?_rows hk), List.getElem?_map, List.getElem?_range hk,
        Option.map_some]
      by_cases hki : k = i
      · rw [if_pos hki, hki, Function.update_self]
      · rw [if_neg hki, Function.update_of_ne hki]
    · have hlength : n.rows.length = p.initialHeight := hheight.trans h.height_eq
      rw [List.getElem?_eq_none (hlength.le.trans hk), List.getElem?_eq_none]
      rwa [List.length_map, List.length_range]

omit [Scalar F] in
theorem exists_put (h : p.Filled f m) (hi : i < p.initialHeight) {group : Kind} {k : Nat}
    {label : Label} (hlabel : (p.layout.groupLabels group)[k]? = some label) (x : F) :
    ∃ n, p.put i group k x m = .ok n ∧
      p.Filled (Function.update f i (Function.update (f i) label x)) n := by
  have hk : k < p.layout.size group := by
    rw [← Layout.length_groupLabels]
    exact (List.getElem?_eq_some_iff.mp hlabel).1
  have hat := (p.layout.getElem?_labels hk).trans hlabel
  have hwidth : p.layout.start group + k < m.width := by
    rw [h.width_eq, ← Layout.length_labels]
    exact (List.getElem?_eq_some_iff.mp hat).1
  obtain ⟨n, hn, hheight, hnWidth, hrows⟩ := Matrix.modifyRow_spec (h.height_eq.symm ▸ hi)
    (·.set (p.layout.start group + k) x) fun _ => List.length_set ..
  refine ⟨n, (if_pos hwidth).trans hn, h.of_getElem? hheight hnWidth fun l row hrow => ?_⟩
  rw [hrows l row hrow]
  split
  · rename_i hl
    subst hl
    obtain rfl := Option.some.inj (hrow.symm.trans (h.getElem?_rows hi))
    rw [row_set hat]
  · rfl

omit [Scalar F] in
/-- What labels without a column have as coefficients does not matter. -/
theorem congr {g : Nat → Label → F} (h : p.Filled f m)
    (hsame : ∀ i, ∀ label ∈ p.layout.labels, f i label = g i label) : p.Filled g m where
  width_eq := h.width_eq
  rows_eq := h.rows_eq.trans (List.map_congr_left fun i _ => row_congr (hsame i))

theorem exists_subtract (h : p.Filled f m) (hi : i < p.initialHeight) (hne : 0 ≠ i) :
    ∃ n, m.subtractRow 0 i 1 = .ok n ∧
      p.Filled (Function.update f 0 fun label => f 0 label - 1 * f i label) n := by
  have hpos : 0 < p.initialHeight := Nat.lt_of_le_of_lt (Nat.zero_le _) hi
  have hrow : m.row i = .ok (p.row (f i)) := Fault.fetch_eq_ok_iff.mpr (h.getElem?_rows hi)
  obtain ⟨n, hn, hheight, hwidth, hrows⟩ := Matrix.modifyRow_spec (h.height_eq.symm ▸ hpos)
    (Row.subtract 1 · (p.row (f i))) fun _ => Row.length_subtract ..
  refine ⟨n, ?_, h.of_getElem? hheight hwidth fun k row hk => ?_⟩
  · unfold Matrix.subtractRow
    rw [if_neg hne, hrow]
    exact hn
  · rw [hrows k row hk]
    split
    · rename_i hzero
      subst hzero
      obtain rfl := Option.some.inj (hk.symm.trans (h.getElem?_rows hpos))
      rw [row_subtract]
    · rfl

/-! ## Rows -/

omit [Scalar F] in
theorem exists_setFrom {k : Nat} (h : p.Filled f m) (hi : i < p.initialHeight) (values : List F)
    (hvalues : k + values.length ≤ p.layout.decisions) :
    ∃ n, m.setFrom i (p.layout.start .decision + k) values = .ok n ∧
      p.Filled (Function.update f i (withDecisions (f i) k values)) n := by
  induction values generalizing f m k with
  | nil =>
    refine ⟨m, rfl, ?_⟩
    rwa [withDecisions, Function.update_eq_self]
  | cons x rest ih =>
    rw [List.length_cons] at hvalues
    have hlabel : (p.layout.groupLabels .decision)[k]? = some (.decision k) :=
      Layout.getElem?_map_range (by omega)
    obtain ⟨next, hnext, hfilled⟩ := h.exists_put hi hlabel x
    obtain ⟨n, hn, hrest⟩ := ih (k := k + 1) hfilled (by omega)
    refine ⟨n, Fault.bind_eq_ok_iff.mpr ⟨next, hnext, hn⟩, ?_⟩
    rwa [Function.update_self, Function.update_idem] at hrest

omit [Scalar F] in
theorem exists_fillOffset (h : p.Filled f m) (hi : i < p.initialHeight) (x : F) :
    ∃ n, p.fillOffset i x m = .ok n ∧
      p.Filled (Function.update f i (Function.update (f i) .offset x)) n := by
  unfold fillOffset
  split
  · rename_i hsign
    refine ⟨m, rfl, h.congr fun k label hlabel => ?_⟩
    have hoffset : label ≠ .offset := by
      rintro rfl
      have hmem := Layout.mem_groupLabels_of_mem_labels hlabel
      change Label.offset ∈ if !p.nonNegative then [Label.offset] else [] at hmem
      rw [hsign] at hmem
      cases hmem
    by_cases hk : k = i
    · rw [hk, Function.update_self, Function.update_of_ne hoffset]
    · rw [Function.update_of_ne hk]
  · rename_i hsign
    refine h.exists_put hi ?_ x
    show (if !p.nonNegative then [Label.offset] else [])[0]? = some .offset
    rw [Bool.eq_false_iff.mpr hsign]
    rfl

theorem exists_fillForm {coefficients : List F} (h : p.Filled f m) (hi : i < p.initialHeight)
    (hlength : coefficients.length = p.layout.decisions) (bound : F) :
    ∃ n, p.fillForm i coefficients bound m = .ok n ∧
      p.Filled (Function.update f i (withForm (f i) coefficients bound)) n := by
  obtain ⟨filled, hset, hfilled⟩ :=
    h.exists_setFrom (k := 0) hi coefficients (by omega)
  obtain ⟨shifted, hshift, hshifted⟩ :=
    hfilled.exists_fillOffset hi (LinearForm.negatedSum coefficients)
  have hlabel : (p.layout.groupLabels .bound)[0]? = some .bound := rfl
  obtain ⟨n, hn, hdone⟩ := hshifted.exists_put hi hlabel bound
  refine ⟨n, Fault.bind_eq_ok_iff.mpr
    ⟨filled, hset, Fault.bind_eq_ok_iff.mpr ⟨shifted, hshift, hn⟩⟩, ?_⟩
  rw [Function.update_idem, Function.update_idem, Function.update_self,
    Function.update_self] at hdone
  have hother : ∀ label, (∀ d, label ≠ .decision d) →
      withDecisions (f i) 0 coefficients label = f i label :=
    fun _ h => withDecisions_of_ne (f i) 0 coefficients h
  have hsame : Function.update (Function.update (withDecisions (f i) 0 coefficients) .offset
      (LinearForm.negatedSum coefficients)) .bound bound = withForm (f i) coefficients bound := by
    funext label
    cases label with
    | decision d => exact withDecisions_decision (f i) 0 coefficients d
    | offset => rfl
    | bound => rfl
    | auxiliary => exact hother .auxiliary fun _ => nofun
    | objective => exact hother .objective fun _ => nofun
    | slack k => exact hother (.slack k) fun _ => nofun
    | artificial k => exact hother (.artificial k) fun _ => nofun
  rwa [hsame] at hdone

/-- The row of the objective, where it was zero. -/
theorem exists_fillObjective (h : p.Filled f m)
    (hzero : f (p.layout.size .objective - 1) = fun _ => 0) :
    ∃ n, p.fillObjective m = .ok n ∧
      p.Filled (Function.update f (p.layout.size .objective - 1) p.objectiveCoefficient) n := by
  have hpos := p.layout.size_objective_pos
  have hi : p.layout.size .objective - 1 < p.initialHeight := by
    unfold initialHeight
    omega
  have hlabel : (p.layout.groupLabels .objective)[p.layout.size .objective - 1]? =
      some .objective := by
    show (if 0 < p.layout.artificials then [Label.auxiliary, Label.objective]
      else [Label.objective])[(if 0 < p.layout.artificials then 2 else 1) - 1]? = _
    split
    · rfl
    · rfl
  obtain ⟨marked, hmark, hmarked⟩ :=
    h.exists_put hi hlabel (p.objectiveCoefficient .objective)
  obtain ⟨n, hn, hfilled⟩ := hmarked.exists_fillForm hi p.length_costs
    (p.objectiveCoefficient .bound)
  refine ⟨n, Fault.bind_eq_ok_iff.mpr ⟨marked, hmark, hn⟩, ?_⟩
  rw [Function.update_idem, Function.update_self, hzero] at hfilled
  have hsame : withForm
      (Function.update (fun _ => 0) .objective (p.objectiveCoefficient .objective)) p.costs
      (p.objectiveCoefficient .bound) = p.objectiveCoefficient := by
    funext label
    cases label with
    | _ => rfl
  rwa [hsame] at hfilled

/-! ## Constraints -/

variable {c : PlacedConstraint F} {row : Nat}

theorem exists_fillSlack (h : p.Filled f m) (hrow : row < p.initialHeight)
    (hc : c ∈ p.placedConstraints) (hzero : f row (.slack c.slack) = 0) :
    ∃ n, p.fillSlack row c m = .ok n ∧ p.Filled (Function.update f row
      (Function.update (f row) (.slack c.slack)
        (c.constraint.relation.slackCoefficient?.getD 0))) n := by
  unfold fillSlack
  cases hslack : (c.constraint.relation.slackCoefficient? : Option F) with
  | none =>
    refine ⟨m, rfl, ?_⟩
    rw [Option.getD_none, ← hzero, Function.update_eq_self, Function.update_eq_self]
    exact h
  | some x =>
    have hhas : c.constraint.relation.hasSlack = true := by
      rw [← Relation.isSome_slackCoefficient? (F := F), hslack]
      rfl
    have hlabel : (p.layout.groupLabels .slack)[c.slack]? = some (.slack c.slack) :=
      Layout.getElem?_map_range (slack_lt hc hhas)
    exact h.exists_put hrow hlabel x

/-- A row that holds all but the artificial variable of a constraint is completed, and
taken off the auxiliary objective. -/
theorem exists_fillArtificial (h : p.Filled f m) (hrow : row < p.initialHeight) (hpos : 0 ≠ row)
    (hc : c ∈ p.placedConstraints) (hother : ∀ label,
      (c.constraint.relation.needsArtificial = true → label ≠ .artificial c.artificial) →
      f row label = c.coefficient label) :
    ∃ n, p.fillArtificial row c m = .ok n ∧ p.Filled (Function.update
      (Function.update f row c.coefficient) 0 fun label => express label (f 0 label) c) n := by
  unfold fillArtificial
  split
  · rename_i hneeds
    have hlabel : (p.layout.groupLabels .artificial)[c.artificial]? =
        some (.artificial c.artificial) := Layout.getElem?_map_range (artificial_lt hc hneeds)
    obtain ⟨counted, hcount, hcounted⟩ :=
      h.exists_put (Nat.lt_of_le_of_lt (Nat.zero_le _) hrow) hlabel 1
    obtain ⟨placed, hplace, hplaced⟩ := hcounted.exists_put hrow hlabel 1
    obtain ⟨n, hn, hfilled⟩ := hplaced.exists_subtract hrow hpos
    refine ⟨n, Fault.bind_eq_ok_iff.mpr ⟨counted, hcount, Fault.bind_eq_ok_iff.mpr
      ⟨placed, hplace, hn⟩⟩, ?_⟩
    have hcoefficient : Function.update (f row) (.artificial c.artificial) 1 = c.coefficient := by
      funext label
      by_cases hlabel : label = .artificial c.artificial
      · rw [hlabel, Function.update_self]
        exact (if_pos ⟨rfl, hneeds⟩).symm
      · rw [Function.update_of_ne hlabel, hother label fun _ => hlabel]
    rw [Function.update_of_ne hpos.symm, hcoefficient, Function.update_self,
      Function.update_of_ne hpos, Function.update_self, Function.update_comm hpos,
      Function.update_idem] at hfilled
    have hexpress : (fun label => Function.update (f 0) (.artificial c.artificial) 1 label -
        1 * c.coefficient label) = fun label => express label (f 0 label) c := by
      funext label
      rw [express, if_pos hneeds, Function.update_apply]
    rwa [hexpress] at hfilled
  · rename_i hneeds
    refine ⟨m, rfl, ?_⟩
    have hcoefficient : f row = c.coefficient :=
      funext fun label => hother label fun h => absurd h hneeds
    have hexpress : (fun label => express label (f 0 label) c) = f 0 := by
      funext label
      exact if_neg hneeds
    rw [hexpress, ← hcoefficient, Function.update_eq_self, Function.update_eq_self]
    exact h

/-- The row of a constraint, where it was zero. -/
theorem exists_fillConstraint (h : p.Filled f m) {k : Nat} (hc : p.placedConstraints[k]? = some c)
    (hlength : c.constraint.coefficients.length = p.layout.decisions)
    (hzero : f (p.layout.size .objective + k) = fun _ => 0) :
    ∃ n, p.fillConstraint m (c, k) = .ok n ∧ p.Filled (Function.update
      (Function.update f (p.layout.size .objective + k) c.coefficient) 0
      fun label => express label (f 0 label) c) n := by
  have hmem := List.mem_of_getElem? hc
  have hpos : 0 ≠ p.layout.size .objective + k := by
    have := p.layout.size_objective_pos
    omega
  have hrow : p.layout.size .objective + k < p.initialHeight := by
    have hlt := (List.getElem?_eq_some_iff.mp hc).1
    have hcount := p.length_placedConstraints
    unfold initialHeight
    omega
  obtain ⟨formed, hform, hformed⟩ := h.exists_fillForm hrow hlength c.constraint.bound
  obtain ⟨slackened, hslack, hslackened⟩ := hformed.exists_fillSlack hrow hmem (by
    rw [Function.update_self, hzero]
    rfl)
  obtain ⟨n, hn, hfilled⟩ := hslackened.exists_fillArtificial hrow hpos hmem fun label hother => by
    rw [Function.update_self, Function.update_self, hzero]
    cases label with
    | slack i =>
      rw [Function.update_apply]
      exact if_congr ⟨Label.slack.inj, congrArg Label.slack⟩ rfl rfl
    | artificial i =>
      refine (PlacedConstraint.coefficient_artificial_eq_zero fun hneeds heq => ?_).symm
      exact hother hneeds (congrArg Label.artificial heq)
    | _ => rfl
  refine ⟨n, Fault.bind_eq_ok_iff.mpr ⟨formed, hform, Fault.bind_eq_ok_iff.mpr
    ⟨slackened, hslack, hn⟩⟩, ?_⟩
  rwa [Function.update_idem, Function.update_idem, Function.update_of_ne hpos,
    Function.update_of_ne hpos] at hfilled

/-- The rows of constraints one after another, where they were zero.  Above them, only
the auxiliary objective changes. -/
theorem exists_fillConstraints {placed : List (PlacedConstraint F)} {k : Nat} (h : p.Filled f m)
    (hplaced : ∀ l c, placed[l]? = some c → p.placedConstraints[k + l]? = some c)
    (hlength : ∀ c ∈ placed, c.constraint.coefficients.length = p.layout.decisions)
    (hzero : ∀ l, f (p.layout.size .objective + k + l) = fun _ => 0) :
    ∃ n g, (placed.zipIdx k).foldlM p.fillConstraint m = .ok n ∧ p.Filled g n ∧
      (g 0 = fun label => placed.foldl (express label) (f 0 label)) ∧
      (∀ i, 0 < i → i < p.layout.size .objective + k → g i = f i) ∧
      ∀ l c, placed[l]? = some c → g (p.layout.size .objective + k + l) = c.coefficient := by
  induction placed generalizing f m k with
  | nil => exact ⟨m, f, rfl, h, rfl, fun _ _ _ => rfl, nofun⟩
  | cons c rest ih =>
    have hpos := p.layout.size_objective_pos
    obtain ⟨next, hnext, hfilled⟩ := h.exists_fillConstraint (k := k) (hplaced 0 c rfl)
      (hlength c (List.mem_cons_self ..)) (hzero 0)
    obtain ⟨n, g, hn, hg, hauxiliary, habove, hrows⟩ := ih hfilled (k := k + 1)
      (fun l d hd => by
        rw [Nat.add_assoc, Nat.add_comm 1 l]
        exact hplaced (l + 1) d hd)
      (fun d hd => hlength d (List.mem_cons_of_mem _ hd))
      (fun l => by
        rw [Function.update_of_ne (by omega), Function.update_of_ne (by omega)]
        have hposition : p.layout.size .objective + (k + 1) + l =
            p.layout.size .objective + k + (l + 1) := by omega
        rw [hposition]
        exact hzero (l + 1))
    refine ⟨n, g, ?_, hg, ?_, fun i hi hlt => ?_, fun l d hd => ?_⟩
    · rw [List.zipIdx_cons, List.foldlM_cons]
      exact Fault.bind_eq_ok_iff.mpr ⟨next, hnext, hn⟩
    · rw [hauxiliary, Function.update_self]
      rfl
    · rw [habove i hi (by omega), Function.update_of_ne (by omega),
        Function.update_of_ne (by omega)]
    · cases l with
      | zero =>
        obtain rfl := Option.some.inj hd
        rw [Nat.add_zero, habove _ (by omega) (by omega), Function.update_of_ne (by omega),
          Function.update_self]
      | succ l =>
        have hposition : p.layout.size .objective + k + (l + 1) =
            p.layout.size .objective + (k + 1) + l := by omega
        rw [hposition]
        exact hrows l d hd

end Filled

/-! ## The matrix -/

/-- A matrix of zeros is filled with zeros. -/
theorem filled_zeros (p : Problem F) :
    p.Filled (fun _ _ => 0) (Matrix.zeros p.initialHeight p.layout.width) where
  width_eq := rfl
  rows_eq := by
    have hrow : p.row (fun _ => (0 : F)) = List.replicate p.layout.width 0 := by
      rw [row, List.map_const', Layout.length_labels]
    show List.replicate p.initialHeight (List.replicate p.layout.width 0) = _
    rw [hrow, List.map_const', List.length_range]

/-- The one of the auxiliary objective, where there is such an objective. -/
theorem exists_marked (p : Problem F) : ∃ m f,
    (if 0 < p.layout.artificials then
      p.put 0 .objective 0 (-1) (Matrix.zeros p.initialHeight p.layout.width)
    else .ok (Matrix.zeros p.initialHeight p.layout.width)) = .ok m ∧ p.Filled f m ∧
      (0 < p.layout.artificials → f 0 = Function.update (fun _ => 0) .auxiliary (-1)) ∧
      ∀ i, p.layout.size .objective - 1 ≤ i → f i = fun _ => 0 := by
  have hpos : 0 < p.initialHeight :=
    Nat.lt_of_lt_of_le p.layout.size_objective_pos (Nat.le_add_right _ _)
  split
  · rename_i hsome
    have hlabel : (p.layout.groupLabels .objective)[0]? = some .auxiliary := by
      show (if 0 < p.layout.artificials then [Label.auxiliary, .objective]
        else [.objective])[0]? = _
      rw [if_pos hsome]
      rfl
    have htwo : p.layout.size .objective = 2 := if_pos hsome
    obtain ⟨m, hm, hfilled⟩ := p.filled_zeros.exists_put hpos hlabel (-1)
    refine ⟨m, _, hm, hfilled, fun _ => Function.update_self .., fun i hi => ?_⟩
    rw [Function.update_of_ne (by omega)]
  · rename_i hnone
    exact ⟨_, _, rfl, p.filled_zeros, fun h => absurd h hnone, fun _ _ => rfl⟩

/-- Without artificial variables, nothing is taken off. -/
theorem foldl_express_of_none {p : Problem F} (hnone : ¬0 < p.layout.artificials) (label : Label)
    (x : F) : p.placedConstraints.foldl (express label) x = x := by
  refine List.foldlRecOn p.placedConstraints _ (motive := (· = x)) rfl fun y hy c hc => ?_
  refine (if_neg fun hneeds => ?_).trans hy
  exact hnone (Nat.lt_of_le_of_lt (Nat.zero_le _) (artificial_lt hc hneeds))

/-- The rows of the initial tableau, given by coefficients. -/
theorem map_row_eq_initialRows {g : Nat → Label → F}
    (hsome : 0 < p.layout.artificials → g 0 = p.auxiliaryCost ∧ g 1 = p.objectiveCoefficient)
    (hnone : ¬0 < p.layout.artificials → g 0 = p.objectiveCoefficient)
    (hconstraints : ∀ l c, p.placedConstraints[l]? = some c →
      g (p.layout.size .objective + l) = c.coefficient) :
    ((List.range p.initialHeight).map fun i => p.row (g i)) = p.initialRows := by
  have hobjectives : ((List.range (p.layout.size .objective)).map fun i => p.row (g i)) =
      p.objectiveRows := by
    unfold objectiveRows
    split
    · rename_i h
      obtain ⟨hauxiliary, hobjective⟩ := hsome h
      have htwo : p.layout.size .objective = 2 := if_pos h
      rw [htwo, ← hauxiliary, ← hobjective]
      rfl
    · rename_i h
      have hone : p.layout.size .objective = 1 := if_neg h
      rw [hone, ← hnone h]
      rfl
  have hrest : ((List.range p.constraints.length).map fun l =>
      p.row (g (p.layout.size .objective + l))) =
      p.placedConstraints.map fun c => p.row c.coefficient := by
    rw [← p.length_placedConstraints]
    refine List.ext_getElem (by simp) fun l hl hl' => ?_
    rw [List.length_map] at hl'
    rw [List.getElem_map, List.getElem_map, List.getElem_range,
      hconstraints l _ (List.getElem?_eq_getElem hl')]
  rw [initialHeight, List.range_add, List.map_append, List.map_map, initialRows, ← hobjectives,
    ← hrest]
  rfl

/-- Filling comes to an end if all lengths match, with the rows of the initial tableau. -/
theorem exists_assemble (p : Problem F)
    (hlength : ∀ c ∈ p.constraints, c.coefficients.length = p.objective.variableCount) :
    ∃ m, p.assemble = .ok m ∧ m.rows = p.initialRows ∧ m.width = p.layout.width := by
  obtain ⟨marked, f, hmark, hmarked, hauxiliary, hzero⟩ := p.exists_marked
  obtain ⟨filled, hfill, hfilled⟩ := hmarked.exists_fillObjective (hzero _ (Nat.le_refl _))
  have hpos := p.layout.size_objective_pos
  have hplaced : ∀ l c, p.placedConstraints[l]? = some c →
      p.placedConstraints[0 + l]? = some c := by
    intro l c hc
    rwa [Nat.zero_add]
  obtain ⟨m, g, hm, hg, hfirst, habove, hrows⟩ := hfilled.exists_fillConstraints hplaced
    (fun c hc => hlength _ (mem_constraints_iff.mpr ⟨c, hc, rfl⟩))
    (fun l => by
      rw [Function.update_of_ne (by omega)]
      exact hzero _ (by omega))
  refine ⟨m, ?_, hg.rows_eq.trans
    (map_row_eq_initialRows (fun hsome => ?_) (fun hnone => ?_) hrows), hg.width_eq⟩
  · exact Fault.bind_eq_ok_iff.mpr ⟨marked, hmark, Fault.bind_eq_ok_iff.mpr ⟨filled, hfill, hm⟩⟩
  · have htwo : p.layout.size .objective = 2 := if_pos hsome
    rw [htwo] at hfirst habove
    refine ⟨?_, ?_⟩
    · rw [hfirst, Function.update_of_ne (by omega), hauxiliary hsome]
      funext label
      rw [auxiliaryCost, Function.update_apply]
    · rw [habove 1 (by omega) (by omega), Function.update_self]
  · have hsingle : p.layout.size .objective = 1 := if_neg hnone
    rw [hsingle] at hfirst
    rw [hfirst, Function.update_self]
    exact funext fun label => foldl_express_of_none hnone label _

end Problem

/-- So the matrix of an initial tableau can be filled number by number. -/
theorem Tableau.assemble_eq_of_initial_eq {p : Problem F} {tolerance : F} {t : Tableau F}
    (h : initial p tolerance = .ok t) : p.assemble = .ok t.matrix := by
  have hinitial := (isInitial_of_initial_eq h).2
  obtain ⟨m, hm, hrows, hwidth⟩ := p.exists_assemble hinitial.length_eq
  rw [hm, Matrix.eq_of_rows_eq (hrows.trans hinitial.rows_eq.symm)
    (hwidth.trans hinitial.width_eq.symm)]

end PrimalSimplex
