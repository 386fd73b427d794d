/-
  `Proofs.Solver.ColumnNames`: what a reader of texts can find in a tableau.

  Tables and logs know a column by the text of its label only.  Operations on a tableau
  may remove labels and neither add nor change one.  So in whatever way a tableau comes
  about, its columns have different texts, as the columns of an initial tableau have, and
  a name that is read in a table or in a line of a log leads to the column that was meant.
-/
import Mathlib.Logic.Relation
import PrimalSimplex.Proofs.Solver.Replay
import PrimalSimplex.Proofs.Tableau.Evolution
import PrimalSimplex.Proofs.Tableau.Headings

set_option autoImplicit false

namespace PrimalSimplex

open Column (Label)

variable {F : Type}

/-! ## Reachable tableaus -/

section Reachable

variable [Scalar F]

/-- A tableau is made from another one by one operation, be it a good choice or not. -/
inductive Tableau.Becomes (t : Tableau F) : Tableau F → Prop
  | divide {u : Tableau F} {row : Nat} {divisor : F} (h : t.divideRow row divisor = .ok u) :
      Becomes t u
  | subtract {u : Tableau F} {minuend subtrahend : Nat} {multiple : F}
      (h : t.subtractRow minuend subtrahend multiple = .ok u) : Becomes t u
  | pivot {u : Tableau F} {row column : Nat} (h : t.pivot row column = .ok u) : Becomes t u
  | reduce {u : Tableau F} {removed : List Label} (h : t.reduce = .ok ⟨u, removed⟩) : Becomes t u

/-- The tableau comes about by operations on the initial one of a problem. -/
def Tableau.IsReachable (p : Problem F) (tolerance : F) (t : Tableau F) : Prop :=
  ∃ initial, Tableau.initial p tolerance = .ok initial ∧
    Relation.ReflTransGen Tableau.Becomes initial t

namespace Tableau

variable {s t u : Tableau F} {p : Problem F} {tolerance : F}

/-- No operation adds a label, changes one or moves one before another one. -/
theorem Becomes.labels_sublist (h : t.Becomes u) : u.labels.Sublist t.labels := by
  cases h with
  | divide h =>
    obtain ⟨m, _, hu⟩ := Fault.bind_eq_ok_iff.mp h
    obtain rfl := Except.ok.inj hu
    exact .refl _
  | subtract h =>
    obtain ⟨m, _, hu⟩ := Fault.bind_eq_ok_iff.mp h
    obtain rfl := Except.ok.inj hu
    exact .refl _
  | pivot h =>
    obtain ⟨_, _, hmatrix⟩ := Fault.bind_eq_ok_iff.mp h
    obtain ⟨m, _, hu⟩ := Fault.bind_eq_ok_iff.mp hmatrix
    obtain rfl := Except.ok.inj hu
    exact .refl _
  | reduce h =>
    cases hphase : t.phase with
    | optimality =>
      rw [reduce_of_optimality hphase] at h
      obtain rfl : t = u := congrArg Reduction.tableau (Except.ok.inj h)
      exact .refl _
    | feasibility =>
      rw [Tableau.reduce, hphase] at h
      obtain ⟨surplus, _, hlabels⟩ := Fault.bind_eq_ok_iff.mp h
      obtain ⟨_, _, hmatrix⟩ := Fault.bind_eq_ok_iff.mp hlabels
      obtain ⟨m, _, hu⟩ := Fault.bind_eq_ok_iff.mp hmatrix
      obtain rfl := congrArg Reduction.tableau (Except.ok.inj hu)
      exact dropPositions_sublist surplus t.labels

theorem labels_sublist_of_reflTransGen (h : Relation.ReflTransGen Becomes s t) :
    t.labels.Sublist s.labels := by
  induction h with
  | refl => exact .refl _
  | tail _ hstep ih => exact hstep.labels_sublist.trans ih

theorem IsReachable.nodup_labels (h : t.IsReachable p tolerance) : t.labels.Nodup := by
  obtain ⟨initial, hinitial, hreaches⟩ := h
  have hlabels := (isInitial_of_initial_eq hinitial).2.labels_eq
  exact (hlabels ▸ p.layout.nodup_labels).sublist (labels_sublist_of_reflTransGen hreaches)

theorem IsReachable.trans (h : s.IsReachable p tolerance)
    (hreaches : Relation.ReflTransGen Becomes s t) : t.IsReachable p tolerance := by
  obtain ⟨initial, hinitial, hbefore⟩ := h
  exact ⟨initial, hinitial, hbefore.trans hreaches⟩

/-- A step of a run is an operation, or none. -/
theorem Advances.reflTransGen (h : t.Advances u) : Relation.ReflTransGen Becomes t u := by
  cases h with
  | exchange _ _ hpivot => exact .single (.pivot hpivot)
  | leave _ _ _ _ hreduce => exact .single (.reduce hreduce)
  | begin _ => exact .refl

end Tableau

end Reachable

/-! ## Logs -/

/-- The words of a line of a log, without the commas after them. -/
def logWords (line : String) : List String :=
  ((line.toList.filter (· ≠ ',')).splitOn ' ').map String.ofList

theorem logWords_eq {line : String} {words : List String} (hne : words ≠ [])
    (hblank : ∀ word ∈ words, ' ' ∉ word.toList)
    (hline : line.toList.filter (· ≠ ',') = [' '].intercalate (words.map String.toList)) :
    logWords line = words := by
  have hsplit : ([' '].intercalate (words.map String.toList)).splitOn ' ' =
      words.map String.toList := by
    refine List.splitOn_intercalate ' ' (fun chars hchars => ?_) (by simpa using hne)
    obtain ⟨word, hword, rfl⟩ := List.mem_map.mp hchars
    exact hblank word hword
  rw [logWords, hline, hsplit, List.map_map]
  exact (List.map_congr_left fun word _ => String.ofList_toList).trans (List.map_id _)

theorem ne_of_mem_toList_toString {i : Nat} {c d : Char} (h : c ∈ (toString i).toList)
    (hd : d.isDigit = false) : c ≠ d := by
  rintro rfl
  rw [Nat.toString_eq_repr, Nat.toList_repr] at h
  exact Bool.false_ne_true (hd.symm.trans (Nat.isDigit_of_mem_toDigits (by omega) (by omega) h))

theorem filter_toList_toString (i : Nat) :
    (toString i).toList.filter (· ≠ ',') = (toString i).toList := by
  refine List.filter_eq_self.mpr fun c hc => decide_eq_true (ne_of_mem_toList_toString hc ?_)
  decide

theorem blank_not_mem_text (label : Label) : ' ' ∉ label.text.toList :=
  fun h => Label.ne_of_mem_text h (by decide) rfl

theorem blank_not_mem_toString (i : Nat) : ' ' ∉ (toString i).toList :=
  fun h => ne_of_mem_toList_toString h (by decide) rfl

/-- The record of an exchange has the names as its fourth and its ninth word. -/
theorem logWords_exchangeLine (iteration row : Nat) (entering leaving : Label) :
    logWords (exchangeLine iteration entering.text row leaving.text) =
      ["TRACE", "Iteration", toString iteration ++ ":", entering.text, "enters", "in", "row",
        toString row, leaving.text, "leaves"] := by
  have hname : ∀ label : Label, (toString label.text).toList.filter (· ≠ ',') =
      label.text.toList := fun label => label.filter_text (by decide)
  have hnumber : ' ' ∉ (toString iteration ++ ":").toList := by
    rw [String.toList_append]
    exact List.not_mem_append (blank_not_mem_toString iteration) (by decide)
  refine logWords_eq nofun ?_ ?_
  · simp only [List.forall_mem_cons]
    exact ⟨by decide, by decide, hnumber, blank_not_mem_text entering, by decide, by decide,
      by decide, blank_not_mem_toString row, blank_not_mem_text leaving, by decide, nofun⟩
  · simp only [exchangeLine, String.toList_append, List.filter_append, filter_toList_toString,
      hname, List.map_cons, List.map_nil, List.intercalate_cons_cons, List.intercalate_singleton,
      List.append_assoc]
    rfl

/-- Names that are enumerated with commas stand between blanks. -/
theorem filter_intercalate {names : List (List Char)}
    (h : ∀ name ∈ names, name.filter (· ≠ ',') = name) :
    ([',', ' '].intercalate names).filter (· ≠ ',') = [' '].intercalate names := by
  induction names with
  | nil => rfl
  | cons name rest ih =>
    obtain ⟨hname, hrest⟩ := List.forall_mem_cons.mp h
    cases rest with
    | nil => rwa [List.intercalate_singleton, List.intercalate_singleton]
    | cons next rest =>
      rw [List.intercalate_cons_cons, List.intercalate_cons_cons, List.filter_append,
        List.filter_append, hname, ih hrest]
      rfl

/-- The record of a removal ends with the names of the columns that are removed. -/
theorem exists_line_removed [DecimalText F] {labels : List Label} (hne : labels ≠ []) :
    ∃ line, (Event.removed labels : Event F).line = .ok line ∧
      logWords line = ["DEBUG", "Dropping", toString labels.length, "columns", "after", "phase",
        "one:"] ++ labels.map Label.text := by
  have hnames : (String.intercalate ", " (labels.map Label.text)).toList.filter (· ≠ ',') =
      [' '].intercalate ((labels.map Label.text).map String.toList) := by
    rw [String.toList_intercalate]
    refine filter_intercalate fun name hname => ?_
    obtain ⟨text, htext, rfl⟩ := List.mem_map.mp hname
    obtain ⟨label, _, rfl⟩ := List.mem_map.mp htext
    exact label.filter_text (by decide)
  have hstring : ∀ text : String, toString text = text := fun _ => rfl
  have hlevel : (Event.removed labels : Event F).level.name = "DEBUG" := rfl
  refine ⟨_, rfl, logWords_eq nofun ?_ ?_⟩
  · simp only [List.cons_append, List.nil_append, List.forall_mem_cons]
    refine ⟨by decide, by decide, blank_not_mem_toString _, by decide, by decide, by decide,
      by decide, fun word hword => ?_⟩
    obtain ⟨label, _, rfl⟩ := List.mem_map.mp hword
    exact blank_not_mem_text label
  · obtain ⟨first, rest, rfl⟩ := List.exists_cons_of_ne_nil hne
    simp only [String.toList_append, List.filter_append, filter_toList_toString, List.map_cons,
      List.intercalate_cons_cons, List.append_assoc, List.cons_append, List.nil_append] at hnames ⊢
    rw [hlevel, hstring (String.intercalate ", " _), hnames]
    rfl

/-! ## Columns by name -/

namespace Tableau

variable {t : Tableau F}

theorem columnNamed_eq_ok_iff (hnodup : t.labels.Nodup) {name : String} {column : Nat} :
    t.columnNamed name = .ok column ↔ ∃ label, t.label column = .ok label ∧ label.text = name := by
  constructor
  · intro h
    unfold columnNamed at h
    split at h
    · rename_i found hfind
      obtain rfl := Except.ok.inj h
      obtain ⟨hlt, htext, _⟩ := List.findIdx?_eq_some_iff_getElem.mp hfind
      exact ⟨_, Fault.fetch_of_lt hlt, beq_iff_eq.mp htext⟩
    · cases h
  · rintro ⟨label, hlabel, rfl⟩
    exact columnNamed_text (columnOf?_of_label_eq hnodup hlabel)

/-- The column that the head of a row of a table is about. -/
def headColumn (t : Tableau F) (row : Nat) : Except Fault Nat :=
  if row < t.objectives then .ok row else t.basicColumn row

theorem exists_headColumn_of_rowLabel_eq {row : Nat} {label : Label}
    (h : t.rowLabel row = .ok label) :
    ∃ column, t.headColumn row = .ok column ∧ t.label column = .ok label := by
  unfold rowLabel at h
  unfold headColumn
  split at h
  · rename_i hobjective
    exact ⟨row, if_pos hobjective, h⟩
  · rename_i hconstraint
    rw [if_neg hconstraint]
    exact Fault.bind_eq_ok_iff.mp h

/-- Texts tell the columns of a tableau apart, and those in its table can be read back. -/
structure KnownByTexts [DecimalText F] (t : Tableau F) : Prop where
  nodup : (t.labels.map Label.text).Nodup
  columnNamed_iff : ∀ name column, t.columnNamed name = .ok column ↔
    ∃ label, t.label column = .ok label ∧ label.text = name
  headings_eq : ∀ table, t.render = .ok table → headings table = t.labels.map Label.text
  rowName_eq : ∀ row line, renderRow .standard t row = .ok line →
    ∃ column, t.headColumn row = .ok column ∧ t.columnNamed (rowName line) = .ok column

theorem knownByTexts_of_nodup [DecimalText F] (hnodup : t.labels.Nodup) : t.KnownByTexts where
  nodup := hnodup.map Label.text_injective
  columnNamed_iff _ _ := columnNamed_eq_ok_iff hnodup
  headings_eq _ := headings_of_render_eq
  rowName_eq row line h := by
    obtain ⟨label, hlabel, hname⟩ := exists_rowLabel_of_renderRow_eq h
    obtain ⟨column, hcolumn, hat⟩ := exists_headColumn_of_rowLabel_eq hlabel
    exact ⟨column, hcolumn, (columnNamed_eq_ok_iff hnodup).mpr ⟨label, hat, hname.symm⟩⟩

/-- A line of a log tells of a pivot on the tableau, by names of its columns. -/
def IsTold [Scalar F] (t : Tableau F) (row : Nat) (line : String) : Prop :=
  ∃ entering leaving column basic u,
    (logWords line)[3]? = some entering ∧ t.columnNamed entering = .ok column ∧
      (logWords line)[8]? = some leaving ∧ t.columnNamed leaving = .ok basic ∧
      t.basicColumn row = .ok basic ∧ t.pivot row column = .ok u

end Tableau

/-! ## Runs -/

section Runs

variable [Scalar F]

/-- All exchanges that a journal tells of were made in tableaus that the run went
through, between the columns that have the labels. -/
structure NamesExchanges (journal : List (Event F)) (t : Tableau F) : Prop where
  mem_visited : t ∈ visited journal
  named : ∀ iteration entering row leaving,
    .exchanged iteration entering row leaving ∈ journal → ∃ s ∈ visited journal, ∃ column u,
      s.label column = .ok entering ∧ s.basicLabel row = .ok leaving ∧ s.pivot row column = .ok u

namespace NamesExchanges

variable {journal events : List (Event F)} {t u : Tableau F}

theorem append (h : NamesExchanges journal t) (hmem : u ∈ visited (journal ++ events))
    (hevents : ∀ iteration entering row leaving,
      .exchanged iteration entering row leaving ∈ events → ∃ column next,
        t.label column = .ok entering ∧ t.basicLabel row = .ok leaving ∧
          t.pivot row column = .ok next) : NamesExchanges (journal ++ events) u := by
  have hkept := Recounts.visited_subset_append journal events
  refine ⟨hmem, fun iteration entering row leaving hexchanged => ?_⟩
  rcases List.mem_append.mp hexchanged with hbefore | hafter
  · obtain ⟨s, hs, hmade⟩ := h.named iteration entering row leaving hbefore
    exact ⟨s, hkept hs, hmade⟩
  · exact ⟨t, hkept h.mem_visited, hevents iteration entering row leaving hafter⟩

theorem maintained : Maintained (F := F) NamesExchanges where
  note h he := by
    refine h.append (Recounts.visited_subset_append _ _ h.mem_visited) fun _ _ _ _ hmem => ?_
    rw [← List.mem_singleton.mp hmem] at he
    cases he
  exchange iteration entering leaving h _ _ hpivot hentering hleaving := by
    refine h.append (by rw [visited_append]; exact List.mem_append_right _ (List.mem_cons_self ..))
      fun _ _ _ _ hmem => ?_
    rcases List.mem_pair.mp hmem with heq | heq
    · cases heq
      exact ⟨_, _, hentering, hleaving, hpivot⟩
    · cases heq
  begin h _ := by
    refine h.append (Recounts.visited_subset_append _ _ h.mem_visited) fun _ _ _ _ hmem => ?_
    cases List.mem_singleton.mp hmem
  leave h _ _ _ _ _ := by
    refine h.append (by rw [visited_append]; exact List.mem_append_right _ (List.mem_cons_self ..))
      fun _ _ _ _ hmem => ?_
    cases List.mem_singleton.mp hmem

end NamesExchanges

namespace Solving

variable {p : Problem F} {settings : Settings F} {report : Report F}

theorem isReachable_of_visited (h : Solving p settings report) :
    ∀ t ∈ visited report.journal, t.IsReachable p.standardize settings.tolerance :=
  h.forall_visited (fun initial hinitial => ⟨initial, hinitial, .refl⟩)
    fun _ _ hstep hreachable => hreachable.trans hstep.reflTransGen

theorem named_of_exchanged (h : Solving p settings report) {iteration row : Nat}
    {entering leaving : Label}
    (hexchanged : .exchanged iteration entering row leaving ∈ report.journal) :
    ∃ t ∈ visited report.journal, ∃ column u, t.label column = .ok entering ∧
      t.basicLabel row = .ok leaving ∧ t.pivot row column = .ok u := by
  cases hfinal : report.tableau? with
  | none =>
    cases h with
    | malformed m _ => cases hexchanged
    | failed _ _ => cases hfinal
    | solved _ _ _ => cases hfinal
  | some final =>
    refine (NamesExchanges.maintained.solving h hfinal fun initial _ => ?_).named iteration entering
      row leaving hexchanged
    refine ⟨List.mem_singleton_self initial, fun _ _ _ _ hmem => ?_⟩
    cases List.mem_singleton.mp hmem

/-- The line that tells of an exchange names the columns of one of the tableaus. -/
theorem isTold_of_exchanged [DecimalText F] (h : Solving p settings report) {iteration row : Nat}
    {entering leaving : Label}
    (hexchanged : .exchanged iteration entering row leaving ∈ report.journal) :
    ∃ line, (Event.exchanged iteration entering row leaving : Event F).line = .ok line ∧
      ∃ t ∈ visited report.journal, t.IsTold row line := by
  obtain ⟨t, ht, column, u, hentering, hleaving, hpivot⟩ := h.named_of_exchanged hexchanged
  obtain ⟨basic, hbasic, hlabel⟩ := Fault.bind_eq_ok_iff.mp hleaving
  have hnodup := (h.isReachable_of_visited t ht).nodup_labels
  have hwords := logWords_exchangeLine iteration row entering leaving
  refine ⟨_, rfl, t, ht, entering.text, leaving.text, column, basic, u, ?_, ?_, ?_, ?_, hbasic,
    hpivot⟩
  · exact congrArg (·[3]?) hwords
  · exact (Tableau.columnNamed_eq_ok_iff hnodup).mpr ⟨entering, hentering, rfl⟩
  · exact congrArg (·[8]?) hwords
  · exact (Tableau.columnNamed_eq_ok_iff hnodup).mpr ⟨leaving, hlabel, rfl⟩

end Solving

end Runs

/-- Texts stand for labels, all of which have different ones, and those of artificial
variables are the ones that begin with an `a`.  So in every tableau that comes about by
operations on an initial one, whatever the numbers are, texts lead to columns and are
read back from tables.  The tableaus of a solver are among these, their tables can be
written, and every exchange in its log names two columns of the tableau before, which
are the ones that are exchanged.  What is removed is named as well. -/
theorem Tableau.knownByTexts_of_isReachable (F : Type) [Scalar F] [DecimalText F] :
    (∀ a b : Label, a ≠ b → a.text ≠ b.text) ∧
      (∀ label : Label, label.text.startsWith "a" = true ↔ label.isArtificial = true) ∧
      (∀ (p : Problem F) (tolerance : F) (t : Tableau F), t.IsReachable p tolerance →
        t.KnownByTexts) ∧
      (∀ labels : List Label, labels ≠ [] → ∃ line,
        (Event.removed labels : Event F).line = .ok line ∧
          (logWords line).drop 7 = labels.map Label.text) ∧
      ∀ (s : Solver F) (p : Problem F), ∃ report,
        s.optimize p = .ok (report, { s with iterations := report.iterations }) ∧
          (∀ t ∈ visited report.journal, t.IsReachable p.standardize s.settings.tolerance ∧
            ∃ table, t.render = .ok table) ∧
          ∀ iteration entering row leaving,
            .exchanged iteration entering row leaving ∈ report.journal → ∃ line,
              (Event.exchanged iteration entering row leaving : Event F).line = .ok line ∧
                ∃ t ∈ visited report.journal, t.IsTold row line := by
  refine ⟨fun a b hne => Label.text_injective.ne hne, Label.startsWith_text_iff,
    fun p tolerance t h => knownByTexts_of_nodup h.nodup_labels, fun labels hne => ?_,
    fun s p => ?_⟩
  · obtain ⟨line, hline, hwords⟩ := exists_line_removed (F := F) hne
    refine ⟨line, hline, ?_⟩
    rw [hwords]
    rfl
  · obtain ⟨report, hanswer, hsolving⟩ := s.optimize_spec p
    refine ⟨report, hanswer, fun t ht => ⟨hsolving.isReachable_of_visited t ht,
      (hsolving.wellShaped_of_visited t ht).exists_render⟩, fun iteration entering row leaving h =>
      hsolving.isTold_of_exchanged h⟩

/-- The detour's problem after one pivot and without the first phase: `s1` has moved to the
left, and `x-` is no longer there. -/
theorem Tableau.knownByTexts_detourProblem :
    ∃ (t : Tableau ℚ) (table : String), t.IsReachable detourProblem (1 / 2) ∧
      t.KnownByTexts ∧ t.render = .ok table ∧
      headings table = ["Z", "x0", "x1", "s1", "a1", "RHS"] ∧ t.columnNamed "s1" = .ok 3 ∧
      ∀ column, t.columnNamed "x-" ≠ .ok column := by
  have hruns : ((Tableau.initial detourProblem (1 / 2)).toOption.bind fun s =>
      (s.pivot 2 3).toOption.bind fun t => t.reduce.toOption.bind fun reduction =>
        reduction.tableau.render.toOption.map fun _ => reduction.tableau.labels) =
      some [.objective, .decision 0, .decision 1, .slack 1, .artificial 1, .bound] := by
    decide +kernel
  obtain ⟨s, hinitial, hruns⟩ := Option.bind_eq_some_iff.mp hruns
  obtain ⟨t, hpivot, hruns⟩ := Option.bind_eq_some_iff.mp hruns
  obtain ⟨⟨u, removed⟩, hreduce, hruns⟩ := Option.bind_eq_some_iff.mp hruns
  obtain ⟨table, hrender, hlabels⟩ := Option.map_eq_some_iff.mp hruns
  have hlabels : u.labels = _ := hlabels
  have hrender := Fault.eq_ok_of_toOption_eq_some hrender
  have hreachable : u.IsReachable detourProblem (1 / 2) :=
    ⟨s, Fault.eq_ok_of_toOption_eq_some hinitial,
      .tail (.single (.pivot (Fault.eq_ok_of_toOption_eq_some hpivot)))
        (.reduce (Fault.eq_ok_of_toOption_eq_some hreduce))⟩
  have hknown := (knownByTexts_of_isReachable ℚ).2.2.1 _ _ _ hreachable
  have hlabel : u.label 3 = .ok (.slack 1) := Fault.fetch_eq_ok_iff.mpr (by rw [hlabels]; rfl)
  refine ⟨u, table, hreachable, hknown, hrender, ?_, ?_, fun column hcolumn => ?_⟩
  · rw [hknown.headings_eq table hrender, hlabels]
    decide +kernel
  · exact (hknown.columnNamed_iff "s1" 3).mpr ⟨_, hlabel, by decide +kernel⟩
  · obtain ⟨label, hat, htext⟩ := (hknown.columnNamed_iff "x-" column).mp hcolumn
    have hmem : label ∈ u.labels := List.mem_of_getElem? (Fault.fetch_eq_ok_iff.mp hat)
    have hnone : ∀ other ∈ u.labels, other.text ≠ "x-" := by
      rw [hlabels]
      decide +kernel
    exact hnone label hmem htext

end PrimalSimplex
