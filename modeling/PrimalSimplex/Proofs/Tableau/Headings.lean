/-
  `Proofs.Tableau.Headings`: the names in a table, read back.

  Cells are padded with blanks and not separated otherwise, and a name that is as long as
  its cell touches the next one.  The names can be told apart nevertheless, for every one
  begins with a letter that stands nowhere else in a name.  What is in front of a row is
  a name up to the bar.  Nothing is asked of the numbers in the table.
-/
import PrimalSimplex.Proofs.Column.Names
import PrimalSimplex.Tableau.Rendering

set_option autoImplicit false

namespace PrimalSimplex

open Column (Label)

variable {F : Type}

/-! ## Reading -/

/-- The names of the columns of a table: after the title, a line of texts among blanks. -/
def headings (table : String) : List String :=
  let heading := ((table.toList.dropWhile (· ≠ '\n')).drop 1).takeWhile (· ≠ '\n')
  Label.readTexts (heading.filter (· ≠ ' '))

/-- The name in front of a row of a table. -/
def rowName (row : String) : String :=
  String.ofList ((row.toList.takeWhile (· ≠ '|')).filter (· ≠ ' '))

/-! ## Padding -/

theorem filter_replicate_blank (count : Nat) :
    (List.replicate count ' ').filter (· ≠ ' ') = [] := by
  simp

theorem toList_alignRight (width : Nat) (text : String) :
    (alignRight width text).toList = List.replicate (width - text.length) ' ' ++ text.toList := by
  rw [alignRight, String.toList_append, String.toList_ofList]

theorem filter_toList_center (width : Nat) (text : String) :
    (center width text).toList.filter (· ≠ ' ') = text.toList.filter (· ≠ ' ') := by
  simp only [center, String.toList_append, String.toList_ofList, List.filter_append,
    filter_replicate_blank, List.nil_append, List.append_nil]

/-- Only the names are left of cells without their blanks. -/
theorem filter_flatMap_center (width : Nat) (labels : List Label) :
    (labels.flatMap fun label => (center width label.text).toList).filter (· ≠ ' ') =
      labels.flatMap fun label => label.text.toList := by
  induction labels with
  | nil => rfl
  | cons label rest ih =>
    rw [List.flatMap_cons, List.filter_append, ih, filter_toList_center,
      Label.filter_text label (by decide)]
    rfl

theorem ne_of_mem_toList_center {width : Nat} {label : Label} {c d : Char}
    (hc : c ∈ (center width label.text).toList) (hd : Label.isPlain d = false) (hblank : ' ' ≠ d) :
    c ≠ d := by
  simp only [center, String.toList_append, String.toList_ofList, List.mem_append] at hc
  rcases hc with (hc | hc) | hc
  · rwa [List.eq_of_mem_replicate hc]
  · exact Label.ne_of_mem_text hc hd
  · rwa [List.eq_of_mem_replicate hc]

/-- A name is found in front of its row, however far to the right it stands. -/
theorem rowName_head (width : Nat) (label : Label) (cells : String) :
    rowName (alignRight width (label.text ++ "  |") ++ cells) = label.text := by
  have hblanks : ∀ count, ∀ c ∈ List.replicate count ' ', decide (c ≠ '|') = true :=
    fun count c hc => by
      rw [List.eq_of_mem_replicate hc]
      rfl
  have hname : ∀ c ∈ label.text.toList, decide (c ≠ '|') = true := fun c hc =>
    decide_eq_true (Label.ne_of_mem_text hc (by decide))
  have hmark : ∀ rest, ("  |".toList ++ rest).takeWhile (· ≠ '|') = List.replicate 2 ' ' :=
    fun _ => rfl
  rw [rowName, String.toList_append, toList_alignRight, String.toList_append,
    List.append_assoc, List.append_assoc,
    List.takeWhile_append_of_pos (hblanks _), List.takeWhile_append_of_pos hname, hmark,
    List.filter_append, List.filter_append, filter_replicate_blank, filter_replicate_blank,
    Label.filter_text label (by decide), List.nil_append, List.append_nil, String.ofList_toList]

/-! ## Tables -/

namespace Tableau

variable {t : Tableau F}

/-- The line of headings: blanks above the heads of rows, and a cell for each column. -/
def headingLine (t : Tableau F) : List Char :=
  (alignRight TableStyle.standard.headWidth "").toList ++
    t.labels.flatMap fun label => (center TableStyle.standard.cellWidth label.text).toList

theorem filter_headingLine (t : Tableau F) :
    t.headingLine.filter (· ≠ ' ') = t.labels.flatMap fun label => label.text.toList := by
  rw [headingLine, List.filter_append, toList_alignRight, List.filter_append,
    filter_replicate_blank, filter_flatMap_center]
  rfl

theorem ne_newline_of_mem_headingLine {c : Char} (h : c ∈ t.headingLine) : c ≠ '\n' := by
  rcases List.mem_append.mp h with h | h
  · rw [toList_alignRight, String.toList_empty, List.append_nil] at h
    rw [List.eq_of_mem_replicate h]
    decide
  · obtain ⟨label, _, hc⟩ := List.mem_flatMap.mp h
    exact ne_of_mem_toList_center hc (by decide) (by decide)

variable [DecimalText F]

theorem exists_toList_of_render_eq {table : String} (h : t.render = .ok table) :
    ∃ rest, table.toList = "Tableau:\n".toList ++ (t.headingLine ++ '\n' :: rest) := by
  obtain ⟨rows, _, htable⟩ := Fault.bind_eq_ok_iff.mp h
  obtain rfl := Except.ok.inj htable
  let style := TableStyle.standard
  let line := String.ofList (List.replicate (style.headWidth + t.width * style.cellWidth) '-')
  refine ⟨(line ++ "\n" ++ String.join rows).toList, ?_⟩
  simp only [String.toList_append, String.toList_join, List.append_assoc, headingLine,
    List.flatMap_map]
  rfl

/-- A table is headed by the names of the columns, in order. -/
theorem headings_of_render_eq {table : String} (h : t.render = .ok table) :
    headings table = t.labels.map Label.text := by
  obtain ⟨rest, htable⟩ := exists_toList_of_render_eq h
  have htitle : ∀ below : List Char,
      (("Tableau:\n".toList ++ below).dropWhile (· ≠ '\n')).drop 1 = below := fun _ => rfl
  have hline : (t.headingLine ++ '\n' :: rest).takeWhile (· ≠ '\n') = t.headingLine := by
    rw [List.takeWhile_append_of_pos fun _ hc => decide_eq_true (ne_newline_of_mem_headingLine hc),
      List.takeWhile_cons_of_neg (by simp), List.append_nil]
  rw [headings, htable, htitle, hline, filter_headingLine, Label.readTexts_flatMap]

/-- A row is headed by the name of its objective or of its basic variable. -/
theorem exists_rowLabel_of_renderRow_eq {style : TableStyle} {row : Nat} {line : String}
    (h : renderRow style t row = .ok line) :
    ∃ label, t.rowLabel row = .ok label ∧ rowName line = label.text := by
  obtain ⟨label, hlabel, hcells⟩ := Fault.bind_eq_ok_iff.mp h
  obtain ⟨numbers, _, hline⟩ := Fault.bind_eq_ok_iff.mp hcells
  obtain rfl := Except.ok.inj hline
  refine ⟨label, hlabel, ?_⟩
  rw [String.append_assoc]
  exact rowName_head style.headWidth label _

end Tableau

end PrimalSimplex
