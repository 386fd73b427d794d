/-
  `Proofs.Column.Place`: the groups of a layout side by side, and the one place of a
  label in them.

  Sizes that are summed up give every group a first and a last column; labels that are
  listed group by group give every column a variable.  Below, both are the same: the
  groups follow each other without gaps from the first column to the last one, and the
  label of a column says which group it is in and how far from the group's start.  That
  a group is empty changes nothing, for it starts where the next one does.
-/
import PrimalSimplex.Proofs.Column.Layout

set_option autoImplicit false

namespace PrimalSimplex.Column

namespace Layout

/-! ## Groups -/

/-- The positions of a group, from the first one to the one before its stop. -/
def positions (l : Layout) (group : Kind) : List Nat :=
  List.range' (l.start group) (l.stop group - l.start group)

theorem stop_sub_start (l : Layout) (group : Kind) : l.stop group - l.start group = l.size group :=
  Nat.add_sub_cancel_left ..

theorem totalSize_append (l : Layout) (before after : List Kind) :
    l.totalSize (before ++ after) = l.totalSize before + l.totalSize after := by
  induction before with
  | nil => exact (Nat.zero_add _).symm
  | cons group before ih =>
    show l.size group + l.totalSize (before ++ after) =
      l.size group + l.totalSize before + l.totalSize after
    rw [ih, Nat.add_assoc]

/-- A group starts after those before it. -/
theorem start_eq_totalSize (l : Layout) {group : Kind} {before after : List Kind}
    (hall : Kind.all = before ++ group :: after) : l.start group = l.totalSize before := by
  have hnodup : (before ++ group :: after).Nodup := hall ▸ (by decide : Kind.all.Nodup)
  have hother : ∀ other ∈ before, decide (other ≠ group) = true := fun other hmem =>
    decide_eq_true ((List.nodup_append.mp hnodup).2.2 other hmem group (List.mem_cons_self ..))
  rw [start, hall, List.takeWhile_append_of_pos hother, List.takeWhile_cons_of_neg (by simp),
    List.append_nil]

theorem stop_eq_totalSize (l : Layout) {group : Kind} {before after : List Kind}
    (hall : Kind.all = before ++ group :: after) :
    l.stop group = l.totalSize (before ++ [group]) := by
  rw [stop, l.start_eq_totalSize hall, totalSize_append]
  rfl

/-- Each group stops where the next one starts. -/
theorem isChain_all (l : Layout) :
    Kind.all.IsChain fun group next => l.stop group = l.start next := by
  have hrest : ∀ rest before, Kind.all = before ++ rest →
      rest.IsChain fun group next => l.stop group = l.start next := by
    intro rest
    induction rest with
    | nil => exact fun _ _ => .nil
    | cons group rest ih =>
      intro before hall
      have hlater := ih (before ++ [group]) (hall.trans (List.append_cons ..))
      cases rest with
      | nil => exact .singleton _
      | cons next rest =>
        refine .cons_cons ?_ hlater
        rw [l.stop_eq_totalSize hall, l.start_eq_totalSize (hall.trans (List.append_cons ..))]
  exact hrest Kind.all [] rfl

/-- One after another, the groups have every position once and in order. -/
theorem flatMap_positions (l : Layout) : Kind.all.flatMap l.positions = List.range l.width := by
  have hrest : ∀ rest before, Kind.all = before ++ rest →
      rest.flatMap l.positions = List.range' (l.totalSize before) (l.totalSize rest) := by
    intro rest
    induction rest with
    | nil => exact fun _ _ => rfl
    | cons group rest ih =>
      intro before hall
      have hpositions : l.positions group = List.range' (l.totalSize before) (l.size group) := by
        rw [positions, stop_sub_start, l.start_eq_totalSize hall]
      have hnext : l.totalSize (before ++ [group]) = l.totalSize before + 1 * l.size group := by
        rw [totalSize_append, Nat.one_mul]
        rfl
      rw [List.flatMap_cons, hpositions, ih _ (hall.trans (List.append_cons ..)), hnext,
        List.range'_append]
      rfl
  rw [List.range_eq_range']
  exact hrest Kind.all [] rfl

/-! ## Labels -/

/-- The group of a label and how many columns of the group are before it, if there is a
column for it. -/
def place? (l : Layout) : Label → Option (Kind × Nat)
  | .auxiliary => if 0 < l.artificials then some (.objective, 0) else none
  | .objective => some (.objective, if 0 < l.artificials then 1 else 0)
  | .decision i => if i < l.decisions then some (.decision, i) else none
  | .offset => if l.hasOffset then some (.offset, 0) else none
  | .slack i => if i < l.slacks then some (.slack, i) else none
  | .artificial i => if i < l.artificials then some (.artificial, i) else none
  | .bound => some (.bound, 0)

/-- The position of a label: its place, counted from the start of its group. -/
def position? (l : Layout) (label : Label) : Option Nat :=
  (l.place? label).map fun place => l.start place.1 + place.2

/-- Numbered labels of a group are those up to its size. -/
theorem getElem?_map_range_eq_some_iff {kind : Nat → Label} {count i : Nat} {label : Label} :
    ((List.range count).map kind)[i]? = some label ↔ i < count ∧ kind i = label := by
  rw [List.getElem?_map, Option.map_eq_some_iff]
  constructor
  · rintro ⟨j, hj, hlabel⟩
    obtain ⟨hlt, rfl⟩ := List.getElem?_eq_some_iff.mp hj
    rw [List.length_range] at hlt
    rw [List.getElem_range] at hlabel
    exact ⟨hlt, hlabel⟩
  · rintro ⟨hlt, hlabel⟩
    exact ⟨i, List.getElem?_range hlt, hlabel⟩

/-- The labels of a group are those with a place in it. -/
theorem place?_eq_some_iff {l : Layout} {label : Label} {group : Kind} {i : Nat} :
    l.place? label = some (group, i) ↔ (l.groupLabels group)[i]? = some label := by
  constructor
  · intro hplace
    cases label with
    | auxiliary =>
      obtain ⟨hsome, heq⟩ := Option.ite_none_right_eq_some.mp hplace
      cases heq
      rw [groupLabels, if_pos hsome]
      rfl
    | objective =>
      cases hplace
      rw [groupLabels]
      split
      · rfl
      · rfl
    | offset =>
      obtain ⟨hsome, heq⟩ := Option.ite_none_right_eq_some.mp hplace
      cases heq
      rw [groupLabels, if_pos hsome]
      rfl
    | bound =>
      cases hplace
      rfl
    | decision k | slack k | artificial k =>
      obtain ⟨hlt, heq⟩ := Option.ite_none_right_eq_some.mp hplace
      cases heq
      exact getElem?_map_range hlt
  · intro hat
    unfold groupLabels at hat
    cases group with
    | objective =>
      dsimp only at hat
      split at hat
      · rename_i hsome
        rcases i with _ | _ | i
        · cases hat
          exact if_pos hsome
        · cases hat
          rw [place?, if_pos hsome]
        · cases hat
      · rename_i hnone
        rcases i with _ | i
        · cases hat
          rw [place?, if_neg hnone]
        · cases hat
    | offset =>
      dsimp only at hat
      split at hat
      · rename_i hsome
        rcases i with _ | i
        · cases hat
          exact if_pos hsome
        · cases hat
      · cases hat
    | bound =>
      rcases i with _ | i
      · cases hat
        rfl
      · cases hat
    | decision | slack | artificial =>
      obtain ⟨hlt, rfl⟩ := getElem?_map_range_eq_some_iff.mp hat
      exact if_pos hlt

/-- The label at a position is the one whose position it is. -/
theorem getElem?_labels_eq_some_iff {l : Layout} {j : Nat} {label : Label} :
    l.labels[j]? = some label ↔ l.position? label = some j := by
  have hback : ∀ {j : Nat}, l.position? label = some j → l.labels[j]? = some label := by
    intro j hposition
    obtain ⟨⟨group, i⟩, hplace, rfl⟩ := Option.map_eq_some_iff.mp hposition
    have hat := place?_eq_some_iff.mp hplace
    refine (l.getElem?_labels ?_).trans hat
    rw [← length_groupLabels]
    exact (List.getElem?_eq_some_iff.mp hat).1
  refine ⟨fun hlabel => ?_, hback⟩
  obtain ⟨i, hi⟩ :=
    List.mem_iff_getElem?.mp (mem_groupLabels_of_mem_labels (List.mem_of_getElem? hlabel))
  have hposition : l.position? label = some (l.start label.kind + i) :=
    Option.map_eq_some_iff.mpr ⟨_, place?_eq_some_iff.mpr hi, rfl⟩
  have hlt := (List.getElem?_eq_some_iff.mp hlabel).1
  have hsame := (List.getElem?_inj hlt l.nodup_labels).mp (hlabel.trans (hback hposition).symm)
  rw [hposition, hsame]

end Layout

end PrimalSimplex.Column
