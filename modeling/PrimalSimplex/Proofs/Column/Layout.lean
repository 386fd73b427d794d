/-
  `Proofs.Column.Layout`: where a layout puts the label of a variable.

  Every label belongs to one kind, and the group of a kind holds labels of this
  kind only.  So no label occurs twice, and a label is found at the start of its
  group plus its place in the group.
-/
import Mathlib.Data.List.Nodup
import PrimalSimplex.Column.Layout

set_option autoImplicit false

namespace PrimalSimplex.Column

/-- The kind of columns that a label belongs to. -/
def Label.kind : Label → Kind
  | auxiliary | objective => .objective
  | decision _ => .decision
  | offset => .offset
  | slack _ => .slack
  | artificial _ => .artificial
  | bound => .bound

namespace Layout

theorem kind_of_mem_groupLabels {l : Layout} {group : Kind} {label : Label}
    (h : label ∈ l.groupLabels group) : label.kind = group := by
  unfold groupLabels at h
  cases group with
  | objective =>
    dsimp only at h
    split at h
    · rcases List.mem_pair.mp h with rfl | rfl
      · rfl
      · rfl
    · rw [List.mem_singleton.mp h]
      rfl
  | offset =>
    dsimp only at h
    split at h
    · rw [List.mem_singleton.mp h]
      rfl
    · cases h
  | bound =>
    rw [List.mem_singleton.mp h]
    rfl
  | decision =>
    obtain ⟨i, _, rfl⟩ := List.mem_map.mp h
    rfl
  | slack =>
    obtain ⟨i, _, rfl⟩ := List.mem_map.mp h
    rfl
  | artificial =>
    obtain ⟨i, _, rfl⟩ := List.mem_map.mp h
    rfl

/-- A label is in the group of its kind. -/
theorem mem_groupLabels_of_mem_labels {l : Layout} {label : Label} (h : label ∈ l.labels) :
    label ∈ l.groupLabels label.kind := by
  obtain ⟨group, _, hgroup⟩ := List.mem_flatMap.mp h
  rwa [kind_of_mem_groupLabels hgroup]

theorem nodup_groupLabels (l : Layout) (group : Kind) : (l.groupLabels group).Nodup := by
  unfold groupLabels
  cases group with
  | objective =>
    dsimp only
    split
    · exact List.nodup_cons.mpr ⟨by simp, List.nodup_singleton _⟩
    · exact List.nodup_singleton _
  | offset =>
    dsimp only
    split
    · exact List.nodup_singleton _
    · exact List.nodup_nil
  | bound => exact List.nodup_singleton _
  | decision => exact List.nodup_range.map fun i j h => Label.decision.inj h
  | slack => exact List.nodup_range.map fun i j h => Label.slack.inj h
  | artificial => exact List.nodup_range.map fun i j h => Label.artificial.inj h

/-- Numbered labels are found by their numbers. -/
theorem getElem?_map_range {label : Nat → Label} {count i : Nat} (hi : i < count) :
    ((List.range count).map label)[i]? = some (label i) := by
  rw [List.getElem?_map, List.getElem?_range hi, Option.map_some]

/-- No two columns have the same label. -/
theorem nodup_labels (l : Layout) : l.labels.Nodup := by
  refine List.nodup_flatMap.mpr ⟨fun group _ => l.nodup_groupLabels group, ?_⟩
  have hkinds : Kind.all.Nodup := by decide
  refine hkinds.imp fun hne label hfirst hsecond => hne ?_
  exact (kind_of_mem_groupLabels hfirst).symm.trans (kind_of_mem_groupLabels hsecond)

/-- The kinds before one, the kind itself, and the kinds after it. -/
theorem exists_all_eq (group : Kind) :
    ∃ after, Kind.all = Kind.all.takeWhile (· ≠ group) ++ group :: after := by
  cases group with
  | objective => exact ⟨_, rfl⟩
  | decision => exact ⟨_, rfl⟩
  | offset => exact ⟨_, rfl⟩
  | slack => exact ⟨_, rfl⟩
  | artificial => exact ⟨_, rfl⟩
  | bound => exact ⟨_, rfl⟩

/-- A group stands at its start. -/
theorem getElem?_labels (l : Layout) {group : Kind} {i : Nat} (hi : i < l.size group) :
    l.labels[l.start group + i]? = (l.groupLabels group)[i]? := by
  obtain ⟨after, hall⟩ := exists_all_eq group
  have hstart : ((Kind.all.takeWhile (· ≠ group)).flatMap l.groupLabels).length = l.start group :=
    l.length_flatMap_groupLabels _
  rw [labels, hall, List.flatMap_append, List.flatMap_cons, List.getElem?_append_right (by omega),
    List.getElem?_append_left]
  · rw [hstart, Nat.add_sub_cancel_left]
  · rw [hstart, Nat.add_sub_cancel_left, length_groupLabels]
    exact hi

/-- The labels of the variables, in the order of their columns. -/
def unknowns (l : Layout) : List Label :=
  l.groupLabels .decision ++ l.groupLabels .offset ++ l.groupLabels .slack ++
    l.groupLabels .artificial

/-- A numbered variable is there when its number is small enough. -/
theorem mem_unknowns {l : Layout} {label : Label} :
    label ∈ l.unknowns ↔ match label with
      | .decision i => i < l.decisions
      | .offset => l.hasOffset = true
      | .slack i => i < l.slacks
      | .artificial i => i < l.artificials
      | .auxiliary | .objective | .bound => False := by
  unfold unknowns groupLabels
  cases label with
  | offset => cases l.hasOffset <;> simp
  | decision i => cases l.hasOffset <;> simp
  | slack i => cases l.hasOffset <;> simp
  | artificial i => cases l.hasOffset <;> simp
  | auxiliary => cases l.hasOffset <;> simp
  | objective => cases l.hasOffset <;> simp
  | bound => cases l.hasOffset <;> simp

/-- Between the objectives and the right hand sides are the variables. -/
theorem labels_eq (l : Layout) :
    l.labels = l.groupLabels .objective ++ l.unknowns ++ [.bound] := by
  simp [labels, Kind.all, unknowns, groupLabels]

/-- The artificial variables are those of their group. -/
theorem filter_isArtificial_labels (l : Layout) :
    l.labels.filter Label.isArtificial = l.groupLabels .artificial := by
  have hgroup : ∀ group ≠ Kind.artificial,
      (l.groupLabels group).filter Label.isArtificial = [] := by
    intro group hne
    refine List.filter_eq_nil_iff.mpr fun label hlabel hartificial => hne ?_
    rw [← kind_of_mem_groupLabels hlabel]
    cases label with
    | artificial i => rfl
    | _ => cases hartificial
  have hself : (l.groupLabels .artificial).filter Label.isArtificial =
      l.groupLabels .artificial := by
    refine List.filter_eq_self.mpr fun label hlabel => ?_
    obtain ⟨i, _, rfl⟩ := List.mem_map.mp hlabel
    rfl
  rw [labels_eq, unknowns, List.filter_append, List.filter_append, List.filter_append,
    List.filter_append, List.filter_append, hself, hgroup _ (by decide), hgroup _ (by decide),
    hgroup _ (by decide), hgroup _ (by decide)]
  simp [Label.isArtificial]

/-- The groups of the variables lie in between as well. -/
theorem start_bounds (l : Layout) (group : Kind) (hfirst : group ≠ .objective)
    (hlast : group ≠ .bound) :
    l.size .objective ≤ l.start group ∧ l.start group + l.size group < l.width := by
  have hwidth : l.width = l.size .objective + (l.size .decision + (l.size .offset +
      (l.size .slack + (l.size .artificial + 1)))) := rfl
  cases group with
  | objective => exact absurd rfl hfirst
  | bound => exact absurd rfl hlast
  | decision =>
    have hstart : l.start .decision = l.size .objective := rfl
    omega
  | offset =>
    have hstart : l.start .offset = l.size .objective + l.size .decision := rfl
    omega
  | slack =>
    have hstart : l.start .slack = l.size .objective + (l.size .decision + l.size .offset) := rfl
    omega
  | artificial =>
    have hstart : l.start .artificial =
      l.size .objective + (l.size .decision + (l.size .offset + l.size .slack)) := rfl
    omega

theorem size_objective_pos (l : Layout) : 0 < l.size .objective := by
  show 0 < if 0 < l.artificials then 2 else 1
  split
  · exact Nat.two_pos
  · exact Nat.one_pos

/-- There are an objective and right hand sides at least. -/
theorem two_le_width (l : Layout) : 2 ≤ l.width := by
  have hbounds := l.start_bounds .decision (by decide) (by decide)
  have hpos := l.size_objective_pos
  omega

/-- The objective of the problem has the last column of its group. -/
theorem getElem?_objective (l : Layout) :
    l.labels[l.size .objective - 1]? = some .objective := by
  rw [labels_eq, List.append_assoc]
  show ((if 0 < l.artificials then [Label.auxiliary, Label.objective] else [Label.objective]) ++
    _)[(if 0 < l.artificials then 2 else 1) - 1]? = some Label.objective
  split
  · rfl
  · rfl

/-- The right hand sides have the last column. -/
theorem getElem?_bound (l : Layout) : l.labels[l.width - 1]? = some .bound := by
  rw [← length_labels, ← List.getLast?_eq_getElem?, labels_eq, List.getLast?_concat]

end Layout

end PrimalSimplex.Column
