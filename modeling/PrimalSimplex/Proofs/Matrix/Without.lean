/-
  `Proofs.Matrix.Without`: leaving out rows and columns, at once or one after another.

  What is left of a list without some positions stands in its old order: in place `k` is the
  element at the `k`-th of the numbers that are not listed.  So a position that stays moves
  down by the number of smaller ones that go, and whoever leaves out more positions later
  has to move these down first.  A search by halving and a removal by position, whose result
  is read place by place, then do to a matrix what filtering does.
-/
import Mathlib.Data.List.Count
import Mathlib.Data.Nat.Nth
import PrimalSimplex.Proofs.Matrix.Entries

set_option autoImplicit false

namespace PrimalSimplex

/-! ## Numbers that are not listed -/

section Positions

variable {positions : List Nat}

theorem arePositions_iff {count : Nat} : arePositions positions count = true ↔
    positions.Pairwise (· < ·) ∧ ∀ i ∈ positions, i < count := by
  simp [arePositions]

theorem nodup_of_arePositions {count : Nat} (h : arePositions positions count = true) :
    positions.Nodup :=
  (arePositions_iff.mp h).1.imp Nat.ne_of_lt

/-- Every position below a certain one is either listed or kept. -/
theorem countP_add_length_keptPositions (hnodup : positions.Nodup) (count : Nat) :
    positions.countP (· < count) + (keptPositions positions count).length = count := by
  induction count with
  | zero =>
    have hnone : positions.countP (· < 0) = 0 := List.countP_eq_zero.mpr fun _ _ => by simp
    rw [hnone]
    rfl
  | succ count ih =>
    have hbelow : ∀ ps : List Nat,
        ps.countP (· < count + 1) = ps.countP (· < count) + ps.count count := by
      intro ps
      induction ps with
      | nil => rfl
      | cons position ps ihRest =>
        rw [List.countP_cons, List.countP_cons, List.count_cons, ihRest]
        simp only [decide_eq_true_eq, beq_iff_eq]
        split_ifs <;> omega
    have hkept : (keptPositions positions (count + 1)).length =
        (keptPositions positions count).length + if count ∈ positions then 0 else 1 := by
      rw [keptPositions_add, List.length_append]
      by_cases hlisted : count ∈ positions <;> simp [hlisted]
    rw [hbelow, hkept, hnodup.count]
    split
    · omega
    · omega

theorem length_keptPositions_add {count : Nat} (h : arePositions positions count = true) :
    (keptPositions positions count).length + positions.length = count := by
  have hbelow : positions.countP (· < count) = positions.length :=
    List.countP_eq_length.mpr fun i hi => decide_eq_true ((arePositions_iff.mp h).2 i hi)
  have hsplit := countP_add_length_keptPositions (nodup_of_arePositions h) count
  omega

/-- A list leaves out only so many numbers. -/
theorem infinite_not_mem (positions : List Nat) : (Set.ofPred (· ∉ positions)).Infinite :=
  positions.finite_toSet.infinite_compl

theorem length_keptPositions (positions : List Nat) (count : Nat) :
    (keptPositions positions count).length = Nat.count (· ∉ positions) count := by
  rw [keptPositions, ← List.countP_eq_length_filter, Nat.count]
  exact List.countP_congr fun i _ => by simp

/-- In place `k` of what is kept is the `k`-th number that is not listed. -/
theorem nth_eq_of_getElem?_keptPositions {count k i : Nat}
    (h : (keptPositions positions count)[k]? = some i) : Nat.nth (· ∉ positions) k = i := by
  obtain ⟨hlt, hkept⟩ := mem_keptPositions.mp (List.mem_of_getElem? h)
  have hnodup : (keptPositions positions count).Nodup :=
    (pairwise_keptPositions _ _).imp Nat.ne_of_lt
  have hplace := getElem?_keptPositions_length hlt hkept
  have hk : (keptPositions positions i).length = k :=
    (List.getElem?_inj (List.getElem?_eq_some_iff.mp hplace).1 hnodup).mp (hplace.trans h.symm)
  rw [← hk, length_keptPositions]
  exact Nat.nth_count hkept

/-- In place `k` of what is left is the element at the `k`-th number that is not listed, if
there are that many. -/
theorem getElem?_dropPositions_eq {α : Type} (positions : List Nat) (elements : List α) (k : Nat) :
    (dropPositions positions elements)[k]? = elements[Nat.nth (· ∉ positions) k]? := by
  cases h : (keptPositions positions elements.length)[k]? with
  | some i => rw [getElem?_dropPositions h, nth_eq_of_getElem?_keptPositions h]
  | none =>
    have hlength := List.getElem?_eq_none_iff.mp h
    rw [length_keptPositions, Nat.count_le_iff_le_nth (infinite_not_mem positions)] at hlength
    rw [List.getElem?_eq_none hlength, List.getElem?_eq_none]
    rw [length_dropPositions]
    exact List.getElem?_eq_none_iff.mp h

end Positions

/-! ## Positions that move down -/

/-- The position of what stays after the listed positions are gone: down by the number of
smaller ones among these. -/
def shiftDown (removed : List Nat) (position : Nat) : Nat :=
  position - removed.countP (· < position)

section Shift

variable {first second : List Nat}

theorem shiftDown_eq_count (hnodup : first.Nodup) (position : Nat) :
    shiftDown first position = Nat.count (· ∉ first) position := by
  have hsplit := countP_add_length_keptPositions hnodup position
  rw [length_keptPositions] at hsplit
  unfold shiftDown
  omega

theorem shiftDown_lt_shiftDown (hnodup : first.Nodup) {i j : Nat} (hi : i ∉ first) (hlt : i < j) :
    shiftDown first i < shiftDown first j := by
  rw [shiftDown_eq_count hnodup, shiftDown_eq_count hnodup]
  exact Nat.count_strict_mono hi hlt

/-- What comes to a position is not gone later just if it did not have to. -/
theorem mem_map_shiftDown_iff (hnodup : first.Nodup) (hdisjoint : first.Disjoint second) {k : Nat} :
    k ∈ second.map (shiftDown first) ↔ Nat.nth (· ∉ first) k ∈ second := by
  have hplace : ∀ i ∉ first, Nat.nth (· ∉ first) (shiftDown first i) = i := by
    intro i hi
    rw [shiftDown_eq_count hnodup]
    exact Nat.nth_count hi
  constructor
  · intro h
    obtain ⟨i, hi, rfl⟩ := List.mem_map.mp h
    rwa [hplace i fun hfirst => hdisjoint hfirst hi]
  · intro h
    refine List.mem_map.mpr ⟨_, h, ?_⟩
    rw [shiftDown_eq_count hnodup]
    exact Nat.count_nth_of_infinite (infinite_not_mem first) k

/-- The numbers left by two lists one after another are those left by both at once. -/
theorem nth_nth_eq (hnodup : first.Nodup) (hdisjoint : first.Disjoint second) (k : Nat) :
    Nat.nth (· ∉ first) (Nat.nth (· ∉ second.map (shiftDown first)) k) =
      Nat.nth (· ∉ first.merge second) k := by
  have hinfinite := infinite_not_mem first
  have hsame : (· ∉ second.map (shiftDown first)) =
      fun i => Nat.nth (· ∉ first) i ∉ first.merge second := by
    funext i
    have hstays : Nat.nth (· ∉ first) i ∉ first := Nat.nth_mem_of_infinite hinfinite i
    rw [mem_map_shiftDown_iff hnodup hdisjoint, List.mem_merge, not_or]
    exact propext ⟨fun h => ⟨hstays, h⟩, fun h => h.2⟩
  rw [hsame]
  refine Nat.nth_comp_of_strictMono (Nat.nth_strictMono hinfinite) (fun i hi => ?_) fun hfinite =>
    absurd hfinite (infinite_not_mem _)
  rw [Nat.range_nth_of_infinite hinfinite]
  exact fun hfirst => hi (List.mem_merge.mpr (.inl hfirst))

/-- Dropping one after another is dropping at once. -/
theorem dropPositions_dropPositions {α : Type} (hnodup : first.Nodup)
    (hdisjoint : first.Disjoint second) (elements : List α) :
    dropPositions (second.map (shiftDown first)) (dropPositions first elements) =
      dropPositions (first.merge second) elements := by
  refine List.ext_getElem? fun k => ?_
  rw [getElem?_dropPositions_eq, getElem?_dropPositions_eq, getElem?_dropPositions_eq,
    nth_nth_eq hnodup hdisjoint]

/-- Changing elements and dropping some of them can be done in any order. -/
theorem dropPositions_map {α β : Type} (f : α → β) (positions : List Nat) (elements : List α) :
    dropPositions positions (elements.map f) = (dropPositions positions elements).map f := by
  refine List.ext_getElem? fun k => ?_
  rw [getElem?_dropPositions_eq, List.getElem?_map, List.getElem?_map, getElem?_dropPositions_eq]

variable {count : Nat}

/-- Positions that move down are positions of what is left. -/
theorem arePositions_map_shiftDown (hfirst : arePositions first count = true)
    (hsecond : arePositions second count = true) (hdisjoint : first.Disjoint second) :
    arePositions (second.map (shiftDown first)) (keptPositions first count).length = true := by
  have hnodup := nodup_of_arePositions hfirst
  have hstays : ∀ i ∈ second, i ∉ first := fun i hi hgone => hdisjoint hgone hi
  obtain ⟨hincreasing, hbelow⟩ := arePositions_iff.mp hsecond
  refine arePositions_iff.mpr ⟨?_, fun i hi => ?_⟩
  · refine List.pairwise_map.mpr (hincreasing.imp_of_mem fun hi _ hlt => ?_)
    exact shiftDown_lt_shiftDown hnodup (hstays _ hi) hlt
  · obtain ⟨j, hj, rfl⟩ := List.mem_map.mp hi
    rw [length_keptPositions, ← shiftDown_eq_count hnodup]
    exact shiftDown_lt_shiftDown hnodup (hstays j hj) (hbelow j hj)

/-- Both lists together are positions as well. -/
theorem arePositions_merge (hfirst : arePositions first count = true)
    (hsecond : arePositions second count = true) (hdisjoint : first.Disjoint second) :
    arePositions (first.merge second) count = true := by
  obtain ⟨hfirstIncreasing, hfirstBelow⟩ := arePositions_iff.mp hfirst
  obtain ⟨hsecondIncreasing, hsecondBelow⟩ := arePositions_iff.mp hsecond
  have hnodup : (first.merge second).Nodup := by
    rw [(List.merge_perm_append _).nodup_iff]
    exact (nodup_of_arePositions hfirst).append (nodup_of_arePositions hsecond) hdisjoint
  have hsorted : (first.merge second).Pairwise fun i j => decide (i ≤ j) = true :=
    List.pairwise_merge (fun i j k hij hjk => by simp at *; omega) (fun i j => by simp; omega) _ _
      (hfirstIncreasing.imp fun h => by simp; omega) (hsecondIncreasing.imp fun h => by simp; omega)
  refine arePositions_iff.mpr ⟨?_, fun i hi => ?_⟩
  · exact (hsorted.and hnodup).imp fun ⟨hle, hne⟩ => Nat.lt_of_le_of_ne (of_decide_eq_true hle) hne
  · rcases List.mem_merge.mp hi with hi | hi
    · exact hfirstBelow i hi
    · exact hsecondBelow i hi

end Shift

/-! ## Searching and removing -/

namespace Rows

/-- Whether a number is among increasing ones: the one in the middle is looked at, and then
the half where the number can be. -/
def searches (positions : List Nat) (i : Nat) : Bool :=
  if h : 0 < positions.length then
    let middle := positions.length / 2
    have hmiddle : middle < positions.length := Nat.div_lt_self h Nat.one_lt_two
    if i = positions[middle] then true
    else if i < positions[middle] then searches (positions.take middle) i
    else searches (positions.drop (middle + 1)) i
  else false
termination_by positions.length
decreasing_by
  · rw [List.length_take]
    exact Nat.lt_of_le_of_lt (Nat.min_le_left ..) hmiddle
  · rw [List.length_drop]
    exact Nat.sub_lt h (Nat.succ_pos _)

theorem searches_iff {positions : List Nat} (h : positions.Pairwise (· < ·)) (i : Nat) :
    searches positions i = true ↔ i ∈ positions := by
  -- The middle, with smaller numbers before it and greater ones after it.
  have hsplit : ∀ {ps : List Nat} {k : Nat} (hk : k < ps.length), ps.Pairwise (· < ·) →
      (∀ j, j ∈ ps ↔ j ∈ ps.take k ∨ j = ps[k] ∨ j ∈ ps.drop (k + 1)) ∧
        (∀ j ∈ ps.take k, j < ps[k]) ∧ ∀ j ∈ ps.drop (k + 1), ps[k] < j := by
    intro ps k hk hps
    have hcut : ps = ps.take k ++ ps[k] :: ps.drop (k + 1) := by
      rw [List.cons_getElem_drop_succ, List.take_append_drop]
    refine ⟨fun j => ?_, fun j hj => ?_, fun j hj => ?_⟩
    · conv_lhs => rw [hcut, List.mem_append, List.mem_cons]
    · rw [hcut] at hps
      exact (List.pairwise_append.mp hps).2.2 j hj _ (List.mem_cons_self ..)
    · rw [hcut] at hps
      exact (List.pairwise_cons.mp (List.pairwise_append.mp hps).2.1).1 j hj
  fun_induction searches positions i with
  | case1 positions hpos middle hmiddle hequal =>
    exact iff_of_true rfl (hequal ▸ List.getElem_mem hmiddle)
  | case2 positions hpos middle hmiddle hne hlt ih =>
    obtain ⟨hmem, -, hafter⟩ := hsplit hmiddle h
    refine (ih h.take).trans ((hmem i).trans ⟨fun hor => ?_, .inl⟩).symm
    exact hor.resolve_right fun hlater => hlater.elim hne fun hj => Nat.lt_asymm hlt (hafter i hj)
  | case3 positions hpos middle hmiddle hne hge ih =>
    obtain ⟨hmem, hbefore, -⟩ := hsplit hmiddle h
    refine (ih h.drop).trans ((hmem i).trans ⟨fun hor => ?_, fun hj => .inr (.inr hj)⟩).symm
    exact (hor.resolve_left fun hj => hge (hbefore i hj)).resolve_left hne
  | case4 positions hpos =>
    obtain rfl := List.length_eq_zero_iff.mp (Nat.eq_zero_of_not_pos hpos)
    exact iff_of_false Bool.false_ne_true List.not_mem_nil

variable {F : Type}

/-- The function removes the elements at increasing positions and nothing else: in place `k`
of its answer is the element at the `k`-th position that is not listed. -/
def Removes (remove : List Nat → List F → List F) : Prop :=
  ∀ positions elements, arePositions positions elements.length = true →
    ∀ k : Nat, (remove positions elements)[k]? = elements[Nat.nth (· ∉ positions) k]?

/-- Leaves out the rows that are found by searching, and removes columns from the others. -/
def leaveOut (remove : List Nat → List F → List F) (rows columns : List Nat)
    (data : List (List F)) : List (List F) :=
  (data.zipIdx.filter fun row => !searches rows row.2).map fun row => remove columns row.1

theorem removes_dropPositions : Removes (F := F) dropPositions :=
  fun positions elements _ => getElem?_dropPositions_eq positions elements

/-- Searching and removing leave the rows and numbers that are at other positions. -/
theorem leaveOut_eq {remove : List Nat → List F → List F} (hremove : Removes remove)
    {rows columns : List Nat} {data : List (List F)} (hrows : rows.Pairwise (· < ·))
    (hcolumns : ∀ row ∈ data, arePositions columns row.length = true) :
    leaveOut remove rows columns data = (dropPositions rows data).map (dropPositions columns) := by
  have hsearch : ∀ row ∈ data.zipIdx, (!searches rows row.2) = !rows.contains row.2 := by
    intro row _
    rw [Bool.eq_iff_iff.mpr ((searches_iff hrows row.2).trans List.contains_iff_mem.symm)]
  rw [leaveOut, dropPositions, List.map_map, List.filter_congr hsearch]
  refine List.map_congr_left fun row hrow => List.ext_getElem? fun k => ?_
  have hdata := List.fst_mem_of_mem_zipIdx (List.mem_filter.mp hrow).1
  exact (hremove columns row.1 (hcolumns _ hdata) k).trans
    (getElem?_dropPositions_eq columns row.1 k).symm

end Rows

/-! ## Matrices -/

namespace Matrix

variable {F : Type} {m n : Matrix F} {rows columns : List Nat}

theorem exists_without (hrows : arePositions rows m.height = true)
    (hcolumns : arePositions columns m.width = true) :
    ∃ n, m.without rows columns = .ok n ∧
      n.rows = (dropPositions rows m.rows).map (dropPositions columns) ∧
      n.width = (keptPositions columns m.width).length := by
  unfold without
  rw [if_pos (by rw [hrows, hcolumns]; rfl)]
  exact ⟨_, rfl, rfl, rfl⟩

/-- Where a row or a column is missing in what is left, it is missing before. -/
theorem entry_eq_of_rows_eq (h : n.rows = (dropPositions rows m.rows).map (dropPositions columns))
    (i j : Nat) :
    n.entry i j = m.entry (Nat.nth (· ∉ rows) i) (Nat.nth (· ∉ columns) j) := by
  unfold entry row Fault.fetch
  rw [h, List.getElem?_map, getElem?_dropPositions_eq]
  cases m.rows[Nat.nth (· ∉ rows) i]? with
  | none => rfl
  | some row =>
    simp only [Option.map_some, bind, Except.bind]
    rw [getElem?_dropPositions_eq]

/-- Leaving out rows and columns gives a matrix that is smaller by as many, and in row `i`
and column `j` has the entry in the `i`-th row and the `j`-th column that are not listed.
Searching for rows and removing columns by position gives its rows.  To leave out others
later, moved down by the number of smaller ones that are gone, is to leave out all of them
at once. -/
theorem without_without (hrows : arePositions rows m.height = true)
    (hcolumns : arePositions columns m.width = true) :
    ∃ n, m.without rows columns = .ok n ∧ n.height + rows.length = m.height ∧
      n.width + columns.length = m.width ∧
      (∀ row ∈ n.rows, row.length + columns.length = m.width) ∧
      (∀ i j, n.entry i j = m.entry (Nat.nth (· ∉ rows) i) (Nat.nth (· ∉ columns) j)) ∧
      (∀ remove, Rows.Removes remove → Rows.leaveOut remove rows columns m.rows = n.rows) ∧
      ∀ moreRows moreColumns, arePositions moreRows m.height = true →
        arePositions moreColumns m.width = true → rows.Disjoint moreRows →
        columns.Disjoint moreColumns →
        ∃ u, n.without (moreRows.map (shiftDown rows)) (moreColumns.map (shiftDown columns)) =
            .ok u ∧ m.without (rows.merge moreRows) (columns.merge moreColumns) = .ok u := by
  obtain ⟨n, hn, hleft, hwidth⟩ := exists_without hrows hcolumns
  have hheight : n.height = (keptPositions rows m.height).length := by
    show n.rows.length = _
    rw [hleft, List.length_map, length_dropPositions]
    rfl
  have hsmaller : n.width + columns.length = m.width := by
    rw [hwidth, length_keptPositions_add hcolumns]
  refine ⟨n, hn, ?_, hsmaller, fun row hrow => ?_, entry_eq_of_rows_eq hleft,
    fun remove hremove => ?_,
    fun moreRows moreColumns hmoreRows hmoreColumns hrowsApart hcolumnsApart => ?_⟩
  · rw [hheight, length_keptPositions_add hrows]
  · rw [n.length_of_mem row hrow, hsmaller]
  · rw [hleft]
    refine Rows.leaveOut_eq hremove (arePositions_iff.mp hrows).1 fun row hrow => ?_
    rwa [m.length_of_mem row hrow]
  · have hlaterColumns := arePositions_map_shiftDown hcolumns hmoreColumns hcolumnsApart
    have hallColumns := arePositions_merge hcolumns hmoreColumns hcolumnsApart
    obtain ⟨u, hu, huRows, huWidth⟩ := n.exists_without
      (hheight ▸ arePositions_map_shiftDown hrows hmoreRows hrowsApart) (hwidth ▸ hlaterColumns)
    obtain ⟨v, hv, hvRows, hvWidth⟩ := m.exists_without
      (arePositions_merge hrows hmoreRows hrowsApart) hallColumns
    have hsame : u = v := by
      refine eq_of_rows_eq ?_ ?_
      · rw [huRows, hvRows, hleft, dropPositions_map, List.map_map,
          dropPositions_dropPositions (nodup_of_arePositions hrows) hrowsApart]
        exact List.map_congr_left fun row _ =>
          dropPositions_dropPositions (nodup_of_arePositions hcolumns) hcolumnsApart row
      · have hfirst := length_keptPositions_add hcolumns
        have hlater := length_keptPositions_add hlaterColumns
        have hall := length_keptPositions_add hallColumns
        rw [List.length_map] at hlater
        rw [List.length_merge] at hall
        rw [huWidth, hvWidth, hwidth]
        omega
    exact ⟨u, hu, hsame ▸ hv⟩

/-- A matrix of three rows and columns, of which the middle is left. -/
def threefoldMatrix : Matrix Int := ⟨[[1, 2, 0], [2, 4, 6], [0, 1, -1]], 3, by decide⟩

/-- First the first row and the last column go, and then what was the last row, as the
second one, and the first column. -/
theorem without_without_threefoldMatrix :
    ∃ n u, threefoldMatrix.without [0] [2] = .ok n ∧ n.entry 1 0 = .ok 0 ∧
      Rows.leaveOut dropPositions [0] [2] threefoldMatrix.rows = n.rows ∧
      n.without [1] [0] = .ok u ∧ threefoldMatrix.without [0, 2] [0, 2] = .ok u ∧
      u.entry 0 0 = .ok 4 := by
  have hrows : arePositions [0] threefoldMatrix.height = true := by decide
  have hcolumns : arePositions [2] threefoldMatrix.width = true := by decide
  obtain ⟨n, hn, -, -, -, hentry, hleaveOut, hmore⟩ := without_without hrows hcolumns
  obtain ⟨u, hu, hboth⟩ := hmore [2] [0] (by decide) (by decide) (by simp) (by simp)
  have hresult : (threefoldMatrix.without [0, 2] [0, 2]).toOption.map Matrix.rows = some [[4]] := by
    decide
  have hrow : Nat.nth (· ∉ [0]) 1 = 2 := Nat.nth_count (p := (· ∉ [0])) (n := 2) (by decide)
  have hcolumn : Nat.nth (· ∉ [2]) 0 = 0 := Nat.nth_count (p := (· ∉ [2])) (n := 0) (by decide)
  have hmerged : [0].merge [2] = [0, 2] ∧ [2].merge [0] = [0, 2] := by simp
  rw [hmerged.1, hmerged.2] at hboth
  have hleft : u.rows = [[4]] := by
    rw [hboth] at hresult
    exact Option.some.inj hresult
  refine ⟨n, u, hn, ?_, hleaveOut _ Rows.removes_dropPositions, hu, hboth, ?_⟩
  · rw [hentry, hrow, hcolumn]
    rfl
  · exact entry_eq_ok_iff.mpr ⟨[4], congrArg (·[0]?) hleft, rfl⟩

end Matrix

end PrimalSimplex
