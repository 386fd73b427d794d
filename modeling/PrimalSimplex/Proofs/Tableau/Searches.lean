/-
  `Proofs.Tableau.Searches`: how the rules go about it.

  The rules were defined on the list of profitable columns, as if all costs were known.
  A rule does not make this list.  It reads one cost after another, and ends as soon as it
  may: from the first column on, or from behind the last one and then from the first one
  up to it, if that still is a variable column.  For the least cost it goes through all
  columns, with the best one so far in hand, and whether a tableau is optimal is a search
  of its own.  Below, each of them comes to what the rule says, in any arithmetic and
  whatever is remembered.
-/
import PrimalSimplex.Proofs.Tableau.RoundRobin

set_option autoImplicit false

namespace PrimalSimplex

variable {F : Type}

/-! ## Searches that may fail -/

namespace Fault

variable {α : Type} {test : α → Except Fault Bool} {p : α → Bool} {elements : List α}

/-- A test without faults finds what the usual search does. -/
theorem findM?_eq_ok (h : ∀ a ∈ elements, test a = .ok (p a)) :
    elements.findM? test = .ok (elements.find? p) := by
  induction elements with
  | nil => rfl
  | cons a rest ih =>
    have hrest := ih fun b hb => h b (List.mem_cons_of_mem _ hb)
    rw [List.findM?, h a (List.mem_cons_self ..), List.find?_cons]
    cases p a with
    | true => rfl
    | false => exact hrest

theorem allM_eq_ok (h : ∀ a ∈ elements, test a = .ok (p a)) :
    elements.allM test = .ok (elements.all p) := by
  induction elements with
  | nil => rfl
  | cons a rest ih =>
    have hrest := ih fun b hb => h b (List.mem_cons_of_mem _ hb)
    rw [List.allM, h a (List.mem_cons_self ..), List.all_cons]
    cases p a with
    | true => exact hrest
    | false => rfl

/-- Steps without faults can be made as if there were none. -/
theorem foldlM_eq_ok {β : Type} {step : β → α → Except Fault β} {next : β → α → β}
    (h : ∀ b, ∀ a ∈ elements, step b a = .ok (next b a)) (start : β) :
    elements.foldlM step start = .ok (elements.foldl next start) := by
  induction elements generalizing start with
  | nil => rfl
  | cons a rest ih =>
    rw [List.foldlM_cons, h start a (List.mem_cons_self ..), List.foldl_cons]
    exact ih (fun b c hc => h b c (List.mem_cons_of_mem _ hc)) _

end Fault

/-! ## The searches -/

section Least

variable [Scalar F]

/-- The better one of the best column so far, if there is one, and the next one. -/
def keepLower (best : Option (Nat × F)) (next : Nat × F) : Option (Nat × F) :=
  match best with
  | some existing => some (if Scalar.isLt next.2 existing.2 then next else existing)
  | none => some next

/-- The first column with the least cost is what is kept in the end. -/
theorem leastCost?_eq_foldl (columns : List (Nat × F)) :
    leastCost? columns = (columns.foldl keepLower none).map (·.1) := by
  cases columns with
  | nil => rfl
  | cons first rest =>
    have hkept : ∀ best : Nat × F, rest.foldl keepLower (some best) =
        some (rest.foldl (fun best next =>
          if Scalar.isLt next.2 best.2 then next else best) best) :=
      fun best => List.foldl_hom some fun _ _ => rfl
    rw [List.foldl_cons]
    exact congrArg (Option.map Prod.fst) (hkept first).symm

end Least

namespace Tableau

variable [Scalar F]

/-- Whether the variable of a column improves row 0. -/
def improves (t : Tableau F) (column : Nat) : Except Fault Bool := do
  return Scalar.isNegative (← t.cost column) t.tolerance

/-- Searches the columns from one number to before another one. -/
def searchRange (t : Tableau F) (start stop : Nat) : Except Fault (Option Nat) :=
  (List.range' start (stop - start)).findM? t.improves

/-- Searches the columns behind the last one and then those up to it.  Columns disappear
with the first phase, so the last one may not be there any more. -/
def searchFrom (t : Tableau F) (last : Option Nat) : Except Fault (Option Nat) :=
  match last with
  | none => t.searchRange t.objectives t.boundColumn
  | some last =>
    if t.objectives ≤ last ∧ last < t.boundColumn then do
      match ← t.searchRange (last + 1) t.boundColumn with
      | some column => return some column
      | none => t.searchRange t.objectives (last + 1)
    else t.searchRange t.objectives t.boundColumn

/-- The best column so far and its cost, after one more column was looked at. -/
def lowerCost (t : Tableau F) (best : Option (Nat × F)) (column : Nat) :
    Except Fault (Option (Nat × F)) := do
  let cost ← t.cost column
  return if Scalar.isNegative cost t.tolerance then keepLower best (column, cost) else best

/-- Searches all columns for the least cost. -/
def searchLeast (t : Tableau F) : Except Fault (Option Nat) := do
  return (← t.variableColumns.foldlM t.lowerCost none).map (·.1)

/-- Looks for a column that improves row 0, and answers whether there is none. -/
def noneImproves (t : Tableau F) : Except Fault Bool :=
  t.variableColumns.allM fun column => do
    return !Scalar.isNegative (← t.cost column) t.tolerance

end Tableau

namespace Selector

variable [Scalar F]

/-- The column that a rule finds. -/
def find (s : Selector) (t : Tableau F) : Except Fault (Option Nat) :=
  match s.rule with
  | .steepest => t.searchLeast
  | .first => t.searchRange t.objectives t.boundColumn
  | .roundRobin => t.searchFrom s.last

/-- Chooses a column by searching for it. -/
def search (s : Selector) (t : Tableau F) : Except Fault (Option Nat × Selector) := do
  let chosen ← s.find t
  return (chosen, { s with last := chosen })

end Selector

/-! ## What they find -/

namespace Tableau

variable [Scalar F] {t : Tableau F}

theorem cost_eq_ok_of_lt (hrow : 0 < t.height) {j : Nat} (hj : j < t.boundColumn) :
    t.cost j = .ok (t.coeff 0 j) :=
  entry_eq_ok hrow (hj.trans_le (Nat.sub_le ..))

theorem searchRange_eq_ok (hrow : 0 < t.height) {start stop : Nat} (hstop : stop ≤ t.boundColumn) :
    t.searchRange start stop = .ok ((List.range' start (stop - start)).find? fun j =>
      Scalar.isNegative (t.coeff 0 j) t.tolerance) := by
  refine Fault.findM?_eq_ok fun j hj => ?_
  have hlt : j < t.boundColumn := by
    have := List.mem_range'_1.mp hj
    omega
  rw [improves, cost_eq_ok_of_lt hrow hlt]
  rfl

omit [Scalar F] in
/-- The order of a search from behind a variable column: two ranges. -/
theorem searchOrder_eq_append {last : Nat} (hlow : t.objectives ≤ last)
    (hhigh : last < t.boundColumn) :
    t.searchOrder (some last) = List.range' (last + 1) (t.boundColumn - (last + 1)) ++
      List.range' t.objectives (last + 1 - t.objectives) := by
  have hsplit : t.variableColumns = List.range' t.objectives (last + 1 - t.objectives) ++
      List.range' (last + 1) (t.boundColumn - (last + 1)) := by
    have hsize : t.boundColumn - t.objectives =
        (last + 1 - t.objectives) + (t.boundColumn - (last + 1)) := by omega
    have hnext : t.objectives + (last + 1 - t.objectives) = last + 1 := by omega
    rw [variableColumns, hsize, ← List.range'_append_1, hnext]
  have hturn : last + 1 - t.objectives =
      (List.range' t.objectives (last + 1 - t.objectives)).length := List.length_range'.symm
  have hrotate := List.rotate_append_length_eq
    (List.range' t.objectives (last + 1 - t.objectives))
    (List.range' (last + 1) (t.boundColumn - (last + 1)))
  rw [← hsplit, ← hturn] at hrotate
  rw [searchOrder, if_pos (mem_variableColumns.mpr ⟨hlow, hhigh⟩), hrotate]

theorem searchFrom_eq_ok (hrow : 0 < t.height) (last : Option Nat) :
    t.searchFrom last = .ok ((t.searchOrder last).find? fun j =>
      Scalar.isNegative (t.coeff 0 j) t.tolerance) := by
  cases last with
  | none => exact searchRange_eq_ok hrow (Nat.le_refl _)
  | some last =>
    rw [searchFrom]
    split
    · rename_i hcolumn
      rw [searchOrder_eq_append hcolumn.1 hcolumn.2, List.find?_append,
        searchRange_eq_ok hrow (Nat.le_refl _), searchRange_eq_ok hrow hcolumn.2]
      cases (List.range' (last + 1) (t.boundColumn - (last + 1))).find? fun j =>
          Scalar.isNegative (t.coeff 0 j) t.tolerance with
      | some column => rfl
      | none => rfl
    · rename_i hstale
      rw [searchOrder, if_neg (mt mem_variableColumns.mp hstale)]
      exact searchRange_eq_ok hrow (Nat.le_refl _)

/-- The columns that are passed over make no difference to what is kept. -/
theorem searchLeast_eq_ok (hrow : 0 < t.height) :
    t.searchLeast = .ok (leastCost? (t.profitable.map fun j => (j, t.coeff 0 j))) := by
  have hstep : ∀ best, ∀ j ∈ t.variableColumns, t.lowerCost best j =
      .ok (if Scalar.isNegative (t.coeff 0 j) t.tolerance then keepLower best (j, t.coeff 0 j)
        else best) := by
    intro best j hj
    rw [lowerCost, cost_eq_ok_of_lt hrow (mem_variableColumns.mp hj).2]
    rfl
  rw [searchLeast, Fault.foldlM_eq_ok hstep, leastCost?_eq_foldl, List.foldl_map, profitable,
    List.foldl_filter]
  rfl

/-- A tableau is optimal if no column is found that improves row 0. -/
theorem noneImproves_eq_isOptimal (hrow : 0 < t.height) : t.noneImproves = t.isOptimal := by
  have hscan : t.noneImproves = .ok (t.variableColumns.all fun j =>
      !Scalar.isNegative (t.coeff 0 j) t.tolerance) := by
    refine Fault.allM_eq_ok fun j hj => ?_
    rw [cost_eq_ok_of_lt hrow (mem_variableColumns.mp hj).2]
    rfl
  rw [hscan, isOptimal_eq_ok hrow, profitable]
  refine congrArg Except.ok (Bool.eq_iff_iff.mpr ?_)
  simp [List.filter_eq_nil_iff]

end Tableau

namespace Selector

variable [Scalar F] {t : Tableau F}

theorem find_eq_ok (hrow : 0 < t.height) (s : Selector) : s.find t = .ok (s.choice? t) := by
  unfold find choice?
  cases hrule : s.rule with
  | steepest => exact Tableau.searchLeast_eq_ok hrow
  | first =>
    rw [Tableau.profitable, List.head?_filter]
    exact Tableau.searchRange_eq_ok hrow (Nat.le_refl _)
  | roundRobin =>
    rw [nextAfter?_eq_head?, cycleAfter_profitable, List.head?_filter]
    exact Tableau.searchFrom_eq_ok hrow s.last

/-- A search takes the column that the rule takes, and remembers the same. -/
theorem search_eq_select (hrow : 0 < t.height) (s : Selector) : s.search t = s.select t := by
  rw [search, find_eq_ok hrow, select_eq_ok hrow]
  rfl

end Selector

end PrimalSimplex
