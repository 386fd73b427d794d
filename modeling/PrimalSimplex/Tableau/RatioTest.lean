/-
  `Tableau.RatioTest`: which basic variable leaves when a column enters.

  As the entering variable grows, the basic variable of a row with a positive
  entry shrinks, and reaches zero when the entering variable has the ratio of
  right hand side and entry as its value.  The row with the least ratio has to
  give way.  Without any such row the variable can grow forever.

  Rows are scanned from the first one, with the least ratio so far and the rows
  that share it.  A ratio near the least one joins its rows and leaves the least
  ratio as it is; only a ratio that is less, and not near, starts afresh.
-/
import PrimalSimplex.Tableau.Basic

set_option autoImplicit false

namespace PrimalSimplex

variable {F : Type} [Scalar F]

/-! ## Least ratios -/

/-- The least ratio among some rows, and the rows that have it. -/
structure Ties (F : Type) where
  ratio : F
  rows : List Nat

namespace Ties

/-- Takes one more row into account. -/
def insert (tolerance : F) (ties : Ties F) (candidate : Nat × F) : Ties F :=
  if Scalar.near candidate.2 ties.ratio tolerance then
    { ties with rows := ties.rows ++ [candidate.1] }
  else if Scalar.isLt candidate.2 ties.ratio then ⟨candidate.2, [candidate.1]⟩
  else ties

/-- The ties among rows with their ratios; none if there is no row. -/
def ofCandidates? (tolerance : F) : List (Nat × F) → Option (Ties F)
  | [] => none
  | first :: rest => some (rest.foldl (insert tolerance) ⟨first.2, [first.1]⟩)

/-- There is a least ratio as soon as there is a row. -/
theorem ofCandidates?_eq_none_iff {tolerance : F} {candidates : List (Nat × F)} :
    ofCandidates? tolerance candidates = none ↔ candidates = [] := by
  cases candidates <;> simp [ofCandidates?]

/-- A least ratio is always that of some row. -/
theorem rows_ne_nil_of_ofCandidates? {tolerance : F} {candidates : List (Nat × F)} {ties : Ties F}
    (h : ofCandidates? tolerance candidates = some ties) : ties.rows ≠ [] := by
  cases candidates with
  | nil => cases h
  | cons first rest =>
    obtain rfl := Option.some.inj h
    refine List.foldlRecOn rest _ (motive := fun t : Ties F => t.rows ≠ []) (by simp) ?_
    intro t ht candidate _
    unfold insert
    split
    · simp
    · split
      · simp
      · exact ht

end Ties

/-! ## The leaving row -/

namespace Tableau

/-- The constraint rows with a positive entry in a column, and their ratios. -/
def candidateRows (t : Tableau F) (column : Nat) : Except Fault (List (Nat × F)) := do
  let rows ← Fault.filter
    (fun row => do return Scalar.isPositive (← t.entry row column) t.tolerance) t.constraintRows
  rows.mapM fun row => do return (row, (← t.bound row) / (← t.entry row column))

/-- The row whose basic variable gives way to a column.  Of several rows with the
least ratio it is the first one where an artificial variable is basic, as long as
artificial variables are to be driven out, and else the first one.  None if the
variable of the column can grow forever. -/
def leavingRow? (t : Tableau F) (column : Nat) : Except Fault (Option Nat) := do
  match Ties.ofCandidates? t.tolerance (← t.candidateRows column) with
  | none => return none
  | some ties =>
    if t.artificials = 0 then
      return ties.rows.head?
    else
      let artificial ← Fault.filter
        (fun row => do return (← t.basicLabel row).isArtificial) ties.rows
      return artificial.head?.or ties.rows.head?

end Tableau

end PrimalSimplex
