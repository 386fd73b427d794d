/-
  `Fault`: what an operation on rows and columns answers outside its domain.

  Rows and columns are addressed by number.  An address that does not exist is
  a fault, a value of its own and never a default entry, so that "no operation
  of a solver run leaves its matrix" is a statement about the run's answer.
-/
set_option autoImplicit false

namespace PrimalSimplex

/-- Why an operation has no result. -/
inductive Fault where
  /-- A row, a column or a basis entry was addressed that does not exist. -/
  | outOfRange
  /-- A multiple of a row was to be subtracted from that very row. -/
  | sameRow (row : Nat)
  deriving DecidableEq, Repr

namespace Fault

/-- The text of a fault that explains itself. -/
def message? : Fault → Option String
  | outOfRange => none
  | sameRow row => some s!"Can't subtract row {row} from itself"

/-- The element at a position, or the fault that there is none. -/
def fetch {α : Type} (elements : List α) (i : Nat) : Except Fault α :=
  match elements[i]? with
  | some a => .ok a
  | none => .error outOfRange

theorem fetch_eq_ok_iff {α : Type} {elements : List α} {i : Nat} {a : α} :
    fetch elements i = .ok a ↔ elements[i]? = some a := by
  unfold fetch
  cases elements[i]? with
  | none => simp
  | some b => simp

theorem fetch_of_lt {α : Type} {elements : List α} {i : Nat} (h : i < elements.length) :
    fetch elements i = .ok elements[i] :=
  fetch_eq_ok_iff.mpr (List.getElem?_eq_getElem h)

/-- What is left of a result when its fault is forgotten. -/
theorem eq_ok_of_toOption_eq_some {α : Type} {result : Except Fault α} {a : α}
    (h : result.toOption = some a) : result = .ok a := by
  cases result with
  | error fault => cases h
  | ok b => exact congrArg Except.ok (Option.some.inj h)

/-- Two operations in a row succeed exactly when both do. -/
theorem bind_eq_ok_iff {α β : Type} {first : Except Fault α} {next : α → Except Fault β} {b : β} :
    first >>= next = .ok b ↔ ∃ a, first = .ok a ∧ next a = .ok b := by
  constructor
  · intro h
    cases first with
    | error fault => cases h
    | ok a => exact ⟨a, rfl, h⟩
  · rintro ⟨a, rfl, h⟩
    exact h

/-- A list of operations that all succeed has their results as its result. -/
theorem mapM_eq_ok {α β : Type} {f : α → Except Fault β} {g : α → β} {elements : List α}
    (h : ∀ a ∈ elements, f a = .ok (g a)) : elements.mapM f = .ok (elements.map g) := by
  induction elements with
  | nil => rfl
  | cons a rest ih =>
    rw [List.mapM_cons, h a (List.mem_cons_self ..), ih fun b hb => h b (List.mem_cons_of_mem _ hb)]
    rfl

/-- The elements that pass a test which may itself be a fault. -/
def filter {α : Type} (test : α → Except Fault Bool) (elements : List α) :
    Except Fault (List α) := do
  let marks ← elements.mapM test
  return ((elements.zip marks).filter (·.2)).map (·.1)

/-- A test without faults selects as the usual filter does. -/
theorem filter_eq_ok {α : Type} {test : α → Except Fault Bool} {p : α → Bool} {elements : List α}
    (h : ∀ a ∈ elements, test a = .ok (p a)) : filter test elements = .ok (elements.filter p) := by
  have hzip : ((elements.zip (elements.map p)).filter (·.2)).map (·.1) = elements.filter p := by
    clear h
    induction elements with
    | nil => rfl
    | cons a rest ih => cases hp : p a <;> simp [hp, ih]
  simp [filter, mapM_eq_ok h, bind, Except.bind, pure, Except.pure, hzip]

end Fault

end PrimalSimplex
