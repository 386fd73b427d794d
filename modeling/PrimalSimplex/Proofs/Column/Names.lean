/-
  `Proofs.Column.Names`: labels and the texts that show them.

  A text begins with a letter that depends on the kind of its label.  A number, a dash or
  two more letters may follow, and with none of these does a text begin.  So different
  labels have different texts, and texts one right after another can be told apart.
-/
import Mathlib.Data.List.SplitBy
import PrimalSimplex.Column.Label

set_option autoImplicit false

namespace PrimalSimplex.Column.Label

/-! ## Single texts -/

/-- Different labels are shown by different texts. -/
theorem text_injective : Function.Injective text := by
  have hread : ∀ i, Nat.ofDigitChars 10 (Nat.toDigits 10 i) 0 = i := fun _ =>
    Nat.ofDigitChars_ten_toDigits
  have hdigits : ∀ i j, Nat.toDigits 10 i = Nat.toDigits 10 j ↔ i = j := fun i j =>
    (Function.LeftInverse.injective hread).eq_iff
  have hdash : ∀ i, Nat.toDigits 10 i ≠ ['-'] := by
    intro i h
    have hmem : '-' ∈ Nat.toDigits 10 i := h ▸ List.mem_singleton_self '-'
    exact absurd (Nat.isDigit_of_mem_toDigits (by omega) (by omega) hmem) (by decide)
  intro a b h
  have hchars := congrArg String.toList h
  revert hchars
  cases a <;> cases b <;> simp [text, hdigits, hdash, fun i => (hdash i).symm]

/-- The letter that a text begins with. -/
def letter : Label → Char
  | auxiliary => 'W'
  | objective => 'Z'
  | decision _ | offset => 'x'
  | slack _ => 's'
  | artificial _ => 'a'
  | bound => 'R'

/-- What follows the first letter of a text. -/
def ending : Label → List Char
  | auxiliary | objective => []
  | decision i | slack i | artificial i => Nat.toDigits 10 i
  | offset => ['-']
  | bound => ['H', 'S']

theorem toList_text (label : Label) : label.text.toList = label.letter :: label.ending := by
  cases label with
  | auxiliary | objective | offset | bound => rfl
  | decision i | slack i | artificial i =>
    rw [text, String.toList_append, Nat.toString_eq_repr, Nat.toList_repr]
    rfl

/-- An artificial variable is known by the first letter. -/
theorem startsWith_text_iff (label : Label) :
    label.text.startsWith "a" = true ↔ label.isArtificial = true := by
  have hfirst : label.text.startsWith "a" = true ↔ 'a' = label.letter := by
    rw [String.startsWith_string_iff, toList_text]
    show ['a'] <+: _ ↔ _
    rw [List.cons_prefix_cons]
    exact and_iff_left (List.nil_prefix ..)
  rw [hfirst]
  cases label <;> simp [letter, isArtificial]

/-! ## Characters -/

/-- Whether a text begins with the character. -/
def isLetter (c : Char) : Bool := ['W', 'Z', 'x', 's', 'a', 'R'].contains c

/-- Whether the character may follow in a text. -/
def isEnding (c : Char) : Bool := c.isDigit || ['-', 'H', 'S'].contains c

/-- Whether the character is one that texts are made of. -/
def isPlain (c : Char) : Bool := isLetter c || isEnding c

theorem isLetter_letter (label : Label) : isLetter label.letter = true := by
  cases label <;> rfl

theorem isEnding_of_mem_ending {label : Label} {c : Char} (h : c ∈ label.ending) :
    isEnding c = true := by
  cases label with
  | auxiliary | objective => cases h
  | offset =>
    obtain rfl := List.mem_singleton.mp h
    rfl
  | bound =>
    rcases List.mem_pair.mp h with rfl | rfl
    · rfl
    · rfl
  | decision i | slack i | artificial i =>
    have hdigit : c.isDigit = true := Nat.isDigit_of_mem_toDigits (by omega) (by omega) h
    rw [isEnding, hdigit, Bool.true_or]

/-- Inside of a text, no other one begins. -/
theorem isLetter_of_mem_ending {label : Label} {c : Char} (h : c ∈ label.ending) :
    isLetter c = false := by
  refine Bool.eq_false_iff.mpr fun hletter => ?_
  have hnone : (['W', 'Z', 'x', 's', 'a', 'R'].all fun d => !isEnding d) = true := by decide
  have hend := List.all_eq_true.mp hnone c (List.contains_iff_mem.mp hletter)
  rw [isEnding_of_mem_ending h] at hend
  cases hend

theorem isPlain_of_mem_text {label : Label} {c : Char} (h : c ∈ label.text.toList) :
    isPlain c = true := by
  rw [toList_text] at h
  rcases List.mem_cons.mp h with rfl | h
  · rw [isPlain, isLetter_letter, Bool.true_or]
  · rw [isPlain, isEnding_of_mem_ending h, Bool.or_true]

/-- A character of another sort is in no text. -/
theorem ne_of_mem_text {label : Label} {c d : Char} (h : c ∈ label.text.toList)
    (hd : isPlain d = false) : c ≠ d := by
  rintro rfl
  exact Bool.false_ne_true (hd.symm.trans (isPlain_of_mem_text h))

/-- To leave out such characters changes no text. -/
theorem filter_text (label : Label) {d : Char} (hd : isPlain d = false) :
    label.text.toList.filter (· ≠ d) = label.text.toList :=
  List.filter_eq_self.mpr fun _ h => decide_eq_true (ne_of_mem_text h hd)

/-! ## Texts one after another -/

/-- Takes texts apart that are written one after another. -/
def readTexts (chars : List Char) : List String :=
  (chars.splitBy fun _ next => !isLetter next).map String.ofList

theorem readTexts_flatMap (labels : List Label) :
    readTexts (labels.flatMap fun label => label.text.toList) = labels.map text := by
  have hsplit : (labels.map fun label => label.text.toList).flatten.splitBy
      (fun _ next => !isLetter next) = labels.map fun label => label.text.toList := by
    refine List.splitBy_flatten ?_ ?_ ?_
    · intro hmem
      obtain ⟨label, _, hnil⟩ := List.mem_map.mp hmem
      rw [toList_text] at hnil
      cases hnil
    · intro chars hmem
      obtain ⟨label, _, rfl⟩ := List.mem_map.mp hmem
      rw [toList_text]
      refine (List.pairwise_cons.mpr ⟨fun c hc => ?_, ?_⟩).isChain
      · rw [isLetter_of_mem_ending hc]
        rfl
      · refine List.pairwise_of_forall_mem_list fun _ _ c hc => ?_
        rw [isLetter_of_mem_ending hc]
        rfl
    · refine (List.pairwise_of_forall_mem_list fun first hfirst next hnext => ?_).isChain
      obtain ⟨a, _, rfl⟩ := List.mem_map.mp hfirst
      obtain ⟨b, _, rfl⟩ := List.mem_map.mp hnext
      refine ⟨by simp [toList_text], by simp [toList_text], ?_⟩
      simp only [toList_text, List.head_cons, isLetter_letter]
      rfl
  rw [readTexts, List.flatMap_def, hsplit, List.map_map]
  exact List.map_congr_left fun label _ => String.ofList_toList

end PrimalSimplex.Column.Label
