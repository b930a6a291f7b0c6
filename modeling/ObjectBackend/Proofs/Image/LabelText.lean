import Mathlib.Logic.Function.Defs
import Mathlib.Tactic.Lemma
import ObjectBackend.Image.Label
import ObjectBackend.Proofs.Source.Validity

/-!
# Texts of labels

Labels that differ are written differently. A label is a name of its own or, behind its last dot,
says what it is of the label before the dot.
-/

namespace ObjectBackend

/-- Texts that are put together at a dot come apart there, if there is no dot behind it. -/
lemma dot_inj {xs xs' ys ys' : List Char} (eq : xs ++ '.' :: ys = xs' ++ '.' :: ys')
    (plain : '.' ∉ ys) (plain' : '.' ∉ ys') : xs = xs' ∧ ys = ys' := by
  rcases List.append_eq_append_iff.1 eq with ⟨zs, rfl, rest⟩ | ⟨zs, rfl, rest⟩
  · cases zs with
    | nil => exact ⟨(List.append_nil xs).symm, List.tail_eq_of_cons_eq rest⟩
    | cons z zs =>
      rw [List.tail_eq_of_cons_eq rest] at plain
      exact absurd (List.mem_append_right _ (List.mem_cons_self ..)) plain
  · cases zs with
    | nil => exact ⟨List.append_nil xs', (List.tail_eq_of_cons_eq rest).symm⟩
    | cons z zs =>
      rw [List.tail_eq_of_cons_eq rest] at plain'
      exact absurd (List.mem_append_right _ (List.mem_cons_self ..)) plain'

/-- Numbers are written with digits. -/
lemma isDigit_of_mem_toString {n : Nat} {ch : Char} (mem : ch ∈ (toString n).toList) :
    ch.isDigit = true := by
  rw [Nat.toString_eq_repr, Nat.toList_repr] at mem
  exact Nat.isDigit_of_mem_toDigits (by decide) (by decide) mem

/-- Numbers are written without a dot. -/
lemma dot_not_mem_toString (n : Nat) : '.' ∉ (toString n).toList :=
  fun mem => absurd (isDigit_of_mem_toString mem) (by decide)

/-- Numbers that are written alike are the same. -/
lemma eq_of_toList_toString_eq {m n : Nat} (eq : (toString m).toList = (toString n).toList) :
    m = n := by
  rw [Nat.toString_eq_repr, Nat.toString_eq_repr, Nat.toList_repr, Nat.toList_repr] at eq
  rw [← Nat.ofDigitChars_ten_toDigits (n := m), eq, Nat.ofDigitChars_ten_toDigits]

/-- A number is not written like the end of a landing pad's label. -/
lemma toList_toString_ne (n : Nat) : (toString n).toList ≠ ['l', 'p'] := by
  intro eq
  have letter : 'l' ∈ (toString n).toList := eq ▸ List.mem_cons_self ..
  cases isDigit_of_mem_toString letter

namespace Label

/-- The label of a block is its number behind a letter. -/
lemma toList_text_block (b : BlockId) :
    (block b).text.toList = 'b' :: (toString b.index).toList := by
  simp [text, BlockId.text]

/-- The label of a landing pad is that of its block with a suffix. -/
lemma toList_text_landing (b : BlockId) :
    (landing b).text.toList = (block b).text.toList ++ '.' :: ['l', 'p'] := by
  simp [text]

/-- The label of a split part is that of the first part with a number. -/
lemma toList_text_split (first : Label) (number : Nat) :
    (split first number).text.toList = first.text.toList ++ '.' :: (toString number).toList := by
  simp [text]

/-- The labels that are names of their own. -/
def isName : Label → Bool
  | landing _ | split _ _ => false
  | _ => true

/-- Names of their own have no dot. -/
lemma dot_not_mem_text {l : Label} (name : l.isName = true) : '.' ∉ l.text.toList := by
  cases l with
  | block b =>
    rw [toList_text_block, List.mem_cons, not_or]
    exact ⟨by decide, dot_not_mem_toString _⟩
  | landing | split => cases name
  | entry | exit | unwind | init => decide

/-- Other labels have a dot. -/
lemma dot_mem_text {l : Label} (dotted : l.isName = false) : '.' ∈ l.text.toList := by
  cases l with
  | landing b =>
    rw [toList_text_landing]
    exact List.mem_append_right _ (List.mem_cons_self ..)
  | split first number =>
    rw [toList_text_split]
    exact List.mem_append_right _ (List.mem_cons_self ..)
  | entry | block | exit | unwind | init => cases dotted

/-- Labels with the same text are both names of their own or both not. -/
lemma isName_eq {l l' : Label} (eq : l.text = l'.text) : l.isName = l'.isName := by
  cases name : l.isName with
  | false =>
    cases name' : l'.isName with
    | false => rfl
    | true => exact absurd (eq ▸ dot_mem_text name) (dot_not_mem_text name')
  | true =>
    cases name' : l'.isName with
    | false => exact absurd (eq ▸ dot_mem_text name') (dot_not_mem_text name)
    | true => rfl

/-- Blocks with the same label are the same. -/
lemma block_text_injective {b b' : BlockId} (eq : (block b).text = (block b').text) : b = b' := by
  have digits := congrArg String.toList eq
  rw [toList_text_block, toList_text_block] at digits
  exact BlockId.eq_of_index_eq (eq_of_toList_toString_eq (List.tail_eq_of_cons_eq digits))

/-- No other name begins like that of a block. -/
lemma block_text_ne (b : BlockId) {text : String} (other : text.toList.head? ≠ some 'b') :
    (block b).text ≠ text := by
  rintro rfl
  rw [toList_text_block] at other
  exact other rfl

/-- Labels that are written alike are the same. -/
theorem text_injective : Function.Injective text := by
  intro l
  induction l with
  | split first number ih =>
    intro l' eq
    have dotted := isName_eq eq
    have chars := congrArg String.toList eq
    rw [toList_text_split] at chars
    cases l' with
    | split first' number' =>
      rw [toList_text_split] at chars
      obtain ⟨before, behind⟩ :=
        dot_inj chars (dot_not_mem_toString number) (dot_not_mem_toString number')
      rw [ih (String.toList_inj.1 before), eq_of_toList_toString_eq behind]
    | landing b =>
      rw [toList_text_landing] at chars
      obtain ⟨_, behind⟩ := dot_inj chars (dot_not_mem_toString number) (by decide)
      exact absurd behind (toList_toString_ne number)
    | entry | block | exit | unwind | init => cases dotted
  | landing b =>
    intro l' eq
    have dotted := isName_eq eq
    have chars := congrArg String.toList eq
    rw [toList_text_landing] at chars
    cases l' with
    | split first' number' =>
      rw [toList_text_split] at chars
      obtain ⟨_, behind⟩ := dot_inj chars (by decide) (dot_not_mem_toString number')
      exact absurd behind.symm (toList_toString_ne number')
    | landing b' =>
      rw [toList_text_landing] at chars
      obtain ⟨before, _⟩ := dot_inj chars (by decide) (by decide)
      rw [block_text_injective (String.toList_inj.1 before)]
    | entry | block | exit | unwind | init => cases dotted
  | block b =>
    intro l' eq
    cases l' with
    | block b' => rw [block_text_injective eq]
    | landing | split => cases isName_eq eq
    | entry | exit | unwind | init => exact absurd eq (block_text_ne b (by decide))
  | entry | exit | unwind | init =>
    intro l' eq
    cases l' with
    | block b => exact absurd eq.symm (block_text_ne b (by decide))
    | landing | split => cases isName_eq eq
    | entry | exit | unwind | init => first | rfl | exact absurd eq (by decide)

end Label

end ObjectBackend
