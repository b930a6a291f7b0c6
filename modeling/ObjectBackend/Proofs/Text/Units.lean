import Mathlib.Algebra.Group.Nat.Defs
import Mathlib.Data.Set.Basic
import Mathlib.Tactic.Lemma
import ObjectBackend.Text.Units

/-!
# Codes that tell where they end

A code is self-delimiting if it is known from what follows where the code of one thing ends
(`SelfDelimiting`). Codes of this kind can be put one behind the other, and a list is known from the
codes of its elements (`SelfDelimiting.eq_of_flatMap_eq`). The code units of characters are such a
code, since the units of a surrogate pair are not used for characters of their own; so a text is
known from its code units (`unitsOf_injective`), and a number from its digits of fixed width.
-/

namespace ObjectBackend.Text

variable {α β : Type}

/-- The codes of the elements of a set tell by themselves where they end. -/
def SelfDelimiting (s : Set α) (code : α → List β) : Prop :=
  ∀ ⦃a⦄, a ∈ s → ∀ ⦃b⦄, b ∈ s → ∀ ⦃xs ys : List β⦄, code a ++ xs = code b ++ ys → a = b ∧ xs = ys

namespace SelfDelimiting

variable {s : Set α} {code : α → List β}

/-- Different elements have different codes. -/
lemma inj (delimiting : SelfDelimiting s code) {a b : α} (mema : a ∈ s) (memb : b ∈ s)
    (eq : code a = code b) : a = b :=
  (delimiting mema memb (congrArg (· ++ []) eq)).1

/-- Lists of elements are told apart by the codes one behind the other, if no code is empty. -/
lemma eq_of_flatMap_eq (delimiting : SelfDelimiting s code) (nonempty : ∀ a, code a ≠ [])
    {as bs : List α} (mema : ∀ a ∈ as, a ∈ s) (memb : ∀ b ∈ bs, b ∈ s)
    (eq : as.flatMap code = bs.flatMap code) : as = bs := by
  induction as generalizing bs with
  | nil =>
    cases bs with
    | nil => rfl
    | cons b bs =>
      rw [List.flatMap_nil, List.flatMap_cons] at eq
      exact absurd (List.append_eq_nil_iff.1 eq.symm).1 (nonempty b)
  | cons a as ih =>
    cases bs with
    | nil =>
      rw [List.flatMap_nil, List.flatMap_cons] at eq
      exact absurd (List.append_eq_nil_iff.1 eq).1 (nonempty a)
    | cons b bs =>
      rw [List.flatMap_cons, List.flatMap_cons] at eq
      obtain ⟨mema, memas⟩ := List.forall_mem_cons.1 mema
      obtain ⟨memb, membs⟩ := List.forall_mem_cons.1 memb
      obtain ⟨rfl, rest⟩ := delimiting mema memb eq
      rw [ih memas membs rest]

end SelfDelimiting

/-- What comes before the first element of a kind is known from the whole. -/
lemma eq_of_append_cons_eq {P : β → Bool} {xs xs' ys ys' : List β} {b b' : β}
    (eq : xs ++ b :: ys = xs' ++ b' :: ys') (before : ∀ x ∈ xs, P x = false)
    (before' : ∀ x ∈ xs', P x = false) (stops : P b = true) (stops' : P b' = true) :
    xs = xs' ∧ b :: ys = b' :: ys' := by
  have part (xs ys : List β) {b : β} (plain : ∀ x ∈ xs, P x = false) (stops : P b = true) :
      (xs ++ b :: ys).takeWhile (!P ·) = xs := by
    rw [List.takeWhile_append_of_pos (by simpa using plain), List.takeWhile_cons_of_neg (by simpa),
      List.append_nil]
  have first : xs = xs' := by
    rw [← part xs ys before stops, eq, part xs' ys' before' stops']
  subst first
  exact ⟨rfl, List.append_cancel_left eq⟩

/-- Hexadecimal digits are written differently. -/
lemma hexDigit_inj {m n : Nat} (ltm : m < 16) (ltn : n < 16) (eq : hexDigit m = hexDigit n) :
    m = n := by
  have distinct : ∀ m < 16, ∀ n < 16, hexDigit m = hexDigit n → m = n := by decide
  exact distinct m ltm n ltn eq

/-- A number that fits in a fixed width is known from its digits. -/
lemma fixedHex_inj {width m n : Nat} (ltm : m < 16 ^ width) (ltn : n < 16 ^ width)
    (eq : fixedHex width m = fixedHex width n) : m = n := by
  induction width generalizing m n with
  | zero => rw [Nat.lt_one_iff.1 ltm, Nat.lt_one_iff.1 ltn]
  | succ width ih =>
    rw [Nat.pow_succ'] at ltm ltn
    obtain ⟨front, last⟩ := List.append_inj eq (by rw [length_fixedHex, length_fixedHex])
    have quotients := ih (Nat.div_lt_of_lt_mul ltm) (Nat.div_lt_of_lt_mul ltn) front
    have remainders := hexDigit_inj (Nat.mod_lt m (by decide)) (Nat.mod_lt n (by decide))
      (List.head_eq_of_cons_eq last)
    rw [← Nat.div_add_mod m 16, quotients, remainders, Nat.div_add_mod]

/-- A code unit has sixteen bits. -/
lemma lt_of_mem_units {c : Char} {unit : Nat} (mem : unit ∈ units c) : unit < 0x10000 := by
  have valid : c.toNat.isValidChar := c.valid
  rw [units] at mem
  split at mem
  case isTrue small =>
    rw [List.mem_singleton.1 mem]
    exact small
  case isFalse =>
    simp only [List.mem_cons, List.not_mem_nil, or_false] at mem
    omega

/-- A code unit has sixteen bits. -/
lemma lt_of_mem_unitsOf {text : String} {unit : Nat} (mem : unit ∈ unitsOf text) :
    unit < 0x10000 := by
  obtain ⟨c, _, mem⟩ := List.mem_flatMap.1 mem
  exact lt_of_mem_units mem

/-- A character has code units. -/
lemma units_ne_nil (c : Char) : units c ≠ [] := by
  rw [units]
  split <;> exact List.cons_ne_nil _ _

/-- The code units of a character tell where they end. -/
lemma units_selfDelimiting : SelfDelimiting Set.univ units := by
  intro c _ d _ xs ys eq
  have validc : c.toNat.isValidChar := c.valid
  have validd : d.toNat.isValidChar := d.valid
  rw [units, units] at eq
  split at eq <;> split at eq <;>
    simp only [List.cons_append, List.nil_append, List.cons.injEq] at eq
  -- the units of a pair are no characters of their own
  case isTrue.isTrue => exact ⟨Char.toNat_inj.1 eq.1, eq.2⟩
  case isTrue.isFalse => omega
  case isFalse.isTrue => omega
  case isFalse.isFalse =>
    obtain ⟨high, low, rest⟩ := eq
    exact ⟨Char.toNat_inj.1 (by omega), rest⟩

/-- A text is known from its code units. -/
lemma unitsOf_injective : Function.Injective unitsOf := fun _ _ eq =>
  String.toList_inj.1 (units_selfDelimiting.eq_of_flatMap_eq units_ne_nil
    (fun _ _ => Set.mem_univ _) (fun _ _ => Set.mem_univ _) eq)

end ObjectBackend.Text
