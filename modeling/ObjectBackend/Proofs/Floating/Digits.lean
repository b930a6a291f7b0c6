import Mathlib.Tactic.Lemma
import Mathlib.Tactic.Ring
import ObjectBackend.Json.Value

/-!
# Decimal digits

The number that digits write, and what a reader keeps of it: digits are absorbed in full as long
as their number fits in 64 bits (`absorb_eq`). A numeral is plain if its digits are digits, some of
them stand before the point, and the first of these is zero only if it stands alone.
-/

namespace ObjectBackend.Floating

/-- Decimal digits are worth what the standard library makes of them. -/
lemma digitsValue_eq (digits : List Char) : digitsValue digits = Nat.ofDigitChars 10 digits 0 := by
  simp only [digitsValue, Nat.ofDigitChars_eq_foldl, digitValue, Nat.mul_comm]

/-- Digits in front of others are worth as many powers of ten more as there are others. -/
lemma digitsValue_append (front back : List Char) :
    digitsValue (front ++ back) = digitsValue front * 10 ^ back.length + digitsValue back := by
  rw [digitsValue_eq, Nat.ofDigitChars_append, Nat.ofDigitChars_eq_ofDigitChars_zero,
    ← digitsValue_eq, ← digitsValue_eq, Nat.mul_comm]

/-- The first digit is worth a power of ten for each digit after it. -/
lemma digitsValue_cons (digit : Char) (digits : List Char) :
    digitsValue (digit :: digits) = digitValue digit * 10 ^ digits.length + digitsValue digits := by
  rw [← List.singleton_append, digitsValue_append]
  simp [digitsValue]

/-- The digits of a number are worth the number. -/
lemma digitsValue_toDigits (n : Nat) : digitsValue (Nat.toDigits 10 n) = n := by
  rw [digitsValue_eq, Nat.ofDigitChars_ten_toDigits]

/-- Zeros are worth nothing. -/
lemma digitsValue_replicate_zero (count : Nat) : digitsValue (List.replicate count '0') = 0 := by
  rw [digitsValue_eq, Nat.ofDigitChars_replicate_zero, Nat.mul_zero]

/-- A decimal digit is less than ten. -/
lemma digitValue_lt {digit : Char} (isDigit : digit.isDigit = true) : digitValue digit < 10 := by
  simp only [Char.isDigit, Bool.and_eq_true, decide_eq_true_eq] at isDigit
  have le : digit.toNat ≤ '9'.toNat := isDigit.2
  have ends : '9'.toNat - '0'.toNat < 10 := by decide
  rw [digitValue]
  omega

/-- Digits are worth less than the power of ten that has one more of them. -/
lemma digitsValue_lt {digits : List Char} (isDigit : ∀ c ∈ digits, c.isDigit = true) :
    digitsValue digits < 10 ^ digits.length := by
  induction digits with
  | nil => exact Nat.one_pos
  | cons digit digits ih =>
    obtain ⟨first, others⟩ := List.forall_mem_cons.1 isDigit
    have rest := ih others
    have scaled := Nat.mul_le_mul_right (10 ^ digits.length)
      (Nat.le_of_lt_succ (digitValue_lt first))
    rw [digitsValue_cons, List.length_cons, Nat.pow_succ]
    omega

/-- A number is written by decimal digits only. -/
lemma isDigit_toDigits {n : Nat} : ∀ c ∈ Nat.toDigits 10 n, c.isDigit = true := fun _ =>
  Nat.isDigit_of_mem_toDigits (by decide) (by decide)

/-- The digits of a number start with zero only if they are those of zero. -/
lemma eq_nil_of_toDigits_eq {n : Nat} {rest : List Char} (eq : Nat.toDigits 10 n = '0' :: rest) :
    rest = [] ∧ n = 0 := by
  have value : digitsValue rest = n := by
    rw [← digitsValue_toDigits n, eq, digitsValue_cons]
    simp [digitValue]
  have isDigit : ∀ c ∈ rest, c.isDigit = true := fun c mem =>
    isDigit_toDigits c (eq ▸ List.mem_cons_of_mem _ mem)
  have less := digitsValue_lt isDigit
  rw [value] at less
  cases rest with
  | nil => exact ⟨rfl, value.symm⟩
  | cons digit rest =>
    have short := (Nat.length_toDigits_le_iff (by decide : 1 < 10) (Nat.succ_pos _)).2 less
    rw [eq, List.length_cons, List.length_cons] at short
    omega

/-- Digits whose number fits are absorbed in full. -/
lemma absorb_eq {significand : Nat} {digits : List Char}
    (fits : significand * 10 ^ digits.length + digitsValue digits < UInt64.size) :
    absorb significand digits =
      (significand * 10 ^ digits.length + digitsValue digits, digits.length) := by
  induction digits generalizing significand with
  | nil => simp [absorb, digitsValue]
  | cons digit digits ih =>
    have same : significand * 10 ^ (digits.length + 1) + digitsValue (digit :: digits) =
        (significand * 10 + digitValue digit) * 10 ^ digits.length + digitsValue digits := by
      rw [digitsValue_cons]
      ring
    rw [List.length_cons, same] at fits ⊢
    have first : significand * 10 + digitValue digit < UInt64.size :=
      (Nat.le_mul_of_pos_right _ (Nat.pow_pos (by decide))).trans_lt
        ((Nat.le_add_right _ _).trans_lt fits)
    rw [absorb]
    simp only [first, if_true, ih fits]

namespace Numeral

/-- A numeral whose text is read as it is written. -/
structure IsPlain (n : Numeral) : Prop where
  isDigit_whole : ∀ c ∈ n.whole, c.isDigit = true
  whole_ne_nil : n.whole ≠ []
  eq_nil_of_zero : ∀ rest, n.whole = '0' :: rest → rest = []
  isDigit_fraction : ∀ c ∈ n.fraction, c.isDigit = true

end Numeral

end ObjectBackend.Floating
