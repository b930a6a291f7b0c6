import ObjectBackend.Json.Reader
import ObjectBackend.Json.Writer
import ObjectBackend.Proofs.Floating.Digits

/-!
# Scanning what has been written

Every token that the writer spells is the token that the scanner finds at the start of the text,
with what follows it left over. For a numeral something must follow that ends it, a comma or a line
break; a string ends by itself.
-/

namespace ObjectBackend.Json

open Floating Text

/-- A hexadecimal digit is read as its value. -/
lemma hexValue?_hexDigit {d : Nat} (lt : d < 16) : hexValue? (hexDigit d) = some d := by
  have all : ∀ d < 16, hexValue? (hexDigit d) = some d := by decide
  exact all d lt

/-- A number that fits in a fixed width is read back. -/
lemma hexNumber?_fixedHex {width n : Nat} (lt : n < 16 ^ width) :
    hexNumber? (fixedHex width n) = some n := by
  induction width generalizing n with
  | zero =>
    rw [Nat.lt_one_iff.1 lt]
    rfl
  | succ width ih =>
    rw [Nat.pow_succ'] at lt
    have front := ih (Nat.div_lt_of_lt_mul lt)
    rw [hexNumber?] at front ⊢
    rw [fixedHex, List.foldlM_append, front]
    simp [hexValue?_hexDigit (Nat.mod_lt n (by decide : 0 < 16)), Nat.div_add_mod']

/-- The number of a character is read as the character. -/
lemma scalar?_toNat (c : Char) : scalar? c.toNat = some c := by
  have valid : c.toNat.isValidChar := c.valid
  rw [scalar?, dif_pos valid]
  rfl

section Strings

variable {c : Char} {pieces : List Piece} {chars : List Char}

/-- A character spells itself. -/
lemma spell_char (spelled : spell pieces = .ok chars) :
    spell (.char c :: pieces) = .ok (c :: chars) := by
  rw [spell, spelled]
  rfl

/-- The number of a character spells the character. -/
lemma spell_unit {after : List Char} (spelled : spell pieces = .ok chars) :
    spell (.unit c.toNat after :: pieces) = .ok (c :: chars) := by
  rw [spell.eq_def]
  simp only [scalar?_toNat, spelled]
  rfl

/-- A character that is not escaped is scanned as it is. -/
lemma scanString_plain {after : List Char} (quote : c ≠ '"') (backslash : c ≠ '\\')
    (printable : ¬c.toNat < 0x20) :
    scanString (c :: after) = push (.char c) (scanString after) := by
  rw [scanString.eq_def]
  split
  case h_1 eq => exact absurd (List.head_eq_of_cons_eq eq) quote
  case h_2 eq => exact absurd (List.head_eq_of_cons_eq eq) backslash
  case h_3 eq => exact absurd (List.head_eq_of_cons_eq eq) backslash
  case h_4 eq => exact absurd (List.head_eq_of_cons_eq eq) backslash
  case h_5 eq =>
    cases eq
    rw [if_neg backslash, if_neg printable]
  case h_6 eq => cases eq

/-- An escaped character is scanned as one piece that spells it. -/
lemma exists_piece (c : Char) (after : List Char) :
    ∃ piece, scanString (escapeChar c ++ after) = push piece (scanString after) ∧
      ∀ {pieces chars}, spell pieces = .ok chars → spell (piece :: pieces) = .ok (c :: chars) := by
  unfold escapeChar
  split
  case h_8 quote backslash _ _ _ _ _ =>
    split
    case isTrue control =>
      have number : hexNumber? (fixedHex 4 c.toNat) = some c.toNat :=
        hexNumber?_fixedHex (control.trans (by decide))
      obtain ⟨x, y, z, w, digits⟩ : ∃ x y z w, fixedHex 4 c.toNat = [x, y, z, w] :=
        ⟨_, _, _, _, rfl⟩
      rw [digits] at number ⊢
      refine ⟨.unit c.toNat after, ?_, spell_unit⟩
      simp only [List.cons_append, List.nil_append, scanString, number]
    case isFalse printable =>
      exact ⟨.char c, scanString_plain quote backslash printable, spell_char⟩
  all_goals exact ⟨.char _, rfl, spell_char⟩

/-- An escaped text is scanned up to its quote and spells the text. -/
lemma exists_scanString (text rest : List Char) :
    ∃ pieces, scanString (text.flatMap escapeChar ++ '"' :: rest) = (pieces, .ok rest) ∧
      spell pieces = .ok text := by
  induction text with
  | nil => exact ⟨[], rfl, rfl⟩
  | cons c text ih =>
    obtain ⟨pieces, scanned, spelled⟩ := ih
    obtain ⟨piece, first, spells⟩ := exists_piece c (text.flatMap escapeChar ++ '"' :: rest)
    refine ⟨piece :: pieces, ?_, spells spelled⟩
    rw [List.flatMap_cons, List.append_assoc, first, scanned]
    rfl

/-- A quoted text has characters. -/
lemma quoted_ne_nil (text : String) : (quoted text).toList ≠ [] := by
  simp [quoted]

/-- A quoted text is scanned as its string. -/
lemma scan_quoted (text : String) (rest : List Char) :
    Token.scan ((quoted text).toList ++ rest) = .ok (.string (.ok text), rest) := by
  obtain ⟨pieces, scanned, spelled⟩ := exists_scanString text.toList rest
  have chars : (quoted text).toList ++ rest =
      '"' :: (text.toList.flatMap escapeChar ++ '"' :: rest) := by
    simp [quoted]
  rw [chars, Token.scan, scanned, ofPieces, spelled]
  simp

end Strings

/-- Nothing follows a value, or something that ends a numeral. -/
def EndsValue (rest : List Char) : Prop := ∀ c ∈ rest.head?, c = ',' ∨ c = '\n'

/-- A value may end at the end of the text. -/
lemma endsValue_nil : EndsValue [] := nofun

/-- A value may end before a comma or a line break. -/
lemma endsValue_cons {c : Char} {rest : List Char} (ends : c = ',' ∨ c = '\n') :
    EndsValue (c :: rest) := by
  rintro d ⟨⟩
  exact ends

namespace EndsValue

variable {c : Char} {rest : List Char}

/-- What ends a value is no digit. -/
lemma isDigit_eq_false (ends : EndsValue rest) (head : c ∈ rest.head?) : c.isDigit = false := by
  rcases ends c head with rfl | rfl <;> rfl

end EndsValue

section Numerals

variable {digits rest : List Char} {n : Numeral}

/-- Digits are scanned up to what is no digit. -/
lemma scanDigits_append (isDigit : ∀ c ∈ digits, c.isDigit = true) (nonempty : digits ≠ [])
    (ends : ∀ c ∈ rest.head?, c.isDigit = false) :
    scanDigits (digits ++ rest) = .ok (digits, rest) := by
  have stops : rest.takeWhile Char.isDigit = [] ∧ rest.dropWhile Char.isDigit = rest := by
    cases rest with
    | nil => exact ⟨rfl, rfl⟩
    | cons c rest =>
      have other : ¬c.isDigit = true := by simpa using ends c rfl
      exact ⟨List.takeWhile_cons_of_neg other, List.dropWhile_cons_of_neg other⟩
  rw [scanDigits, List.takeWhile_append_of_pos isDigit, List.dropWhile_append_of_pos isDigit,
    stops.1, stops.2, List.append_nil, if_neg (by simpa using nonempty)]

/-- The whole part of a plain numeral is scanned up to what is no digit. -/
lemma scanWhole_append (plain : n.IsPlain) (ends : ∀ c ∈ rest.head?, c.isDigit = false) :
    scanWhole (n.whole ++ rest) = .ok (n.whole, rest) := by
  rw [scanWhole, scanDigits_append plain.isDigit_whole plain.whole_ne_nil ends]
  simp only [bind, Except.bind]
  split
  case h_1 eq => exact absurd (plain.eq_nil_of_zero _ eq) (List.cons_ne_nil _ _)
  case h_2 => rfl

/-- The digits after the point, behind the point. -/
def fractionChars (fraction : List Char) : List Char :=
  if fraction.isEmpty then [] else '.' :: fraction

/-- The exponent of a numeral as it is written. -/
def exponentChars (exponent : Option Int) : List Char :=
  (exponent.map fun e => (exponentText .written e).toList).getD []

/-- An exponent is written with its mark and its sign. -/
lemma exponentChars_some (e : Int) : exponentChars (some e) =
    'e' :: (if e < 0 then '-' else '+') :: Nat.toDigits 10 e.natAbs := by
  have chars : exponentChars (some e) = (exponentText .written e).toList := rfl
  rw [chars, exponentText]
  cases e with
  | ofNat value =>
    have text : (value : Int).repr = value.repr := rfl
    simp [text, Nat.toList_repr]
  | negSucc value =>
    have text : toString (Int.negSucc value) = "-" ++ (value + 1).repr := rfl
    simp [text, Nat.toList_repr]

/-- The fraction of a plain numeral is scanned up to its exponent. -/
lemma scanFraction_append (plain : n.IsPlain) (ends : EndsValue rest) (exponent : Option Int) :
    scanFraction (fractionChars n.fraction ++ (exponentChars exponent ++ rest)) =
      .ok (n.fraction, exponentChars exponent ++ rest) := by
  have stops : ∀ c ∈ (exponentChars exponent ++ rest).head?, c.isDigit = false ∧ c ≠ '.' := by
    cases exponent with
    | none =>
      intro c head
      rcases ends c head with rfl | rfl <;> decide
    | some e =>
      rw [exponentChars_some]
      rintro c ⟨⟩
      decide
  generalize exponentChars exponent ++ rest = text at stops
  rw [fractionChars]
  split
  case isTrue empty =>
    rw [List.isEmpty_iff.1 empty, List.nil_append]
    cases text with
    | nil => rfl
    | cons c text =>
      unfold scanFraction
      split
      case h_1 eq => exact absurd (List.head_eq_of_cons_eq eq) (stops c rfl).2
      case h_2 => rfl
  case isFalse nonempty =>
    rw [List.cons_append, scanFraction]
    exact scanDigits_append plain.isDigit_fraction (by simpa using nonempty)
      fun c head => (stops c head).1

/-- An exponent is scanned up to the end of the value. -/
lemma scanExponent_append (ends : EndsValue rest) (exponent : Option Int) :
    scanExponent (exponentChars exponent ++ rest) = .ok (exponent, rest) := by
  cases exponent with
  | none =>
    cases rest with
    | nil => rfl
    | cons c rest =>
      have other : ¬(c = 'e' ∨ c = 'E') := by
        rcases ends c rfl with rfl | rfl <;> decide
      simp [exponentChars, scanExponent, other]
  | some e =>
    have digits (n : Nat) :
        scanDigits (Nat.toDigits 10 n ++ rest) = .ok (Nat.toDigits 10 n, rest) :=
      scanDigits_append (fun _ => Nat.isDigit_of_mem_toDigits (by decide) (by decide))
        Nat.toDigits_ne_nil fun _ => ends.isDigit_eq_false
    rw [exponentChars_some]
    split
    case isTrue negative =>
      obtain ⟨n, rfl⟩ := Int.exists_eq_neg_ofNat (Int.le_of_lt negative)
      simp [scanExponent, digits, digitsValue_toDigits, bind, Except.bind]
    case isFalse nonneg =>
      obtain ⟨n, rfl⟩ := Int.eq_ofNat_of_zero_le (Int.not_lt.1 nonneg)
      simp [scanExponent, digits, digitsValue_toDigits, bind, Except.bind]

/-- The characters of a numeral, part by part. -/
lemma toList_text (n : Numeral) : (n.text .written).toList =
    (if n.negative then ['-'] else []) ++
      (n.whole ++ (fractionChars n.fraction ++ exponentChars n.exponent)) := by
  rw [Numeral.text, fractionChars, exponentChars]
  cases n.exponent <;> split <;> split <;> simp

/-- A plain numeral is scanned behind its sign. -/
lemma scanUnsigned_append (plain : n.IsPlain) (ends : EndsValue rest) :
    scanUnsigned n.negative
        (n.whole ++ (fractionChars n.fraction ++ (exponentChars n.exponent ++ rest))) =
      .ok (.number n, rest) := by
  have stops : ∀ c ∈ (fractionChars n.fraction ++ (exponentChars n.exponent ++ rest)).head?,
      c.isDigit = false := by
    rw [fractionChars]
    split
    case isTrue =>
      cases n.exponent with
      | none => exact fun c => ends.isDigit_eq_false
      | some e =>
        rw [exponentChars_some]
        rintro c ⟨⟩
        rfl
    case isFalse =>
      rintro c ⟨⟩
      rfl
  rw [scanUnsigned, scanWhole_append plain stops]
  simp only [bind, Except.bind, scanFraction_append plain ends, scanExponent_append ends]

/-- What starts with a digit is scanned as a numeral without a sign. -/
lemma scan_of_isDigit {c : Char} (isDigit : c.isDigit = true) (text : List Char) :
    Token.scan (c :: text) = scanUnsigned false (c :: text) := by
  unfold Token.scan
  split
  case h_12 => rw [if_pos (by simpa using isDigit)]
  all_goals
    rename_i eq
    rw [List.head_eq_of_cons_eq eq] at isDigit
    cases isDigit

/-- A numeral has characters. -/
lemma text_ne_nil (plain : n.IsPlain) : (n.text .written).toList ≠ [] := by
  rw [toList_text]
  simp [plain.whole_ne_nil]

/-- A plain numeral is scanned as itself. -/
lemma scan_numeral (plain : n.IsPlain) (ends : EndsValue rest) :
    Token.scan ((n.text .written).toList ++ rest) = .ok (.number n, rest) := by
  have unsigned := scanUnsigned_append plain ends
  rw [toList_text]
  simp only [List.append_assoc]
  cases negative : n.negative with
  | true =>
    rw [negative] at unsigned
    exact unsigned
  | false =>
    obtain ⟨c, whole, eq⟩ := List.exists_cons_of_ne_nil plain.whole_ne_nil
    rw [negative, eq] at unsigned
    have isDigit := plain.isDigit_whole c (eq ▸ List.mem_cons_self ..)
    rw [eq]
    exact (scan_of_isDigit isDigit _).trans unsigned

end Numerals

end ObjectBackend.Json
