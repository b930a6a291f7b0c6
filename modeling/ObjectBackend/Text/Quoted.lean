import ObjectBackend.Text.Units
import ObjectBackend.Text.Printable

/-!
# Quoted text

The form in which a text stands inside a diagnostic: between double quotes, with the quote, the
backslash and the common controls escaped by a letter, and every other character without a shape
of its own escaped by its code point. A quoted text never holds a line break
(`newline_not_mem_quoteChar`).
-/

namespace ObjectBackend.Text

/-- The escape of a character by its code point, written in braces without leading zeros. -/
def codePointEscape (c : Char) : List Char :=
  ['\\', 'u', '\x7b'] ++ (fixedHex 6 c.toNat).dropWhile (· == '0') ++ ['\x7d']

/-- One character as it stands inside quotes. -/
def quoteChar (c : Char) : List Char :=
  match c with
  | '\x00' => ['\\', '0']
  | '\t' => ['\\', 't']
  | '\r' => ['\\', 'r']
  | '\n' => ['\\', 'n']
  | '"' => ['\\', '"']
  | '\\' => ['\\', '\\']
  | c => if isPrintable c then [c] else codePointEscape c

/-- A text between double quotes. -/
def quote (text : String) : String :=
  "\"" ++ String.ofList (text.toList.flatMap quoteChar) ++ "\""

/-- An escaped code point holds no line break. -/
theorem newline_not_mem_codePointEscape (c : Char) : '\n' ∉ codePointEscape c := by
  have digits : ∀ d < 16, hexDigit d ≠ '\n' := by decide
  intro h
  simp only [codePointEscape, List.mem_append, List.mem_cons, List.not_mem_nil, or_false] at h
  rcases h with (h | h) | h
  · revert h; decide
  · obtain ⟨d, lt, eq⟩ := mem_fixedHex ((List.dropWhile_sublist _).subset h)
    exact digits d lt eq.symm
  · revert h; decide

/-- A quoted character holds no line break. -/
theorem newline_not_mem_quoteChar (c : Char) : '\n' ∉ quoteChar c := by
  unfold quoteChar
  split
  case h_7 =>
    split
    · intro h
      exact absurd (List.mem_singleton.mp h).symm (by assumption)
    · exact newline_not_mem_codePointEscape c
  all_goals decide

end ObjectBackend.Text
