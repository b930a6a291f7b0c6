import ObjectBackend.Proofs.Floating.Shortest
import ObjectBackend.Proofs.Text.Lines
import ObjectBackend.Source.Description

/-!
# Descriptions stay on their lines

The description of an instruction holds no line break, whatever names and texts the instruction
contains: these are quoted, and everything else is made of fixed words, digits and punctuation.
-/

namespace ObjectBackend

open Floating Text

namespace Text

variable {name value : String}

/-- Joined words consist of characters of the words and of capitals of these. -/
lemma mem_joinWords {c : Char} {capital : Bool} {cs : List Char} (mem : c ∈ joinWords capital cs) :
    c ∈ cs ∨ ∃ c' ∈ cs, c = c'.toUpper := by
  induction cs generalizing capital with
  | nil => cases mem
  | cons c' cs ih =>
    have behind {capital : Bool} (mem : c ∈ joinWords capital cs) :
        c ∈ c' :: cs ∨ ∃ c'' ∈ c' :: cs, c = c''.toUpper :=
      (ih mem).imp (List.mem_cons_of_mem _)
        fun ⟨c'', mem, eq⟩ => ⟨c'', List.mem_cons_of_mem _ mem, eq⟩
    rw [joinWords.eq_def] at mem
    split at mem
    case h_1 => cases mem
    case h_2 eq =>
      cases eq
      exact behind mem
    case h_3 eq =>
      cases eq
      rcases List.mem_cons.1 mem with rfl | mem
      · split
        · exact .inr ⟨c', List.mem_cons_self .., rfl⟩
        · exact .inl (List.mem_cons_self ..)
      · exact behind mem

/-- Only a line break has a line break as its capital. -/
lemma toUpper_ne_newline {c : Char} (ne : c ≠ '\n') : c.toUpper ≠ '\n' := by
  delta Char.toUpper
  split
  case isTrue small =>
    intro eq
    have same := congrArg (fun c => c.val.toNat) eq
    have above : 97 ≤ c.val.toNat := small.1
    have below : c.val.toNat ≤ 122 := small.2
    have down : ('A'.val - 'a'.val).toNat = 2 ^ 32 - 32 := by decide
    have newline : '\n'.val.toNat = 10 := by decide
    rw [UInt32.toNat_add, down, newline] at same
    omega
  case isFalse => exact ne

/-- A name stays on its line when its words are joined. -/
lemma oneLine_capitalized (holds : OneLine name) : OneLine (capitalized name) := by
  refine consistsOf_ofList.2 fun c mem => ?_
  rcases mem_joinWords mem with same | ⟨c', origin, rfl⟩
  · exact holds c same
  · exact toUpper_ne_newline (holds c' origin)

/-- A name with its value stays on its line. -/
lemma oneLine_applied (named : OneLine name) (holds : OneLine value) :
    OneLine (applied name value) :=
  named.append (by decide) |>.append holds |>.append (by decide)

/-- A name with its parts stays on its line. -/
lemma oneLine_withParts {parts : List (String × String)} (named : OneLine name)
    (each : ∀ part ∈ parts, OneLine part.1 ∧ OneLine part.2) : OneLine (withParts name parts) := by
  rw [withParts.eq_def]
  split
  · exact named
  · have listed : OneLine
        (String.intercalate ", " (parts.map fun part => part.1 ++ ": " ++ part.2)) := by
      refine consistsOf_intercalate (by decide) fun s mem => ?_
      obtain ⟨part, here, rfl⟩ := List.mem_map.1 mem
      obtain ⟨key, value⟩ := each part here
      exact key.append (by decide) |>.append value
    exact named.append (by decide) |>.append listed |>.append (by decide)

/-- A list in brackets stays on its line. -/
lemma oneLine_bracketed {items : List String} (each : ∀ item ∈ items, OneLine item) :
    OneLine (bracketed items) := by
  have bracket : OneLine "[" := by decide
  exact bracket.append (consistsOf_intercalate (by decide) each) |>.append (by decide)

end Text

section Numbers

/-- A plain numeral stays on its line. -/
lemma Floating.Numeral.IsPlain.oneLine_text {n : Numeral} (plain : n.IsPlain) (plus : PlusSign) :
    OneLine (n.text plus) := by
  have digits {cs : List Char} (each : ∀ c ∈ cs, c.isDigit = true) : OneLine (String.ofList cs) :=
    consistsOf_ofList.2 fun c mem => newline_ne_of_isDigit c (each c mem)
  have sign : OneLine (if n.negative then "-" else "") := by split <;> decide
  have fraction : OneLine (if n.fraction.isEmpty then "" else "." ++ String.ofList n.fraction) := by
    have point : OneLine "." := by decide
    split
    · decide
    · exact point.append (digits plain.isDigit_fraction)
  have exponent : OneLine ((n.exponent.map (exponentText plus)).getD "") := by
    cases n.exponent with
    | none => exact (by decide : OneLine "")
    | some e =>
      have mark : OneLine "e" := by decide
      have sign : OneLine (if plus = .written ∧ 0 ≤ e then "+" else "") := by split <;> decide
      exact mark.append sign |>.append (oneLine_int e)
  exact sign.append (digits plain.isDigit_whole) |>.append fraction |>.append exponent

/-- What describes a datum stays on its line. -/
lemma oneLine_describeDatum {f : Format} {d : Datum} (short : f.fractionBits ≤ 52)
    (less : ∀ negative significand exponent,
      d = .finite negative significand exponent → significand < 2 ^ 53) :
    OneLine (describeDatum f d) := by
  cases d with
  | finite negative significand exponent =>
    exact (DecimalStyle.numeral_isPlain (less _ _ _ rfl) short).oneLine_text _
  | infinite negative => cases negative <;> simp only [describeDatum] <;> decide
  | undefined => exact (by decide : OneLine "NaN")

/-- What describes a short real stays on its line. -/
lemma Floating.Binary32.oneLine_description (x : Binary32) : OneLine x.description :=
  oneLine_describeDatum (by decide) fun _ _ _ datum =>
    (Format.decode_bounds (by decide) datum).1.trans_le (by decide)

/-- What describes a long real stays on its line. -/
lemma Floating.Binary64.oneLine_description (x : Binary64) : OneLine x.description :=
  oneLine_describeDatum (by decide) fun _ _ _ datum => (Format.decode_bounds (by decide) datum).1

end Numbers

/-- What describes a variable stays on its line. -/
lemma Var.oneLine_description (v : Var) : OneLine v.description :=
  oneLine_applied (by decide) (oneLine_nat _)

/-- What describes a type stays on its line. -/
lemma ValueType.oneLine_description (type : ValueType) : OneLine type.description := by
  induction type with
  | void => decide
  | primitive type => cases type <;> decide
  | object className => exact oneLine_applied (by decide) (oneLine_quote _)
  | array item ih => exact oneLine_applied (by decide) ih

/-- What describes a signature stays on its line. -/
lemma Signature.oneLine_description (s : Signature) : OneLine s.description := by
  refine oneLine_withParts (by decide) ?_
  simp only [List.forall_mem_cons]
  refine ⟨⟨by decide, oneLine_quote _⟩, ⟨by decide, oneLine_bracketed ?_⟩,
    ⟨by decide, ValueType.oneLine_description _⟩, List.forall_mem_nil _⟩
  exact List.forall_mem_map.2 fun type _ => type.oneLine_description

/-- What describes a reference to a method stays on its line. -/
lemma MethodRef.oneLine_description (m : MethodRef) : OneLine m.description := by
  refine oneLine_withParts (by decide) ?_
  simp only [List.forall_mem_cons]
  exact ⟨⟨by decide, oneLine_quote _⟩, ⟨by decide, Signature.oneLine_description _⟩,
    List.forall_mem_nil _⟩

/-- What describes a reference to a field stays on its line. -/
lemma FieldRef.oneLine_description (f : FieldRef) : OneLine f.description := by
  refine oneLine_withParts (by decide) ?_
  simp only [List.forall_mem_cons]
  exact ⟨⟨by decide, oneLine_quote _⟩, ⟨by decide, oneLine_quote _⟩, List.forall_mem_nil _⟩

section Choices

/-- The name of an operator stays on its line. -/
lemma BinaryOperator.oneLine_name (o : BinaryOperator) : OneLine o.name := by cases o <;> decide

/-- The name of a numeric type stays on its line. -/
lemma Numeric.oneLine_name (type : Numeric) : OneLine type.name := by cases type <;> decide

/-- The name of a subword stays on its line. -/
lemma Subword.oneLine_name (s : Subword) : OneLine s.name := by cases s <;> decide

/-- The name of a direction stays on its line. -/
lemma CastDirection.oneLine_name (d : CastDirection) : OneLine d.name := by cases d <;> decide

/-- The name of a manner of invocation stays on its line. -/
lemma InvocationKind.oneLine_name (k : InvocationKind) : OneLine k.name := by cases k <;> decide

end Choices

/-- The name of an operand, if it is chosen from fixed ones, holds no line break. -/
def Operand.IsWord : Operand → Prop
  | choice name => OneLine name
  | _ => True

/-- What describes an operand stays on its line. -/
lemma Operand.oneLine_description {o : Operand} (word : o.IsWord) : OneLine o.description := by
  cases o with
  | var v => exact v.oneLine_description
  | optionalVar v =>
    cases v with
    | none => exact (by decide : OneLine "None")
    | some v => exact oneLine_applied (by decide) v.oneLine_description
  | vars vs => exact oneLine_bracketed (List.forall_mem_map.2 fun v _ => v.oneLine_description)
  | type t => exact t.oneLine_description
  | int value => exact oneLine_int _
  | long value => exact oneLine_int _
  | float value => exact value.oneLine_description
  | double value => exact value.oneLine_description
  | text value => exact oneLine_quote value
  | field f => exact f.oneLine_description
  | method m => exact m.oneLine_description
  | choice name => exact oneLine_capitalized word

/-- Operations and their operands are named by words. -/
lemma Instruction.operands_named (i : Instruction) :
    OneLine i.operands.1 ∧ ∀ o ∈ i.operands.2, OneLine o.1 ∧ o.2.IsWord := by
  cases i <;> simp +decide [operands, Operand.IsWord, BinaryOperator.oneLine_name,
    Numeric.oneLine_name, Subword.oneLine_name, CastDirection.oneLine_name,
    InvocationKind.oneLine_name]

/-- An instruction is described on one line. -/
lemma Instruction.oneLine_description (i : Instruction) : OneLine i.description := by
  obtain ⟨operation, operands⟩ := i.operands_named
  refine oneLine_withParts (oneLine_capitalized operation) (List.forall_mem_map.2 fun o mem => ?_)
  exact ⟨(operands o mem).1, Operand.oneLine_description (operands o mem).2⟩

end ObjectBackend
