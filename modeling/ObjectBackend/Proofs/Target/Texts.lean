import ObjectBackend.Proofs.Image.LabelText
import ObjectBackend.Proofs.Target.Names
import ObjectBackend.Proofs.Target.SymbolText
import ObjectBackend.Proofs.Target.Values
import ObjectBackend.Proofs.Text.Lines

/-!
# Texts of code

What the texts of the parts of a module consist of. All code is plain, if names and registers are:
it holds neither line breaks nor semicolons, so that no comment starts in it.
-/

namespace ObjectBackend

open Text

namespace Target

/-- Whether a character neither ends a line nor starts a comment. -/
def IsPlain (c : Char) : Prop := c ≠ '\n' ∧ c ≠ ';'

/-- Whether a character is plain is decided by comparing it. -/
instance : DecidablePred IsPlain := fun c => inferInstanceAs (Decidable (c ≠ '\n' ∧ c ≠ ';'))

/-- A text without line breaks and semicolons. -/
abbrev Plain (s : String) : Prop := ConsistsOf IsPlain s

section Characters

/-- Letters and digits are plain. -/
lemma isPlain_of_isAlphanum {c : Char} (alphanum : c.isAlphanum = true) : IsPlain c := by
  constructor
  all_goals
    rintro rfl
    cases alphanum

/-- Digits are plain. -/
lemma isPlain_of_isDigit (c : Char) (digit : c.isDigit = true) : IsPlain c := by
  constructor
  all_goals
    rintro rfl
    cases digit

/-- Numbers are written plainly. -/
lemma plain_nat (n : Nat) : Plain (toString n) := consistsOf_nat isPlain_of_isDigit n

/-- Integers are written plainly. -/
lemma plain_int (n : Int) : Plain (toString n) := consistsOf_int isPlain_of_isDigit (by decide) n

/-- A name with its size is written plainly. -/
lemma isPlain_of_mem_sized {name : String} {c : Char} (mem : c ∈ sized name) : IsPlain c := by
  rcases List.mem_append.1 mem with mem | mem
  · exact isPlain_of_isDigit c (Floating.isDigit_toDigits _ mem)
  rcases List.mem_cons.1 mem with rfl | mem
  · decide
  rcases isAlphanum_of_mem_escape mem with alphanum | rfl
  · exact isPlain_of_isAlphanum alphanum
  · decide

/-- The code of a type is written plainly. -/
lemma isPlain_of_mem_typeCode {type : ValueType} {c : Char} (mem : c ∈ typeCode type) :
    IsPlain c := by
  induction type with
  | void =>
    rw [List.mem_singleton.1 mem]
    decide
  | primitive type =>
    rw [List.mem_singleton.1 mem]
    cases type <;> decide
  | object className =>
    rcases List.mem_cons.1 mem with rfl | mem
    · decide
    · exact isPlain_of_mem_sized mem
  | array item ih =>
    rcases List.mem_cons.1 mem with rfl | mem
    · decide
    · exact ih mem

/-- The parts of the name of a method are written plainly. -/
lemma isPlain_of_mem_methodParts {m : MethodRef} {c : Char} (mem : c ∈ methodParts m) :
    IsPlain c := by
  rcases List.mem_append.1 mem with mem | mem
  · rcases List.mem_append.1 mem with mem | mem
    · rcases List.mem_append.1 mem with mem | mem
      · exact isPlain_of_mem_sized mem
      · exact isPlain_of_mem_sized mem
    · exact isPlain_of_mem_typeCode mem
  · obtain ⟨type, _, mem⟩ := List.mem_flatMap.1 mem
    exact isPlain_of_mem_typeCode mem

end Characters

section Names

/-- A name with its size may follow a plain text. -/
lemma plain_append_sized {start : String} (plain : Plain start) (name : String) :
    Plain (start ++ String.ofList (sized name)) :=
  plain.append (consistsOf_ofList.2 fun _ => isPlain_of_mem_sized)

/-- A number may follow a plain text. -/
lemma plain_append_nat {start : String} (plain : Plain start) (n : Nat) :
    Plain (start ++ toString n) := plain.append (plain_nat n)

/-- The symbols of the environment are plain. -/
lemma RuntimeSymbol.plain_text (s : RuntimeSymbol) : Plain (Symbol.runtime s).text := by
  cases s with
  | compare type => cases type <;> decide
  | _ => decide

/-- The symbols that are not given from outside are plain. -/
lemma Symbol.plain_text {s : Symbol} (given : s.isGiven = false) : Plain s.text := by
  cases s with
  | method m =>
    exact consistsOf_append.2 ⟨by decide, consistsOf_ofList.2 fun _ => isPlain_of_mem_methodParts⟩
  | field className name =>
    refine consistsOf_append.2 ⟨by decide, consistsOf_ofList.2 (List.forall_mem_append.2 ⟨?_, ?_⟩)⟩
    · exact fun _ => isPlain_of_mem_sized
    · exact fun _ => isPlain_of_mem_sized
  | metadata className | fieldTable className | initializer className =>
    exact plain_append_sized (by decide) className
  | arrayMetadata kind => cases kind <;> decide
  | literal id | literalChars id | handlers id => exact plain_append_nat (by decide) id
  | runtime s => exact s.plain_text
  | main => decide
  | named name => cases given

/-- The structure names that are not given from outside are plain. -/
lemma TypeName.plain_text {name : TypeName} (given : name.isGiven = false) : Plain name.text := by
  cases name with
  | instances className | metadata className => exact plain_append_sized (by decide) className
  | runtime type => cases type <;> decide
  | named name => cases given

/-- Labels are plain. -/
lemma plain_labelText (l : Label) : Plain l.text := by
  induction l with
  | entry | exit | unwind | init => decide
  | block b => exact plain_append_nat (by decide) b.index
  | landing b => exact plain_append_nat (by decide) b.index |>.append (by decide)
  | split first number ih => exact plain_append_nat (ih.append (by decide)) number

/-- The registers without names of their own are plain. -/
lemma Local.plain_text {r : Local} (unnamed : ∀ name, r ≠ .named name) : Plain r.text := by
  cases r with
  | var v => exact plain_append_nat (by decide) v.index
  | temporary number => exact plain_append_nat (by decide) number
  | frame | callerFrame | result => decide
  | landingSite b => exact plain_append_nat (by decide) b.index |>.append (by decide)
  | named name => exact absurd rfl (unnamed name)

end Names

section Values

namespace IrType

mutual

/-- A type with plain names is plain. -/
theorem plain_text (type : IrType) (named : ∀ n ∈ type.names, Plain n.text) : Plain type.text := by
  match type with
  | .named name => exact named _ (List.mem_singleton_self _)
  | .array length item =>
    have item := plain_text item named
    exact plain_append_nat (by decide) length |>.append (by decide) |>.append item
      |>.append (by decide)
  | .struct fields =>
    have brace : Plain "\x7b " := by decide
    exact brace.append (consistsOf_intercalate (by decide) (plain_texts fields named))
      |>.append (by decide)
  | .void | .i1 | .i8 | .i16 | .i32 | .i64 | .float | .double | .ptr => decide

/-- Types with plain names are plain. -/
theorem plain_texts (types : List IrType) (named : ∀ n ∈ namesOf types, Plain n.text) :
    ∀ s ∈ texts types, Plain s := by
  match types with
  | [] => exact List.forall_mem_nil _
  | type :: types =>
    obtain ⟨first, others⟩ := List.forall_mem_append.1 named
    exact List.forall_mem_cons.2 ⟨plain_text type first, plain_texts types others⟩

end

end IrType

/-- The name of the register that a value stands for, if it is one, is plain. -/
def Value.HasPlainRegister : Value → Prop
  | register r => Plain r.text
  | _ => True

/-- Whether a value has a plain register is decided by the text of the register. -/
instance : DecidablePred Value.HasPlainRegister
  | .register r => inferInstanceAs (Decidable (Plain r.text))
  | .symbol _ | .int _ | .real _ | .bool _ | .null | .zero | .undef | .part .. | .offset ..
  | .verbatim _ => .isTrue trivial

namespace Value

/-- A temporary has a plain name. -/
@[simp] lemma hasPlainRegister_temporary (n : Nat) : (register (.temporary n)).HasPlainRegister :=
  Local.plain_text fun _ => nofun

/-- The register of a variable has a plain name. -/
@[simp] lemma hasPlainRegister_ofVar (v : Var) : (ofVar v).HasPlainRegister :=
  Local.plain_text fun _ => nofun

/-- A symbol is no register. -/
@[simp] lemma hasPlainRegister_symbol (s : Symbol) : (symbol s).HasPlainRegister := trivial

/-- An integer is no register. -/
@[simp] lemma hasPlainRegister_int (n : Int) : (int n).HasPlainRegister := trivial

/-- The null address is no register. -/
@[simp] lemma hasPlainRegister_null : null.HasPlainRegister := trivial

/-- The address of a part is no register. -/
@[simp] lemma hasPlainRegister_part (base : IrType) (s : Symbol) (indices : List Nat) :
    (part base s indices).HasPlainRegister := trivial

/-- The offset of a part is no register. -/
@[simp] lemma hasPlainRegister_offset (base : IrType) (indices : List Nat) :
    (offset base indices).HasPlainRegister := trivial

/-- A zero is no register. -/
@[simp] lemma hasPlainRegister_zeroOf (type : IrType) : (zeroOf type).HasPlainRegister := by
  cases type <;> trivial

end Value

/-- Indices are written plainly. -/
lemma plain_indicesText (indices : List Nat) : Plain (indicesText indices) :=
  consistsOf_join (List.forall_mem_map.2 fun i _ => plain_append_nat (by decide) i)

/-- Reals are written plainly. -/
lemma plain_realText (x : Floating.Binary64) : Plain (realText x) := by
  have digits : ∀ d < 16, IsPlain (hexDigit d).toUpper := by decide
  refine consistsOf_append.2
    ⟨by decide, consistsOf_ofList.2 (List.forall_mem_map.2 fun c mem => ?_)⟩
  obtain ⟨d, lt, rfl⟩ := mem_fixedHex mem
  exact digits d lt

/-- A value is written plainly if the names in it and its register are. -/
lemma Value.plain_text {v : Value} (named : ∀ n ∈ v.names, Plain n.text)
    (own : v.HasPlainRegister) : Plain v.text := by
  cases v with
  | register r => exact consistsOf_append.2 ⟨by decide, own⟩
  | symbol s => exact named _ (List.mem_singleton_self _)
  | int n => exact plain_int n
  | real x => exact plain_realText x
  | bool value => cases value <;> decide
  | null | zero | undef => decide
  | part base s indices =>
    obtain ⟨first, others⟩ := List.forall_mem_cons.1 named
    have symbol := (consistsOf_append.1 first).2
    have start : Plain "getelementptr (" := by decide
    exact start.append (base.plain_text others) |>.append (by decide) |>.append symbol
      |>.append (plain_indicesText indices) |>.append (by decide)
  | offset base indices =>
    have start : Plain "ptrtoint (ptr getelementptr (" := by decide
    exact start.append (base.plain_text named) |>.append (by decide)
      |>.append (plain_indicesText indices) |>.append (by decide)
  | verbatim text => exact named _ (List.mem_singleton_self _)

/-- An operand is written plainly if the names in it and its register are. -/
lemma Operand.plain_text {o : Operand} (named : ∀ n ∈ o.names, Plain n.text)
    (own : o.value.HasPlainRegister) : Plain o.text := by
  obtain ⟨type, value⟩ := List.forall_mem_append.1 named
  exact (o.type.plain_text type).append (by decide) |>.append (o.value.plain_text value own)

end Values

section Instructions

/-- The names of operations are plain. -/
lemma BinaryOp.plain_name (op : BinaryOp) : Plain op.name := by cases op <;> decide

/-- The names of comparisons are plain. -/
lemma Predicate.plain_name (p : Predicate) : Plain p.name := by cases p <;> decide

/-- The names of comparisons of reals are plain. -/
lemma RealPredicate.plain_name (p : RealPredicate) : Plain p.name := by cases p <;> decide

/-- The names of casts are plain. -/
lemma CastOp.plain_name (op : CastOp) : Plain op.name := by cases op <;> decide

/-- Operands are written plainly if the names in them and their registers are. -/
lemma plain_operandsText {os : List Operand} (named : ∀ n ∈ os.flatMap Operand.names, Plain n.text)
    (own : ∀ v ∈ os.map (·.value), v.HasPlainRegister) : Plain (operandsText os) := by
  have each : ∀ s ∈ os.map Operand.text, Plain s := List.forall_mem_map.2 fun o mem =>
    o.plain_text (fun n memn => named n (List.mem_flatMap.2 ⟨o, mem, memn⟩))
      (own _ (List.mem_map_of_mem mem))
  have parenthesis : Plain "(" := by decide
  exact parenthesis.append (consistsOf_intercalate (by decide) each) |>.append (by decide)

/-- An instruction with plain names and registers is plain. -/
lemma Instr.plain_text {i : Instr} (named : ∀ n ∈ i.names, Plain n.text)
    (own : ∀ v ∈ i.operands, v.HasPlainRegister) : Plain i.text := by
  have space : Plain " " := by decide
  have comma : Plain ", " := by decide
  cases i <;> simp only [names, operands, List.forall_mem_append, List.forall_mem_cons] at named own
  case binary op type lhs rhs =>
    have type := type.plain_text named.1.1
    have lhs := lhs.plain_text named.1.2 own.1
    have rhs := rhs.plain_text named.2 own.2.1
    exact op.plain_name.append space |>.append type |>.append space |>.append lhs |>.append comma
      |>.append rhs
  case fneg type value =>
    have word : Plain "fneg " := by decide
    have type := type.plain_text named.1
    have value := value.plain_text named.2 own.1
    exact word.append type |>.append space |>.append value
  case icmp predicate type lhs rhs =>
    have word : Plain "icmp " := by decide
    have type := type.plain_text named.1.1
    have lhs := lhs.plain_text named.1.2 own.1
    have rhs := rhs.plain_text named.2 own.2.1
    exact word.append predicate.plain_name |>.append space |>.append type |>.append space
      |>.append lhs |>.append comma |>.append rhs
  case fcmp predicate type lhs rhs =>
    have word : Plain "fcmp " := by decide
    have type := type.plain_text named.1.1
    have lhs := lhs.plain_text named.1.2 own.1
    have rhs := rhs.plain_text named.2 own.2.1
    exact word.append predicate.plain_name |>.append space |>.append type |>.append space
      |>.append lhs |>.append comma |>.append rhs
  case cast op operand target =>
    have operand := operand.plain_text named.1 own.1
    have target := target.plain_text named.2
    exact op.plain_name.append space |>.append operand |>.append (by decide) |>.append target
  case load type address =>
    have word : Plain "load " := by decide
    have type := type.plain_text named.1
    have address := address.plain_text named.2 own.1
    exact word.append type |>.append (by decide) |>.append address
  case store operand address =>
    have word : Plain "store " := by decide
    have operand := operand.plain_text named.1 own.1
    have address := address.plain_text named.2 own.2.1
    exact word.append operand |>.append (by decide) |>.append address
  case element base address indices =>
    have word : Plain "getelementptr " := by decide
    have base := base.plain_text named.1.1
    have address := address.plain_text named.1.2 own.1
    have index : Plain ", i32 " := by decide
    have listed : Plain (String.join (indices.map fun i => ", i32 " ++ i.text)) :=
      consistsOf_join (List.forall_mem_map.2 fun i mem => index.append
        (i.plain_text (fun n memn => named.2 n (List.mem_flatMap.2 ⟨i, mem, memn⟩)) (own.2 i mem)))
    exact word.append base |>.append (by decide) |>.append address |>.append listed
  case call result callee arguments =>
    have word : Plain "call " := by decide
    have result := result.plain_text named.1.1
    have callee := callee.plain_text named.1.2 own.1
    exact word.append result |>.append space |>.append callee
      |>.append (plain_operandsText named.2 own.2)
  case alloca type =>
    have word : Plain "alloca " := by decide
    exact word.append (type.plain_text named)
  case select condition type consequent alternative =>
    have word : Plain "select i1 " := by decide
    have condition := condition.plain_text named.1.1.1 own.1
    have type := type.plain_text named.1.1.2
    have consequent := consequent.plain_text named.1.2 own.2.1
    have alternative := alternative.plain_text named.2 own.2.2.1
    exact word.append condition |>.append comma |>.append type |>.append space
      |>.append consequent |>.append comma |>.append type |>.append space |>.append alternative

/-- A terminator with plain names and registers is plain. -/
lemma Term.plain_text {t : Term Label} (named : ∀ n ∈ t.names, Plain n.text)
    (own : ∀ v ∈ t.operands, v.HasPlainRegister) : Plain (t.text BlockLabel.text) := by
  have label : Plain ", label %" := by decide
  cases t with
  | br target =>
    have word : Plain "br label %" := by decide
    exact word.append (plain_labelText target)
  | condBr condition consequent alternative =>
    have word : Plain "br i1 " := by decide
    have condition := condition.plain_text named (own _ (List.mem_singleton_self _))
    exact word.append condition |>.append label |>.append (plain_labelText consequent)
      |>.append label |>.append (plain_labelText alternative)
  | switch type value otherwise cases =>
    obtain ⟨namedType, namedValue⟩ := List.forall_mem_append.1 named
    have word : Plain "switch " := by decide
    have space : Plain " " := by decide
    have plainType := type.plain_text namedType
    have plainValue := value.plain_text namedValue (own _ (List.mem_singleton_self _))
    have listed : Plain (String.join (cases.map fun (key, target) =>
        " " ++ type.text ++ " " ++ toString key ++ ", label %" ++ BlockLabel.text target)) := by
      refine consistsOf_join (List.forall_mem_map.2 ?_)
      rintro ⟨key, target⟩ _
      exact space.append plainType |>.append space |>.append (plain_int key) |>.append label
        |>.append (plain_labelText target)
    exact word.append plainType |>.append space |>.append plainValue |>.append label
      |>.append (plain_labelText otherwise) |>.append (by decide) |>.append listed
      |>.append (by decide)
  | ret operand =>
    cases operand with
    | none => exact (by decide : Plain "ret void")
    | some o =>
      have word : Plain "ret " := by decide
      exact word.append (o.plain_text named (own _ (List.mem_singleton_self _)))
  | unreachable => exact (by decide : Plain "unreachable")

end Instructions

end Target

end ObjectBackend
