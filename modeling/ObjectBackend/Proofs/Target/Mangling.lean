import ObjectBackend.Proofs.Floating.Digits
import ObjectBackend.Proofs.Image.LabelText
import ObjectBackend.Proofs.Text.Units
import ObjectBackend.Target.Symbol

/-!
# Mangled names

Different names of a program have different symbols (`mangled_text_injective`). Three codes are
nested: the escape of a code unit, the name behind its length, and the code of a type. Each tells
where it ends, so the parts of a symbol are known from the whole; and what a symbol is for is known
from what comes before its first digit, so that no two kinds of symbols meet.
-/

namespace ObjectBackend.Target

open Text

/-- A plain unit is the number of its character. -/
lemma toNat_ofNat_of_isPlainUnit {unit : Nat} (plain : isPlainUnit unit = true) :
    (Char.ofNat unit).toNat = unit := by
  have small : unit < 0x80 := by
    rw [isPlainUnit, Bool.and_eq_true, decide_eq_true_eq] at plain
    exact plain.1
  have all : ∀ n < 0x80, (Char.ofNat n).toNat = n := by decide
  exact all unit small

/-- A unit that stands for itself is written as a letter or a digit. -/
lemma isAlphanum_of_isPlainUnit {unit : Nat} (plain : isPlainUnit unit = true) :
    (Char.ofNat unit).isAlphanum = true := by
  rw [isPlainUnit, Bool.and_eq_true] at plain
  exact plain.2

/-- Hexadecimal digits are letters and digits. -/
lemma isAlphanum_hexDigit {n : Nat} (lt : n < 16) : (hexDigit n).isAlphanum = true := by
  have all : ∀ n < 16, (hexDigit n).isAlphanum = true := by decide
  exact all n lt

/-- An escaped unit consists of letters, digits and underscores. -/
lemma isAlphanum_of_mem_escapeUnit {unit : Nat} {c : Char} (mem : c ∈ escapeUnit unit) :
    c.isAlphanum = true ∨ c = '_' := by
  rw [escapeUnit] at mem
  split at mem
  case isTrue =>
    simp only [List.mem_cons, List.not_mem_nil, or_false, or_self] at mem
    exact .inr mem
  case isFalse =>
    split at mem
    case isTrue plain =>
      rw [List.mem_singleton.1 mem]
      exact .inl (isAlphanum_of_isPlainUnit plain)
    case isFalse =>
      rcases List.mem_cons.1 mem with rfl | mem
      · exact .inr rfl
      · obtain ⟨d, lt, rfl⟩ := mem_fixedHex mem
        exact .inl (isAlphanum_hexDigit lt)

/-- An escaped name consists of letters, digits and underscores. -/
lemma isAlphanum_of_mem_escape {name : String} {c : Char} (mem : c ∈ escape name) :
    c.isAlphanum = true ∨ c = '_' := by
  obtain ⟨unit, _, mem⟩ := List.mem_flatMap.1 mem
  exact isAlphanum_of_mem_escapeUnit mem

/-- The forms of an escaped unit. -/
inductive Escaped : Nat → List Char → Prop where
  | underscore : Escaped '_'.toNat ['_', '_']
  | plain {unit : Nat} : isPlainUnit unit = true → Escaped unit [Char.ofNat unit]
  | digits {unit : Nat} {d : Char} {ds : List Char} :
    fixedHex 4 unit = d :: ds →
    d.isAlphanum = true →
    Escaped unit ('_' :: d :: ds)

/-- The escape of a unit escapes it. -/
lemma escaped_escapeUnit (unit : Nat) : Escaped unit (escapeUnit unit) := by
  rw [escapeUnit]
  split
  case isTrue eq =>
    subst eq
    exact .underscore
  case isFalse =>
    split
    case isTrue plain => exact .plain plain
    case isFalse =>
      cases digits : fixedHex 4 unit with
      | nil =>
        have length := length_fixedHex 4 unit
        rw [digits] at length
        cases length
      | cons d ds =>
        refine .digits digits ?_
        obtain ⟨n, lt, rfl⟩ := mem_fixedHex (digits ▸ List.mem_cons_self ..)
        exact isAlphanum_hexDigit lt

/-- No letter or digit is an underscore. -/
lemma ne_underscore {c : Char} (alphanum : c.isAlphanum = true) : c ≠ '_' := by
  rintro rfl
  cases alphanum

/-- Each unit has an escape that is not empty. -/
lemma escapeUnit_ne_nil (unit : Nat) : escapeUnit unit ≠ [] := by
  have escaped := escaped_escapeUnit unit
  generalize escapeUnit unit = cs at escaped
  cases escaped <;> exact List.cons_ne_nil _ _

/-- The escape of a code unit tells where it ends: behind an underscore either another one follows
or four digits. -/
lemma escapeUnit_selfDelimiting : SelfDelimiting {unit | unit < 0x10000} escapeUnit := by
  intro u ltu v ltv xs ys eq
  -- the first two characters tell the three forms apart
  have escapedu := escaped_escapeUnit u
  have escapedv := escaped_escapeUnit v
  generalize escapeUnit u = cs at eq escapedu
  generalize escapeUnit v = cs' at eq escapedv
  cases escapedu with
  | underscore =>
    cases escapedv with
    | underscore => exact ⟨rfl, List.append_cancel_left eq⟩
    | plain plain =>
      exact absurd (List.cons_eq_cons.1 eq).1.symm (ne_underscore (isAlphanum_of_isPlainUnit plain))
    | digits _ digit =>
      have second := (List.cons_eq_cons.1 (List.cons_eq_cons.1 eq).2).1
      exact absurd second.symm (ne_underscore digit)
  | plain plain =>
    have letter := ne_underscore (isAlphanum_of_isPlainUnit plain)
    cases escapedv with
    | underscore => exact absurd (List.cons_eq_cons.1 eq).1 letter
    | plain plain' =>
      obtain ⟨first, rest⟩ := List.cons_eq_cons.1 eq
      refine ⟨?_, rest⟩
      rw [← toNat_ofNat_of_isPlainUnit plain, first, toNat_ofNat_of_isPlainUnit plain']
    | digits _ _ => exact absurd (List.cons_eq_cons.1 eq).1 letter
  | digits hex digit =>
    cases escapedv with
    | underscore =>
      have second := (List.cons_eq_cons.1 (List.cons_eq_cons.1 eq).2).1
      exact absurd second (ne_underscore digit)
    | plain plain =>
      exact absurd (List.cons_eq_cons.1 eq).1.symm (ne_underscore (isAlphanum_of_isPlainUnit plain))
    | digits hex' _ =>
      have behind := (List.cons_eq_cons.1 eq).2
      rw [← hex, ← hex'] at behind
      obtain ⟨digits, rest⟩ :=
        List.append_inj behind (by rw [length_fixedHex, length_fixedHex])
      exact ⟨fixedHex_inj ltu ltv digits, rest⟩

/-- A name is known from its escaped form. -/
lemma escape_injective : Function.Injective escape := fun _ _ eq =>
  unitsOf_injective (escapeUnit_selfDelimiting.eq_of_flatMap_eq escapeUnit_ne_nil
    (fun _ => lt_of_mem_unitsOf) (fun _ => lt_of_mem_unitsOf) eq)

/-- Numbers that are written alike are the same. -/
lemma toDigits_inj {m n : Nat} (eq : Nat.toDigits 10 m = Nat.toDigits 10 n) : m = n := by
  rw [← Nat.ofDigitChars_ten_toDigits (n := m), eq, Nat.ofDigitChars_ten_toDigits]

/-- A name behind its length tells where it ends. -/
lemma sized_selfDelimiting : SelfDelimiting Set.univ sized := by
  intro a _ b _ xs ys eq
  simp only [sized, List.append_assoc, List.cons_append] at eq
  -- the length ends at the first underscore
  have noDigit : ∀ n, ∀ c ∈ Nat.toDigits 10 n, (c == '_') = false := by
    intro n c mem
    refine beq_false_of_ne (ne_underscore ?_)
    rw [Char.isAlphanum, Floating.isDigit_toDigits _ mem, Bool.or_true]
  obtain ⟨lengths, behind⟩ := eq_of_append_cons_eq (P := (· == '_')) eq (noDigit _) (noDigit _)
    (beq_self_eq_true _) (beq_self_eq_true _)
  obtain ⟨names, rest⟩ := List.append_inj (List.cons_eq_cons.1 behind).2 (toDigits_inj lengths)
  exact ⟨escape_injective names, rest⟩

/-- Primitive types have different codes. -/
lemma primitiveCode_injective : Function.Injective primitiveCode := by
  intro a b eq
  cases a <;> cases b <;> first | rfl | cases eq

/-- The code of a type tells where it ends, since its first letter says what follows. -/
lemma typeCode_selfDelimiting : SelfDelimiting Set.univ typeCode := by
  intro a _ b _ xs ys eq
  induction a generalizing b with
  | void =>
    cases b with
    | void => exact ⟨rfl, (List.cons_eq_cons.1 eq).2⟩
    | primitive type => cases type <;> cases (List.cons_eq_cons.1 eq).1
    | object | array => cases (List.cons_eq_cons.1 eq).1
  | primitive type =>
    cases b with
    | primitive type' =>
      obtain ⟨letters, rest⟩ := List.cons_eq_cons.1 eq
      exact ⟨congrArg _ (primitiveCode_injective letters), rest⟩
    | void | object | array => cases type <;> cases (List.cons_eq_cons.1 eq).1
  | object className =>
    cases b with
    | object className' =>
      obtain ⟨names, rest⟩ := sized_selfDelimiting (Set.mem_univ _) (Set.mem_univ _)
        (List.cons_eq_cons.1 eq).2
      exact ⟨congrArg _ names, rest⟩
    | primitive type => cases type <;> cases (List.cons_eq_cons.1 eq).1
    | void | array => cases (List.cons_eq_cons.1 eq).1
  | array item ih =>
    cases b with
    | array item' =>
      obtain ⟨items, rest⟩ := ih (Set.mem_univ _) (Set.mem_univ _) (List.cons_eq_cons.1 eq).2
      exact ⟨congrArg _ items, rest⟩
    | primitive type => cases type <;> cases (List.cons_eq_cons.1 eq).1
    | void | object => cases (List.cons_eq_cons.1 eq).1

/-- The code of a type is not empty. -/
lemma typeCode_ne_nil (type : ValueType) : typeCode type ≠ [] := by
  cases type <;> exact List.cons_ne_nil _ _

/-- A method is known from the parts of its symbol. -/
lemma methodParts_injective : Function.Injective methodParts := by
  intro m n eq
  simp only [methodParts, List.append_assoc] at eq
  obtain ⟨classes, eq⟩ := sized_selfDelimiting (Set.mem_univ _) (Set.mem_univ _) eq
  obtain ⟨names, eq⟩ := sized_selfDelimiting (Set.mem_univ _) (Set.mem_univ _) eq
  obtain ⟨results, eq⟩ := typeCode_selfDelimiting (Set.mem_univ _) (Set.mem_univ _) eq
  have parameters := typeCode_selfDelimiting.eq_of_flatMap_eq typeCode_ne_nil
    (fun _ _ => Set.mem_univ _) (fun _ _ => Set.mem_univ _) eq
  obtain ⟨className, name, parameters, result⟩ := m
  obtain ⟨className', name', parameters', result'⟩ := n
  subst classes names results parameters
  rfl

/-- Names that are written alike with their sizes are the same. -/
lemma sized_injective : Function.Injective sized := fun _ _ =>
  sized_selfDelimiting.inj (Set.mem_univ _) (Set.mem_univ _)

/-- A name behind its length starts with a digit. -/
lemma exists_digit_sized (name : String) :
    ∃ d rest, d.isDigit = true ∧ sized name = d :: rest := by
  cases digits : Nat.toDigits 10 (escape name).length with
  | nil => exact absurd digits Nat.toDigits_ne_nil
  | cons d ds =>
    have mem : d ∈ Nat.toDigits 10 (escape name).length := digits ▸ List.mem_cons_self ..
    refine ⟨d, ds ++ '_' :: escape name, Floating.isDigit_toDigits _ mem, ?_⟩
    rw [sized, digits]
    rfl

/-- The kinds of symbols that names of a program are mangled to. -/
inductive MangledKind where
  | method
  /-- A static field. -/
  | field
  /-- The metadata of a class, and their type. -/
  | metadata
  /-- The type of the instances of a class. -/
  | instances
  /-- The table of a class's own reference fields. -/
  | fieldTable
  | initializer
deriving DecidableEq

/-- What the symbols of a kind start with. -/
def MangledKind.start : MangledKind → String
  | method => "m"
  | field => "f"
  | metadata => "vtable."
  | instances => "class."
  | fieldTable => "fields."
  | initializer => "initializer_"

/-- The kinds of mangled names start differently. -/
lemma MangledKind.start_injective : Function.Injective start := by
  intro k k' eq
  cases k <;> cases k' <;> first | rfl | exact absurd eq (by decide)

/-- There is no digit at the start. -/
lemma MangledKind.isDigit_of_mem_start {k : MangledKind} {c : Char} (mem : c ∈ k.start.toList) :
    c.isDigit = false := by
  have plain : k.start.toList.all (!·.isDigit) = true := by cases k <;> decide
  simpa using List.all_eq_true.1 plain c mem

/-- What a program's names are mangled for. -/
inductive Mangled where
  | method (method : MethodRef)
  | field (className name : String)
  | metadata (className : String)
  | instances (className : String)
  | fieldTable (className : String)
  | initializer (className : String)

namespace Mangled

/-- The symbol, or the name of the type. -/
def text : Mangled → String
  | method m => (Symbol.method m).text
  | field className name => (Symbol.field className name).text
  | metadata className => (Symbol.metadata className).text
  | instances className => (TypeName.instances className).text
  | fieldTable className => (Symbol.fieldTable className).text
  | initializer className => (Symbol.initializer className).text

/-- Which kind of symbol it is. -/
def kind : Mangled → MangledKind
  | method _ => .method
  | field _ _ => .field
  | metadata _ => .metadata
  | instances _ => .instances
  | fieldTable _ => .fieldTable
  | initializer _ => .initializer

/-- What follows the start. -/
def parts : Mangled → List Char
  | method m => methodParts m
  | field className name => sized className ++ sized name
  | metadata className | instances className | fieldTable className | initializer className =>
    sized className

variable {s s' : Mangled}

/-- A mangled text is the start of its kind and then its parts. -/
lemma toList_text (s : Mangled) : s.text.toList = s.kind.start.toList ++ s.parts := by
  cases s <;> simp [text, Symbol.text, TypeName.text, kind, MangledKind.start, parts]

/-- What follows the start is a digit. -/
lemma exists_digit_parts (s : Mangled) : ∃ d rest, d.isDigit = true ∧ s.parts = d :: rest := by
  have leading : ∃ name rest, s.parts = sized name ++ rest := by
    cases s with
    | method m =>
      rw [parts, methodParts, List.append_assoc, List.append_assoc]
      exact ⟨m.className, _, rfl⟩
    | field className name => exact ⟨className, sized name, rfl⟩
    | metadata className | instances className | fieldTable className | initializer className =>
      exact ⟨className, [], (List.append_nil _).symm⟩
  obtain ⟨name, rest, eq⟩ := leading
  obtain ⟨d, ds, digit, first⟩ := exists_digit_sized name
  exact ⟨d, ds ++ rest, digit, by rw [eq, first]; rfl⟩

/-- A text without a digit is none of the symbols. -/
lemma text_ne {text : String} (plain : text.toList.all (!·.isDigit) = true) : s.text ≠ text := by
  rintro rfl
  obtain ⟨d, rest, digit, eq⟩ := s.exists_digit_parts
  rw [toList_text, eq] at plain
  have no := List.all_eq_true.1 plain d (List.mem_append_right _ (List.mem_cons_self ..))
  rw [digit] at no
  cases no

/-- The kind of a symbol and what follows the start are known from its text. -/
lemma kind_eq (eq : s.text = s'.text) : s.kind = s'.kind ∧ s.parts = s'.parts := by
  obtain ⟨d, rest, digit, parts⟩ := s.exists_digit_parts
  obtain ⟨d', rest', digit', parts'⟩ := s'.exists_digit_parts
  have chars := congrArg String.toList eq
  rw [toList_text, toList_text, parts, parts'] at chars
  rw [parts, parts']
  obtain ⟨starts, same⟩ := eq_of_append_cons_eq chars
    (fun _ => MangledKind.isDigit_of_mem_start) (fun _ => MangledKind.isDigit_of_mem_start)
    digit digit'
  exact ⟨MangledKind.start_injective (String.toList_inj.1 starts), same⟩

/-- A beginning of a symbol that has no digit is a beginning of its start. -/
lemma isPrefix_start {family : List Char} (plain : family.all (!·.isDigit) = true)
    (begins : family <+: s.text.toList) : family <+: s.kind.start.toList := by
  obtain ⟨d, rest, digit, parts⟩ := s.exists_digit_parts
  rw [toList_text, parts] at begins
  rcases List.prefix_or_prefix_of_prefix begins
    (List.prefix_append s.kind.start.toList (d :: rest)) with short | ⟨behind, long⟩
  · exact short
  · cases behind with
    | nil =>
      rw [List.append_nil] at long
      exact long ▸ List.prefix_rfl
    | cons c cs =>
      -- the text would go on with the digit
      rw [← long, List.prefix_append_right_inj] at begins
      obtain rfl := (List.cons_prefix_cons.1 begins).1
      have no := List.all_eq_true.1 plain c (long ▸ List.mem_append_right _ (List.mem_cons_self ..))
      rw [digit] at no
      cases no

/-- Within a kind, what is mangled is known from what follows the start. -/
lemma eq_of_parts_eq (kinds : s.kind = s'.kind) (eq : s.parts = s'.parts) : s = s' := by
  cases s with
  | method m =>
    cases s' with
    | method m' => rw [methodParts_injective eq]
    | field | metadata | instances | fieldTable | initializer => cases kinds
  | field className name =>
    cases s' with
    | field className' name' =>
      obtain ⟨classes, names⟩ := sized_selfDelimiting (Set.mem_univ _) (Set.mem_univ _) eq
      rw [classes, sized_injective names]
    | method | metadata | instances | fieldTable | initializer => cases kinds
  | metadata className =>
    cases s' with
    | metadata className' => rw [sized_injective eq]
    | method | field | instances | fieldTable | initializer => cases kinds
  | instances className =>
    cases s' with
    | instances className' => rw [sized_injective eq]
    | method | field | metadata | fieldTable | initializer => cases kinds
  | fieldTable className =>
    cases s' with
    | fieldTable className' => rw [sized_injective eq]
    | method | field | metadata | instances | initializer => cases kinds
  | initializer className =>
    cases s' with
    | initializer className' => rw [sized_injective eq]
    | method | field | metadata | instances | fieldTable => cases kinds

end Mangled

/-- Mangling is injective, within each kind of symbols and across them. No mangled name is that of
the entry point, or starts like the names of the environment, of literals or of call sites; and an
escaped name consists of letters, digits and underscores of ASCII. -/
theorem mangled_text_injective :
    Function.Injective Mangled.text ∧
    (∀ s : Mangled, s.text ≠ Symbol.main.text ∧
      ∀ family ∈ ["rt.", "str.", "callsite."], ¬family.toList <+: s.text.toList) ∧
    ∀ (name : String), ∀ c ∈ escape name, c.isAlphanum = true ∨ c = '_' := by
  refine ⟨fun s s' eq => ?_, fun s => ⟨Mangled.text_ne (by decide), fun family mem begins => ?_⟩,
    fun name c => isAlphanum_of_mem_escape⟩
  · obtain ⟨kinds, parts⟩ := Mangled.kind_eq eq
    exact Mangled.eq_of_parts_eq kinds parts
  · have plain : ∀ family ∈ ["rt.", "str.", "callsite."],
        family.toList.all (!·.isDigit) = true := by decide
    have other : ∀ (k : MangledKind), ∀ family ∈ ["rt.", "str.", "callsite."],
        ¬family.toList <+: k.start.toList := by
      intro k
      cases k <;> decide
    exact other s.kind family mem (Mangled.isPrefix_start (plain family mem) begins)

end ObjectBackend.Target
