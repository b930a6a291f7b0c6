import ObjectBackend.Proofs.Target.Mangling

/-!
# Texts of symbols

Symbols that a module gives names to have different texts (`Symbol.eq_of_text_eq`), and so have
types (`TypeName.eq_of_text_eq`). Most texts are a start without digits and then a digit, so that
both parts can be read off; the others are a few fixed texts.
-/

namespace ObjectBackend.Target

/-- Whether a symbol has a name that is given from outside. -/
def Symbol.isGiven : Symbol → Bool
  | .named _ => true
  | _ => false

/-- Whether a type has a name that is given from outside. -/
def TypeName.isGiven : TypeName → Bool
  | .named _ => true
  | _ => false

namespace RuntimeSymbol

/-- Every run-time symbol. -/
def all : List RuntimeSymbol :=
  [stackTop, pendingException, init, alloc, allocArray, cloneArray, throw, catchException,
    selectHandler, initStringPool, stackRoots, callSites, callSiteCount] ++ Numeric.all.map compare

/-- Each symbol of the environment is in the list of all. -/
lemma mem_all (s : RuntimeSymbol) : s ∈ all := by
  cases s with
  | compare type => cases type <;> decide
  | _ => decide

end RuntimeSymbol

/-- The symbols that do not depend on a program. -/
def fixedSymbols : List Symbol :=
  Symbol.main :: (ElementKind.all.map .arrayMetadata ++ RuntimeSymbol.all.map .runtime)

/-- What a symbol starts with if it goes on with a digit: the length of a name, or a number. -/
def Symbol.start? : Symbol → Option String
  | .method _ => some "m"
  | .field .. => some "f"
  | .metadata _ => some "vtable."
  | .fieldTable _ => some "fields."
  | .initializer _ => some "initializer_"
  | .literal _ => some "str."
  | .literalChars _ => some "str.chars."
  | .handlers _ => some "callsite."
  | _ => none

/-- What follows the start. -/
def Symbol.numbered : Symbol → List Char
  | .method m => methodParts m
  | .field className name => sized className ++ sized name
  | .metadata className | .fieldTable className | .initializer className => sized className
  | .literal n | .literalChars n | .handlers n => Nat.toDigits 10 n
  | _ => []

open Text

namespace Symbol

variable {s s' : Symbol} {start : String}

/-- A number starts with a digit. -/
lemma exists_digit_toDigits (n : Nat) :
    ∃ d rest, d.isDigit = true ∧ Nat.toDigits 10 n = d :: rest := by
  cases digits : Nat.toDigits 10 n with
  | nil => exact absurd digits Nat.toDigits_ne_nil
  | cons d rest =>
    exact ⟨d, rest, Floating.isDigit_toDigits _ (digits ▸ List.mem_cons_self ..), rfl⟩

/-- A symbol with a start goes on with a digit. -/
lemma exists_digit_numbered (begins : s.start? = some start) :
    ∃ d rest, d.isDigit = true ∧ s.numbered = d :: rest := by
  cases s with
  | method m => exact Mangled.exists_digit_parts (.method m)
  | field className name => exact Mangled.exists_digit_parts (.field className name)
  | metadata className | fieldTable className | initializer className =>
    exact exists_digit_sized className
  | literal n | literalChars n | handlers n => exact exists_digit_toDigits n
  | arrayMetadata | runtime | main | named => cases begins

/-- The text of a symbol is its start and then what is numbered. -/
lemma toList_text (begins : s.start? = some start) :
    s.text.toList = start.toList ++ s.numbered := by
  cases s with
  | arrayMetadata | runtime | main | named => cases begins
  | _ =>
    cases begins
    simp [text, numbered]

/-- There is no digit in what a symbol starts with. -/
lemma isDigit_of_mem_start (begins : s.start? = some start) :
    ∀ c ∈ start.toList, c.isDigit = false := by
  have plain : start.toList.all (!·.isDigit) = true := by
    cases s <;> cases begins <;> decide
  intro c mem
  simpa using List.all_eq_true.1 plain c mem

/-- The start of a symbol and what follows it are known from the text. -/
lemma start_eq {start' : String} (begins : s.start? = some start)
    (begins' : s'.start? = some start')
    (eq : s.text = s'.text) : start = start' ∧ s.numbered = s'.numbered := by
  obtain ⟨d, rest, digit, follows⟩ := exists_digit_numbered begins
  obtain ⟨d', rest', digit', follows'⟩ := exists_digit_numbered begins'
  have chars := congrArg String.toList eq
  rw [toList_text begins, toList_text begins', follows, follows'] at chars
  rw [follows, follows']
  obtain ⟨starts, same⟩ := eq_of_append_cons_eq chars (isDigit_of_mem_start begins)
    (isDigit_of_mem_start begins') digit digit'
  exact ⟨String.toList_inj.1 starts, same⟩

/-- A symbol without start is one of the fixed ones, unless its name is given. -/
lemma mem_fixedSymbols (given : s.isGiven = false) (fixed : s.start? = none) :
    s ∈ fixedSymbols := by
  cases s with
  | main => exact List.mem_cons_self ..
  | arrayMetadata kind => cases kind <;> decide
  | runtime r =>
    exact List.mem_cons_of_mem _
      (List.mem_append_right _ (List.mem_map_of_mem (RuntimeSymbol.mem_all r)))
  | named => cases given
  | _ => cases fixed

/-- A fixed symbol has no start. -/
lemma text_ne_of_mem_fixedSymbols (begins : s.start? = some start) (mem : s' ∈ fixedSymbols) :
    s.text ≠ s'.text := by
  intro eq
  obtain ⟨d, rest, digit, follows⟩ := exists_digit_numbered begins
  have before : s'.text.toList.takeWhile (!·.isDigit) = start.toList := by
    rw [← eq, toList_text begins, follows,
      List.takeWhile_append_of_pos (by simpa using isDigit_of_mem_start begins),
      List.takeWhile_cons_of_neg (by simpa), List.append_nil]
  have starts : start ∈
      ["m", "f", "vtable.", "fields.", "initializer_", "str.", "str.chars.", "callsite."] := by
    cases s <;> cases begins <;> decide
  have none : ∀ s' ∈ fixedSymbols, ∀ start ∈
      ["m", "f", "vtable.", "fields.", "initializer_", "str.", "str.chars.", "callsite."],
      s'.text.toList.takeWhile (!·.isDigit) ≠ start.toList := by
    decide +kernel
  exact none s' mem start starts before

/-- The fixed symbols have different texts. -/
lemma eq_of_mem_fixedSymbols (mem : s ∈ fixedSymbols) (mem' : s' ∈ fixedSymbols)
    (eq : s.text = s'.text) : s = s' := by
  have distinct : ∀ s ∈ fixedSymbols, ∀ s' ∈ fixedSymbols, s.text = s'.text → s = s' := by
    decide +kernel
  exact distinct s mem s' mem' eq

/-- A symbol with a start is known from it and from what follows. -/
lemma eq_of_numbered_eq (begins : s.start? = some start) (begins' : s'.start? = some start)
    (eq : s.numbered = s'.numbered) : s = s' := by
  have starts : s.start? = s'.start? := begins.trans begins'.symm
  cases s with
  | method m =>
    cases s' with
    | method m' => rw [methodParts_injective eq]
    | _ => simp [start?] at starts
  | field className name =>
    cases s' with
    | field className' name' =>
      obtain ⟨classes, names⟩ := sized_selfDelimiting (Set.mem_univ _) (Set.mem_univ _) eq
      rw [classes, sized_injective names]
    | _ => simp [start?] at starts
  | metadata className =>
    cases s' with
    | metadata className' => rw [sized_injective eq]
    | _ => simp [start?] at starts
  | fieldTable className =>
    cases s' with
    | fieldTable className' => rw [sized_injective eq]
    | _ => simp [start?] at starts
  | initializer className =>
    cases s' with
    | initializer className' => rw [sized_injective eq]
    | _ => simp [start?] at starts
  | literal n =>
    cases s' with
    | literal n' => rw [toDigits_inj eq]
    | _ => simp [start?] at starts
  | literalChars n =>
    cases s' with
    | literalChars n' => rw [toDigits_inj eq]
    | _ => simp [start?] at starts
  | handlers n =>
    cases s' with
    | handlers n' => rw [toDigits_inj eq]
    | _ => simp [start?] at starts
  | arrayMetadata | runtime | main | named => cases begins

/-- Symbols are known from their texts, unless their names are given from outside. -/
lemma eq_of_text_eq (given : s.isGiven = false) (given' : s'.isGiven = false)
    (eq : s.text = s'.text) : s = s' := by
  cases begins : s.start? with
  | some start =>
    cases begins' : s'.start? with
    | some start' =>
      obtain ⟨rfl, numbered⟩ := start_eq begins begins' eq
      exact eq_of_numbered_eq begins begins' numbered
    | none =>
      exact absurd eq (text_ne_of_mem_fixedSymbols begins (mem_fixedSymbols given' begins'))
  | none =>
    have mem := mem_fixedSymbols given begins
    cases begins' : s'.start? with
    | some start' => exact absurd eq.symm (text_ne_of_mem_fixedSymbols begins' mem)
    | none => exact eq_of_mem_fixedSymbols mem (mem_fixedSymbols given' begins') eq

end Symbol

namespace TypeName

variable {t t' : TypeName}

/-- No class has a type whose name is one of the environment. -/
lemma text_runtime_ne (m : Mangled) (type : RuntimeType) : m.text ≠ (runtime type).text :=
  Mangled.text_ne (by cases type <;> decide)

/-- Types are known from their names, unless these are given from outside. -/
lemma eq_of_text_eq (given : t.isGiven = false) (given' : t'.isGiven = false)
    (eq : t.text = t'.text) : t = t' := by
  cases t with
  | instances c =>
    cases t' with
    | instances c' =>
      have mangled : (Mangled.instances c).text = (Mangled.instances c').text := eq
      rw [sized_injective (Mangled.kind_eq mangled).2]
    | metadata c' =>
      have mangled : (Mangled.instances c).text = (Mangled.metadata c').text := eq
      exact nomatch (Mangled.kind_eq mangled).1
    | runtime type => exact absurd eq (text_runtime_ne (.instances c) type)
    | named => cases given'
  | metadata c =>
    cases t' with
    | instances c' =>
      have mangled : (Mangled.metadata c).text = (Mangled.instances c').text := eq
      exact nomatch (Mangled.kind_eq mangled).1
    | metadata c' =>
      have mangled : (Mangled.metadata c).text = (Mangled.metadata c').text := eq
      rw [sized_injective (Mangled.kind_eq mangled).2]
    | runtime type => exact absurd eq (text_runtime_ne (.metadata c) type)
    | named => cases given'
  | runtime type =>
    cases t' with
    | instances c' => exact absurd eq.symm (text_runtime_ne (.instances c') type)
    | metadata c' => exact absurd eq.symm (text_runtime_ne (.metadata c') type)
    | runtime type' => cases type <;> cases type' <;> first | rfl | exact absurd eq (by decide)
    | named => cases given'
  | named => cases given

end TypeName

end ObjectBackend.Target
