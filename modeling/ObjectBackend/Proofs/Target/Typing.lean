import Mathlib.Tactic.Lemma
import ObjectBackend.Target.Draft

/-!
# Well-typed functions

A function is well typed if every register that it uses has the type it is defined with, and every
operation is applied to what it is for (`Function.WellTyped`). The registers of variables are
defined in many places, so their types are given from outside; the others have the type of the
instruction or the phi that defines them (`Function.typeOf?`). What is well typed can be computed.
-/

namespace ObjectBackend.Target

namespace IrType

/-- Whether a type has values that memory can hold. -/
def IsScalar (type : IrType) : Prop := type.scalarSize?.isSome = true

/-- Whether a type is scalar is computed. -/
instance (type : IrType) : Decidable type.IsScalar := inferInstanceAs (Decidable (_ = true))

/-- Whether a number has less bits than another one. -/
def IsNarrower (type other : IrType) : Prop := type.width?.getD 0 < other.width?.getD 0

/-- Whether a type is narrower than another is computed. -/
instance (type other : IrType) : Decidable (type.IsNarrower other) :=
  inferInstanceAs (Decidable (_ < _))

end IrType

/-- The operations on numbers are for integers or for reals. -/
def BinaryOp.Supports (type : IrType) : BinaryOp → Prop
  | .fadd | .fsub | .fmul | .fdiv | .frem => type.isFloating = true
  | .add | .sub | .mul | .sdiv | .srem | .and | .or | .xor | .shl | .ashr | .lshr =>
    type.isInteger = true

/-- Whether an operation supports a type is decided by cases. -/
instance (type : IrType) (op : BinaryOp) : Decidable (op.Supports type) := by
  cases op <;> exact inferInstanceAs (Decidable (_ = true))

/-- Integers have an order, and pointers are the same or not. -/
def Predicate.Supports (type : IrType) : Predicate → Prop
  | .eq | .ne => type.isInteger = true ∨ type = .ptr
  | .slt | .sle | .sgt | .sge => type.isInteger = true

/-- Whether a comparison supports a type is decided by cases. -/
instance (type : IrType) (p : Predicate) : Decidable (p.Supports type) := by
  cases p
  case eq | ne => exact inferInstanceAs (Decidable (_ ∨ _))
  all_goals exact inferInstanceAs (Decidable (_ = true))

/-- The types that a conversion is between. -/
def CastOp.Allows (source target : IrType) : CastOp → Prop
  | .trunc => source.isInteger = true ∧ target.isInteger = true ∧ target.IsNarrower source
  | .zext | .sext => source.isInteger = true ∧ target.isInteger = true ∧ source.IsNarrower target
  | .fptrunc => source.isFloating = true ∧ target.isFloating = true ∧ target.IsNarrower source
  | .fpext => source.isFloating = true ∧ target.isFloating = true ∧ source.IsNarrower target
  | .sitofp => source.isInteger = true ∧ target.isFloating = true
  | .fptosi => source.isFloating = true ∧ target.isInteger = true
  | .bitcast =>
    source.IsScalar ∧ target.IsScalar ∧ (source = .ptr ↔ target = .ptr) ∧
      source.width? = target.width?
  | .ptrtoint => source = .ptr ∧ target.isInteger = true

/-- Whether a cast is allowed is decided by cases. -/
instance (source target : IrType) (op : CastOp) : Decidable (op.Allows source target) := by
  cases op <;> exact inferInstanceAs (Decidable (_ ∧ _))

/-- The type of what an instruction computes, if it computes something. -/
def Instr.type? : Instr → Option IrType
  | binary _ type _ _ | fneg type _ | load type _ | select _ type _ _ | cast _ _ type => some type
  | icmp .. | fcmp .. => some .i1
  | element .. | alloca _ => some .ptr
  | call result _ _ => if result = .void then none else some result
  | store .. => none

/-- The register that a value is. -/
def Value.register? : Value → Option Local
  | register r => some r
  | _ => none

/-- The register that a line defines, with its type. -/
def Line.definition? {ℓ σ : Type} : Line ℓ σ → Option (Local × IrType)
  | define receiver i => (receiver.register?).bind fun r => i.type?.map fun type => (r, type)
  | phi receiver type _ => receiver.register?.map fun r => (r, type)
  | _ => none

/-- The register that is a parameter. -/
def Operand.definition? (o : Operand) : Option (Local × IrType) :=
  o.value.register?.map fun r => (r, o.type)

/-- The registers that lines define, with their types. -/
def Block.definitions {ℓ σ : Type} (b : Block ℓ σ) : List (Local × IrType) :=
  b.lines.filterMap Line.definition?

/-- The registers that a function defines, with their types. -/
def Function.definitions {ℓ : Type} (f : Function ℓ) : List (Local × IrType) :=
  f.parameters.filterMap Operand.definition? ++ f.blocks.flatMap Block.definitions

section Judgements

variable {ℓ σ : Type} (Γ : Local → IrType → Prop)

/-- A value has a type, given the types of registers. Zero and undefined values have whatever type
they are written with. -/
inductive Value.HasType : Value → IrType → Prop
  | register {r : Local} {type : IrType} : Γ r type → HasType (.register r) type
  | symbol {s : Symbol} : HasType (.symbol s) .ptr
  | null : HasType .null .ptr
  | part {base : IrType} {s : Symbol} {indices : List Nat} : HasType (.part base s indices) .ptr
  | offset {base : IrType} {indices : List Nat} : HasType (.offset base indices) .i32
  | int {n : Int} {type : IrType} : type.isInteger = true → HasType (.int n) type
  | real {x : Floating.Binary64} {type : IrType} : type.isFloating = true → HasType (.real x) type
  | bool {value : Bool} : HasType (.bool value) .i1
  | zero {type : IrType} : HasType .zero type
  | undef {type : IrType} : HasType .undef type

/-- An operand is of the type it is given with. -/
def Operand.WellTyped (o : Operand) : Prop := o.value.HasType Γ o.type

/-- An instruction is applied to what it is for. -/
inductive Instr.WellTyped : Instr → Prop
  | binary {op : BinaryOp} {type : IrType} {lhs rhs : Value} : op.Supports type →
      lhs.HasType Γ type → rhs.HasType Γ type → WellTyped (.binary op type lhs rhs)
  | fneg {type : IrType} {value : Value} : type.isFloating = true → value.HasType Γ type →
      WellTyped (.fneg type value)
  | icmp {p : Predicate} {type : IrType} {lhs rhs : Value} : p.Supports type →
      lhs.HasType Γ type → rhs.HasType Γ type → WellTyped (.icmp p type lhs rhs)
  | fcmp {p : RealPredicate} {type : IrType} {lhs rhs : Value} : type.isFloating = true →
      lhs.HasType Γ type → rhs.HasType Γ type → WellTyped (.fcmp p type lhs rhs)
  | cast {op : CastOp} {operand : Operand} {target : IrType} : op.Allows operand.type target →
      operand.WellTyped Γ → WellTyped (.cast op operand target)
  | load {type : IrType} {address : Value} : type.IsScalar → address.HasType Γ .ptr →
      WellTyped (.load type address)
  | store {operand : Operand} {address : Value} : operand.type.IsScalar → operand.WellTyped Γ →
      address.HasType Γ .ptr → WellTyped (.store operand address)
  | element {base : IrType} {address : Value} {indices : List Value} : address.HasType Γ .ptr →
      (∀ i ∈ indices, i.HasType Γ .i32) → WellTyped (.element base address indices)
  | call {result : IrType} {callee : Value} {arguments : List Operand} : callee.HasType Γ .ptr →
      (∀ o ∈ arguments, o.WellTyped Γ) → WellTyped (.call result callee arguments)
  | alloca {type : IrType} : WellTyped (.alloca type)
  | select {condition : Value} {type : IrType} {consequent alternative : Value} :
      condition.HasType Γ .i1 → consequent.HasType Γ type → alternative.HasType Γ type →
      WellTyped (.select condition type consequent alternative)

/-- A block is left with what that takes, in a function with some result. -/
inductive Term.WellTyped (result : IrType) : Term ℓ → Prop
  | br {target : ℓ} : WellTyped result (.br target)
  | condBr {condition : Value} {consequent alternative : ℓ} : condition.HasType Γ .i1 →
      WellTyped result (.condBr condition consequent alternative)
  | switch {type : IrType} {value : Value} {otherwise : ℓ} {cases : List (Int × ℓ)} :
      type.isInteger = true → value.HasType Γ type →
      WellTyped result (.switch type value otherwise cases)
  | ret {value : Value} : result ≠ .void → value.HasType Γ result →
      WellTyped result (.ret (some ⟨result, value⟩))
  | retVoid : result = .void → WellTyped result (.ret none)
  | unreachable : WellTyped result .unreachable

/-- A line is well typed, and a register that it defines has the type of the line. -/
inductive Line.WellTyped (result : IrType) : Line ℓ σ → Prop
  | comment {text : String} : WellTyped result (.comment text)
  | run {i : Instr} : i.WellTyped Γ → WellTyped result (.run i)
  | define {r : Local} {type : IrType} {i : Instr} : Γ r type → i.type? = some type →
      i.WellTyped Γ → WellTyped result (.define (.register r) i)
  | phi {r : Local} {type : IrType} {incomings : List (Value × σ)} : Γ r type →
      (∀ e ∈ incomings, e.1.HasType Γ type) → WellTyped result (.phi (.register r) type incomings)
  | leave {t : Term ℓ} : t.WellTyped Γ result → WellTyped result (.leave t)

end Judgements

/-- The address of a part takes nothing but an address. -/
lemma Instr.WellTyped.fieldOf {Γ : Local → IrType → Prop} {base : IrType} {address : Value}
    {indices : List Int} (typed : address.HasType Γ .ptr) :
    (Instr.fieldOf base address indices).WellTyped Γ :=
  .element typed (List.forall_mem_map.2 fun _ _ => .int rfl)

/-- The zero of a type is of that type. -/
lemma Value.HasType.zeroOf {Γ : Local → IrType → Prop} (type : IrType) :
    (Value.zeroOf type).HasType Γ type := by
  cases type with
  | ptr => exact .null
  | i1 => exact .bool
  | i8 | i16 | i32 | i64 => exact .int rfl
  | float | double => exact .real rfl
  | void | named | array | struct => exact .zero

section More

variable {ℓ σ : Type} {Γ Γ' : Local → IrType → Prop} (more : ∀ r type, Γ r type → Γ' r type)

include more

/-- What is well typed stays so when more registers are known. -/
lemma Value.HasType.mono {type : IrType} {v : Value} (typed : v.HasType Γ type) :
    v.HasType Γ' type := by
  cases typed with
  | register known => exact .register (more _ _ known)
  | int integer => exact .int integer
  | real floating => exact .real floating
  | _ => constructor

/-- An operand is well typed with more registers. -/
lemma Operand.WellTyped.mono {o : Operand} (typed : o.WellTyped Γ) : o.WellTyped Γ' :=
  Value.HasType.mono more typed

/-- An instruction is well typed with more registers. -/
lemma Instr.WellTyped.mono {i : Instr} (typed : i.WellTyped Γ) : i.WellTyped Γ' := by
  cases typed with
  | binary supports lhs rhs => exact .binary supports (lhs.mono more) (rhs.mono more)
  | fneg floating value => exact .fneg floating (value.mono more)
  | icmp supports lhs rhs => exact .icmp supports (lhs.mono more) (rhs.mono more)
  | fcmp floating lhs rhs => exact .fcmp floating (lhs.mono more) (rhs.mono more)
  | cast allows operand => exact .cast allows (operand.mono more)
  | load scalar address => exact .load scalar (address.mono more)
  | store scalar operand address => exact .store scalar (operand.mono more) (address.mono more)
  | element address indices =>
    exact .element (address.mono more) fun i mem => (indices i mem).mono more
  | call callee arguments => exact .call (callee.mono more) fun o mem => (arguments o mem).mono more
  | alloca => exact .alloca
  | select condition consequent alternative =>
    exact .select (condition.mono more) (consequent.mono more) (alternative.mono more)

/-- A terminator is well typed with more registers. -/
lemma Term.WellTyped.mono {result : IrType} {t : Term ℓ} (typed : t.WellTyped Γ result) :
    t.WellTyped Γ' result := by
  cases typed with
  | br => exact .br
  | condBr condition => exact .condBr (condition.mono more)
  | switch integer value => exact .switch integer (value.mono more)
  | ret proper value => exact .ret proper (value.mono more)
  | retVoid void => exact .retVoid void
  | unreachable => exact .unreachable

/-- A line is well typed with more registers. -/
lemma Line.WellTyped.mono {result : IrType} {l : Line ℓ σ} (typed : l.WellTyped Γ result) :
    l.WellTyped Γ' result := by
  cases typed with
  | comment => exact .comment
  | run instr => exact .run (instr.mono more)
  | define known computes instr => exact .define (more _ _ known) computes (instr.mono more)
  | phi known each => exact .phi (more _ _ known) fun e mem => (each e mem).mono more
  | leave term => exact .leave (term.mono more)

end More

section Sources

variable {ℓ σ τ : Type} {Γ : Local → IrType → Prop}

/-- Where the values of a phi come from has nothing to do with types. -/
lemma Line.WellTyped.mapSources (f : σ → τ) {result : IrType} {l : Line ℓ σ}
    (typed : l.WellTyped Γ result) : (l.mapSources f).WellTyped Γ result := by
  cases typed with
  | comment => exact .comment
  | run instr => exact .run instr
  | define known computes instr => exact .define known computes instr
  | phi known each => exact .phi known (List.forall_mem_map.2 each)
  | leave term => exact .leave term

/-- The sources of phis do not matter to what a line defines. -/
lemma Line.definition?_mapSources (f : σ → τ) (l : Line ℓ σ) :
    (l.mapSources f).definition? = l.definition? := by
  cases l <;> rfl

/-- The sources of phis do not matter to what a block defines. -/
lemma Block.definitions_mapSources (f : σ → τ) (b : Block ℓ σ) :
    (b.mapSources f).definitions = b.definitions := by
  rw [definitions, definitions, mapSources, List.filterMap_map]
  exact congrArg (List.filterMap · b.lines) (funext (Line.definition?_mapSources f))

/-- A terminator defines nothing. -/
lemma Block.definitions_terminate (t : Term ℓ) (b : Block ℓ σ) :
    (b.terminate t).definitions = b.definitions := by
  rw [terminate]
  split
  case isTrue => rfl
  case isFalse =>
    rw [definitions, push, List.filterMap_append]
    exact List.append_nil _

end Sources

namespace Function

variable {ℓ : Type}

/-- The type of a register: that of a variable, or that of the first definition. -/
def typeOf? (f : Function ℓ) (types : Var → Option IrType) : Local → Option IrType
  | .var v => types v
  | r => f.definitions.lookup r

/-- Whether every register is defined and used with one type, and everything is applied to what it
is for. -/
structure WellTyped (f : Function ℓ) (types : Var → Option IrType) : Prop where
  parameters : ∀ o ∈ f.parameters, o.WellTyped fun r type => f.typeOf? types r = some type
  lines : ∀ b ∈ f.blocks, ∀ l ∈ b.lines,
    l.WellTyped (fun r type => f.typeOf? types r = some type) f.result

end Function

/-- The type of a register that is not that of a variable is the one it is defined with, if there is
only one. -/
lemma Function.lookup_definitions {Δ : List (Local × IrType)} {r : Local} {type : IrType}
    (mem : (r, type) ∈ Δ) (unique : ∀ type', (r, type') ∈ Δ → type' = type) :
    Δ.lookup r = some type := by
  induction Δ with
  | nil => cases mem
  | cons d Δ ih =>
    obtain ⟨r', type'⟩ := d
    rw [List.lookup_cons]
    split
    case h_1 same =>
      obtain rfl := eq_of_beq same
      rw [unique type' (List.mem_cons_self ..)]
    case h_2 other =>
      cases mem with
      | head => simp at other
      | tail _ mem => exact ih mem fun type'' mem => unique type'' (List.mem_cons_of_mem _ mem)

section Decidable

variable {ℓ σ : Type} {Γ : Local → IrType → Prop} [∀ r type, Decidable (Γ r type)]

/-- Whether a value has a type is decided by its form. -/
instance (type : IrType) (v : Value) : Decidable (v.HasType Γ type) :=
  match v with
  | .register r => decidable_of_iff (Γ r type) ⟨.register, fun | .register known => known⟩
  | .symbol _ => decidable_of_iff (.ptr = type) ⟨fun eq => eq ▸ .symbol, fun | .symbol => rfl⟩
  | .null => decidable_of_iff (.ptr = type) ⟨fun eq => eq ▸ .null, fun | .null => rfl⟩
  | .part .. => decidable_of_iff (.ptr = type) ⟨fun eq => eq ▸ .part, fun | .part => rfl⟩
  | .offset .. => decidable_of_iff (.i32 = type) ⟨fun eq => eq ▸ .offset, fun | .offset => rfl⟩
  | .int _ => decidable_of_iff (type.isInteger = true) ⟨.int, fun | .int integer => integer⟩
  | .real _ => decidable_of_iff (type.isFloating = true) ⟨.real, fun | .real floating => floating⟩
  | .bool _ => decidable_of_iff (.i1 = type) ⟨fun eq => eq ▸ .bool, fun | .bool => rfl⟩
  | .zero => .isTrue .zero
  | .undef => .isTrue .undef
  | .verbatim _ => .isFalse nofun

/-- Whether an operand is well typed is decided by its value. -/
instance (o : Operand) : Decidable (o.WellTyped Γ) :=
  inferInstanceAs (Decidable (o.value.HasType ..))

/-- Whether an instruction is well typed is decided by its form. -/
instance (i : Instr) : Decidable (i.WellTyped Γ) :=
  match i with
  | .binary op type lhs rhs =>
    decidable_of_iff (op.Supports type ∧ lhs.HasType Γ type ∧ rhs.HasType Γ type)
      ⟨fun h => .binary h.1 h.2.1 h.2.2, fun | .binary h h' h'' => ⟨h, h', h''⟩⟩
  | .fneg type value =>
    decidable_of_iff (type.isFloating = true ∧ value.HasType Γ type)
      ⟨fun h => .fneg h.1 h.2, fun | .fneg h h' => ⟨h, h'⟩⟩
  | .icmp p type lhs rhs =>
    decidable_of_iff (p.Supports type ∧ lhs.HasType Γ type ∧ rhs.HasType Γ type)
      ⟨fun h => .icmp h.1 h.2.1 h.2.2, fun | .icmp h h' h'' => ⟨h, h', h''⟩⟩
  | .fcmp _ type lhs rhs =>
    decidable_of_iff (type.isFloating = true ∧ lhs.HasType Γ type ∧ rhs.HasType Γ type)
      ⟨fun h => .fcmp h.1 h.2.1 h.2.2, fun | .fcmp h h' h'' => ⟨h, h', h''⟩⟩
  | .cast op operand target =>
    decidable_of_iff (op.Allows operand.type target ∧ operand.WellTyped Γ)
      ⟨fun h => .cast h.1 h.2, fun | .cast h h' => ⟨h, h'⟩⟩
  | .load type address =>
    decidable_of_iff (type.IsScalar ∧ address.HasType Γ .ptr)
      ⟨fun h => .load h.1 h.2, fun | .load h h' => ⟨h, h'⟩⟩
  | .store operand address =>
    decidable_of_iff (operand.type.IsScalar ∧ operand.WellTyped Γ ∧ address.HasType Γ .ptr)
      ⟨fun h => .store h.1 h.2.1 h.2.2, fun | .store h h' h'' => ⟨h, h', h''⟩⟩
  | .element _ address indices =>
    decidable_of_iff (address.HasType Γ .ptr ∧ ∀ i ∈ indices, i.HasType Γ .i32)
      ⟨fun h => .element h.1 h.2, fun | .element h h' => ⟨h, h'⟩⟩
  | .call _ callee arguments =>
    decidable_of_iff (callee.HasType Γ .ptr ∧ ∀ o ∈ arguments, o.WellTyped Γ)
      ⟨fun h => .call h.1 h.2, fun | .call h h' => ⟨h, h'⟩⟩
  | .alloca _ => .isTrue .alloca
  | .select condition type consequent alternative =>
    decidable_of_iff
      (condition.HasType Γ .i1 ∧ consequent.HasType Γ type ∧ alternative.HasType Γ type)
      ⟨fun h => .select h.1 h.2.1 h.2.2, fun | .select h h' h'' => ⟨h, h', h''⟩⟩

/-- Whether a terminator is well typed is decided by its form. -/
instance (result : IrType) (t : Term ℓ) : Decidable (t.WellTyped Γ result) :=
  match t with
  | .br _ => .isTrue .br
  | .condBr condition _ _ =>
    decidable_of_iff (condition.HasType Γ .i1) ⟨.condBr, fun | .condBr h => h⟩
  | .switch type value _ _ =>
    decidable_of_iff (type.isInteger = true ∧ value.HasType Γ type)
      ⟨fun h => .switch h.1 h.2, fun | .switch h h' => ⟨h, h'⟩⟩
  | .ret (some ⟨type, value⟩) =>
    decidable_of_iff (result = type ∧ result ≠ .void ∧ value.HasType Γ result)
      ⟨fun ⟨eq, h, h'⟩ => eq ▸ .ret h h', fun | .ret h h' => ⟨rfl, h, h'⟩⟩
  | .ret none => decidable_of_iff (result = .void) ⟨.retVoid, fun | .retVoid h => h⟩
  | .unreachable => .isTrue .unreachable

/-- Whether a line is well typed is decided by its form. -/
instance (result : IrType) (l : Line ℓ σ) : Decidable (l.WellTyped Γ result) :=
  match l with
  | .comment _ => .isTrue .comment
  | .run i => decidable_of_iff (i.WellTyped Γ) ⟨.run, fun | .run h => h⟩
  | .define receiver i =>
    decidable_of_iff (∃ r ∈ receiver.register?, ∃ type ∈ i.type?, Γ r type ∧ i.WellTyped Γ) <| by
      constructor
      · rintro ⟨r, isRegister, type, computes, known, instr⟩
        cases receiver <;> cases isRegister
        exact .define known computes instr
      · rintro (_ | _ | ⟨known, computes, instr⟩)
        exact ⟨_, rfl, _, computes, known, instr⟩
  | .phi receiver type incomings =>
    decidable_of_iff
      ((∃ r ∈ receiver.register?, Γ r type) ∧ ∀ e ∈ incomings, e.1.HasType Γ type) <| by
      constructor
      · rintro ⟨⟨r, isRegister, known⟩, each⟩
        cases receiver <;> cases isRegister
        exact .phi known each
      · rintro (_ | _ | _ | ⟨known, each⟩)
        exact ⟨⟨_, rfl, known⟩, each⟩
  | .leave t => decidable_of_iff (t.WellTyped Γ result) ⟨.leave, fun | .leave h => h⟩

end Decidable

/-- Whether a function is well typed is decided line by line. -/
instance {ℓ : Type} (f : Function ℓ) (types : Var → Option IrType) :
    Decidable (f.WellTyped types) :=
  decidable_of_iff ((∀ o ∈ f.parameters, o.WellTyped fun r type => f.typeOf? types r = some type) ∧
    ∀ b ∈ f.blocks, ∀ l ∈ b.lines,
      l.WellTyped (fun r type => f.typeOf? types r = some type) f.result)
    ⟨fun h => ⟨h.1, h.2⟩, fun h => ⟨h.1, h.2⟩⟩

end ObjectBackend.Target
