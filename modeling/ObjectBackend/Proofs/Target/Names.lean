import Mathlib.Tactic.Lemma
import ObjectBackend.Target.Draft
import ObjectBackend.Target.Module

/-!
# Names in a module

The names that each part of a module refers to, and the name that an entry gives a meaning to. What
a draft refers to is what its lines do (`Draft.mem_names_push` and the lemmas after it), and
finishing the draft changes nothing about it.
-/

namespace ObjectBackend.Target

/-- What one entry of a module can refer to another one by. -/
inductive Name where
  /-- A function or data. -/
  | symbol (symbol : Symbol)
  /-- A structure type. -/
  | type (name : TypeName)
  /-- A constant given as text, which can contain any name. -/
  | verbatim (text : String)
deriving DecidableEq

/-- The text of a name, which tells symbols from types. -/
def Name.text : Name → String
  | symbol s => "@" ++ s.text
  | type name => "%" ++ name.text
  | verbatim text => text

namespace IrType

mutual

/-- The names in a type. -/
def names : IrType → List Name
  | named name => [.type name]
  | array _ item => item.names
  | struct fields => namesOf fields
  | void | i1 | i8 | i16 | i32 | i64 | float | double | ptr => []

/-- The names in several types. -/
def namesOf : List IrType → List Name
  | [] => []
  | type :: types => type.names ++ namesOf types

end

/-- Types refer to what each of them refers to. -/
lemma namesOf_eq (types : List IrType) : namesOf types = types.flatMap names := by
  induction types with
  | nil => rfl
  | cons type types ih => rw [namesOf, ih, List.flatMap_cons]

/-- The type of a kind refers to nothing. -/
@[simp] lemma names_ofKind (kind : Kind) : (ofKind kind).names = [] := by cases kind <;> rfl

/-- The type of an element refers to nothing. -/
@[simp] lemma names_element (kind : ElementKind) : (element kind).names = [] := by
  cases kind <;> rfl

/-- The type of a value refers to nothing. -/
@[simp] lemma names_ofValue (type : ValueType) : (ofValue type).names = [] := by
  rw [ofValue]
  cases type.kind with
  | none => rfl
  | some kind => exact names_ofKind kind

/-- The type a value is stored as refers to nothing. -/
@[simp] lemma names_storage (type : ValueType) : (storage type).names = [] := by
  cases type with
  | primitive type => exact names_element _
  | _ => rfl

end IrType

/-- A type of the environment refers to its name. -/
@[simp] lemma IrType.names_runtime (type : RuntimeType) :
    (runtime type).names = [.type (.runtime type)] := rfl

/-- The names in a value. -/
def Value.names : Value → List Name
  | symbol s => [.symbol s]
  | part base s _ => .symbol s :: base.names
  | offset base _ => base.names
  | verbatim text => [.verbatim text]
  | register _ | int _ | real _ | bool _ | null | zero | undef => []

namespace Value

/-- A register refers to nothing. -/
@[simp] lemma names_register (r : Local) : (register r).names = [] := rfl

/-- A symbol refers to itself. -/
@[simp] lemma names_symbol (s : Symbol) : (symbol s).names = [.symbol s] := rfl

/-- An integer refers to nothing. -/
@[simp] lemma names_int (n : Int) : (int n).names = [] := rfl

/-- A truth value refers to nothing. -/
@[simp] lemma names_bool (value : Bool) : (bool value).names = [] := rfl

/-- The null address refers to nothing. -/
@[simp] lemma names_null : null.names = [] := rfl

/-- The address of a part refers to the symbol and to its type. -/
@[simp] lemma names_part (base : IrType) (s : Symbol) (indices : List Nat) :
    (part base s indices).names = .symbol s :: base.names := rfl

/-- The offset of a part refers to the type. -/
@[simp] lemma names_offset (base : IrType) (indices : List Nat) :
    (offset base indices).names = base.names := rfl

/-- A variable refers to nothing. -/
@[simp] lemma names_ofVar (v : Var) : (ofVar v).names = [] := rfl

/-- A routine of the environment refers to its symbol. -/
@[simp] lemma names_ofRuntime (s : RuntimeSymbol) :
    (ofRuntime s).names = [.symbol (.runtime s)] := rfl

/-- A zero refers to nothing. -/
@[simp] lemma names_zeroOf (type : IrType) : (zeroOf type).names = [] := by
  cases type <;> rfl

end Value

/-- The names in an operand. -/
def Operand.names (o : Operand) : List Name := o.type.names ++ o.value.names

/-- An operand refers to its type and its value. -/
@[simp] lemma Operand.names_mk (type : IrType) (v : Value) :
    (mk type v).names = type.names ++ v.names := rfl

/-- An address refers to its value. -/
@[simp] lemma Operand.names_ptr (v : Value) : (ptr v).names = v.names := rfl

/-- A word refers to nothing. -/
@[simp] lemma Operand.names_i32 (n : Int) : (i32 n).names = [] := rfl

/-- The names in an instruction. -/
def Instr.names : Instr → List Name
  | binary _ type lhs rhs | icmp _ type lhs rhs | fcmp _ type lhs rhs =>
    type.names ++ lhs.names ++ rhs.names
  | fneg type value => type.names ++ value.names
  | cast _ operand target => operand.names ++ target.names
  | load type address => type.names ++ address.names
  | store operand address => operand.names ++ address.names
  | element base address indices => base.names ++ address.names ++ indices.flatMap Value.names
  | call result callee arguments =>
    result.names ++ callee.names ++ arguments.flatMap Operand.names
  | alloca type => type.names
  | select condition type consequent alternative =>
    condition.names ++ type.names ++ consequent.names ++ alternative.names

namespace Instr

/-- An operation refers to its type and its operands. -/
@[simp] lemma names_binary (op : BinaryOp) (type : IrType) (lhs rhs : Value) :
    (binary op type lhs rhs).names = type.names ++ lhs.names ++ rhs.names := rfl

/-- A negation refers to its type and its operand. -/
@[simp] lemma names_fneg (type : IrType) (value : Value) :
    (fneg type value).names = type.names ++ value.names := rfl

/-- A comparison refers to its type and its operands. -/
@[simp] lemma names_icmp (predicate : Predicate) (type : IrType) (lhs rhs : Value) :
    (icmp predicate type lhs rhs).names = type.names ++ lhs.names ++ rhs.names := rfl

/-- A comparison of reals refers to its type and its operands. -/
@[simp] lemma names_fcmp (predicate : RealPredicate) (type : IrType) (lhs rhs : Value) :
    (fcmp predicate type lhs rhs).names = type.names ++ lhs.names ++ rhs.names := rfl

/-- A cast refers to its operand and its type. -/
@[simp] lemma names_cast (op : CastOp) (operand : Operand) (target : IrType) :
    (cast op operand target).names = operand.names ++ target.names := rfl

/-- A load refers to its type and its address. -/
@[simp] lemma names_load (type : IrType) (address : Value) :
    (load type address).names = type.names ++ address.names := rfl

/-- A store refers to its operand and its address. -/
@[simp] lemma names_store (operand : Operand) (address : Value) :
    (store operand address).names = operand.names ++ address.names := rfl

/-- The address of an element refers to its type, its base and its indices. -/
@[simp] lemma names_element (base : IrType) (address : Value) (indices : List Value) :
    (element base address indices).names =
      base.names ++ address.names ++ indices.flatMap Value.names := rfl

/-- A call refers to its type, its callee and its arguments. -/
@[simp] lemma names_call (result : IrType) (callee : Value) (arguments : List Operand) :
    (call result callee arguments).names =
      result.names ++ callee.names ++ arguments.flatMap Operand.names := rfl

/-- A cell on the stack refers to its type. -/
@[simp] lemma names_alloca (type : IrType) : (alloca type).names = type.names := rfl

/-- The address of a field refers to its type and its base. -/
@[simp] lemma names_fieldOf (base : IrType) (address : Value) (indices : List Int) :
    (fieldOf base address indices).names = base.names ++ address.names := by
  have none : (indices.map Value.int).flatMap Value.names = [] := by
    rw [List.flatMap_map]
    exact List.flatMap_eq_nil_iff.2 fun _ _ => rfl
  rw [fieldOf, names, none, List.append_nil]

/-- A copy refers to its type and its value. -/
@[simp] lemma names_copy (type : IrType) (value : Value) :
    (copy type value).names = type.names ++ value.names ++ type.names := rfl

end Instr

/-- The names in a terminator. -/
def Term.names {ℓ : Type} : Term ℓ → List Name
  | condBr condition _ _ => condition.names
  | switch type value _ _ => type.names ++ value.names
  | ret (some operand) => operand.names
  | ret none | br _ | unreachable => []

/-- The names in a line. -/
def Line.names {ℓ σ : Type} : Line ℓ σ → List Name
  | comment _ => []
  | run instr => instr.names
  | define receiver instr => receiver.names ++ instr.names
  | phi receiver type incomings =>
    receiver.names ++ type.names ++ incomings.flatMap (·.1.names)
  | leave term => term.names

attribute [simp] IrType.names IrType.namesOf Term.names
  Line.names

/-- The names in a block. -/
def Block.names {ℓ σ : Type} (b : Block ℓ σ) : List Name := b.lines.flatMap Line.names

/-- The names in a function. -/
def Function.names {ℓ : Type} (f : Function ℓ) : List Name :=
  f.result.names ++ f.parameters.flatMap Operand.names ++ f.blocks.flatMap Block.names

namespace Constant

mutual

/-- The names in a constant. -/
def names : Constant → List Name
  | value v => v.names
  | record fields => namesOf fields
  | sequence items => namesOf items

/-- The names in a constant and its type. -/
def typedNames : IrType × Constant → List Name
  | (type, constant) => type.names ++ constant.names

/-- The names in several constants and their types. -/
def namesOf : List (IrType × Constant) → List Name
  | [] => []
  | item :: items => typedNames item ++ namesOf items

end

/-- Cells refer to what each of them refers to. -/
lemma namesOf_eq (items : List (IrType × Constant)) : namesOf items = items.flatMap typedNames := by
  induction items with
  | nil => rfl
  | cons item items ih => rw [namesOf, ih, List.flatMap_cons]

/-- A constant that is a value refers to what the value does. -/
@[simp] lemma names_value (v : Value) : (value v).names = v.names := rfl

/-- A record refers to what its fields do. -/
@[simp] lemma names_record (fields : List (IrType × Constant)) :
    (record fields).names = fields.flatMap typedNames := namesOf_eq fields

/-- A sequence refers to what its items do. -/
@[simp] lemma names_sequence (items : List (IrType × Constant)) :
    (sequence items).names = items.flatMap typedNames := namesOf_eq items

/-- A cell of an address refers to what its value does. -/
@[simp] lemma typedNames_ptr (v : Value) : typedNames (ptr v) = v.names := rfl

/-- A cell of a word refers to what its value does. -/
@[simp] lemma typedNames_i32 (v : Value) : typedNames (i32 v) = v.names := rfl

/-- A cell of a long word refers to what its value does. -/
@[simp] lemma typedNames_i64 (v : Value) : typedNames (i64 v) = v.names := rfl

end Constant

namespace Entry

variable {ℓ : Type}

/-- The names that an entry refers to. -/
def names : Entry ℓ → List Name
  | typeDef _ fields => fields.flatMap IrType.names
  | external _ type => type.names
  | declare result _ parameters => result.names ++ parameters.flatMap IrType.names
  | data _ _ type contents => type.names ++ contents.names
  | define function => function.names
  | blank | comment _ | sourceName _ | dataLayout _ | targetTriple _ => []

/-- The name that an entry defines or declares. -/
def name? : Entry ℓ → Option Name
  | typeDef name _ => some (.type name)
  | external symbol _ | declare _ symbol _ | data symbol _ _ _ => some (.symbol symbol)
  | define function => some (.symbol function.name)
  | blank | comment _ | sourceName _ | dataLayout _ | targetTriple _ => none

end Entry

section Sources

variable {ℓ σ τ : Type}

/-- The sources of phis are no names that a line refers to. -/
lemma Line.names_mapSources (f : σ → τ) (l : Line ℓ σ) : (l.mapSources f).names = l.names := by
  cases l with
  | phi receiver type incomings => simp only [mapSources, names, List.flatMap_map]
  | _ => rfl

/-- The sources of phis are no names that a block refers to. -/
lemma Block.names_mapSources (f : σ → τ) (b : Block ℓ σ) : (b.mapSources f).names = b.names := by
  simp only [Block.names, mapSources, List.flatMap_map, Line.names_mapSources]

end Sources

namespace Draft

variable {ℓ : Type} {d : Draft ℓ} {n : Name}

/-- The names in a function under construction. -/
def names (d : Draft ℓ) : List Name :=
  d.result.names ++ d.parameters.flatMap Operand.names ++ d.blocks.flatMap Block.names

/-- Changing one block adds names only if that block gets them. -/
lemma mem_names_modify {f : Block ℓ (Source ℓ) → Block ℓ (Source ℓ)} {i : Nat} {new : List Name}
    (changes : ∀ b, ∀ n ∈ (f b).names, n ∈ b.names ∨ n ∈ new)
    (mem : n ∈ names { d with blocks := d.blocks.modify i f }) : n ∈ d.names ∨ n ∈ new := by
  rcases List.mem_append.1 mem with signature | mem
  · exact .inl (List.mem_append_left _ signature)
  · obtain ⟨b, memb, memn⟩ := List.mem_flatMap.1 mem
    obtain ⟨j, lt, rfl⟩ := List.mem_iff_getElem.1 memb
    rw [List.getElem_modify] at memn
    have old {b : Block ℓ (Source ℓ)} (memb : b ∈ d.blocks) (memn : n ∈ b.names) : n ∈ d.names :=
      List.mem_append_right _ (List.mem_flatMap.2 ⟨b, memb, memn⟩)
    split at memn
    · exact (changes _ n memn).imp_left (old (List.getElem_mem _))
    · exact .inl (old (List.getElem_mem _) memn)

/-- A line that is pushed adds no more than what it refers to. -/
lemma mem_names_push {l : Line ℓ (Source ℓ)} (mem : n ∈ (d.push l).names) :
    n ∈ d.names ∨ n ∈ l.names := by
  refine mem_names_modify (fun b n mem => ?_) mem
  simpa [Block.names, Block.push] using mem

/-- A terminator adds no more than what it refers to. -/
lemma mem_names_terminate {t : Term ℓ} (mem : n ∈ (d.terminate t).names) :
    n ∈ d.names ∨ n ∈ t.names := by
  refine mem_names_modify (fun b n mem => ?_) mem
  rw [Block.terminate] at mem
  split at mem
  · exact .inl mem
  · simpa [Block.names, Block.push, Line.names] using mem

/-- An empty block at the end refers to nothing. -/
lemma names_appendBlock (l : ℓ) : (d.appendBlock l).names = d.names := by
  simp [names, appendBlock, Block.names]

/-- An empty block that is inserted refers to nothing. -/
lemma mem_names_insertBlock {l : ℓ} (mem : n ∈ (d.insertBlock l).names) : n ∈ d.names := by
  rcases List.mem_append.1 mem with signature | mem
  · exact List.mem_append_left _ signature
  · obtain ⟨b, memb, memn⟩ := List.mem_flatMap.1 mem
    rcases (List.mem_insertIdx (Nat.min_le_right _ _)).1 memb with rfl | memb
    · cases memn
    · exact List.mem_append_right _ (List.mem_flatMap.2 ⟨b, memb, memn⟩)

/-- Where lines go to does not matter to what a draft refers to. -/
lemma names_goTo [DecidableEq ℓ] (l : ℓ) : (d.goTo l).names = d.names := by
  rw [goTo]
  split <;> rfl

/-- A finished function has the names of the draft. -/
lemma names_finish [BlockLabel ℓ] : d.finish.names = d.names := by
  have block (b : Block ℓ (Source ℓ)) :
      ((b.terminate .unreachable).mapSources d.resolve).names = b.names := by
    rw [Block.names_mapSources, Block.terminate]
    split
    · rfl
    · simp [Block.names, Block.push, Line.names, Term.names]
  have blocks : d.finish.blocks =
      d.blocks.map fun b => (b.terminate .unreachable).mapSources d.resolve := List.map_map
  change _ ++ d.finish.blocks.flatMap Block.names = _
  rw [blocks, List.flatMap_map]
  simp only [block]
  rfl

end Draft

end ObjectBackend.Target
