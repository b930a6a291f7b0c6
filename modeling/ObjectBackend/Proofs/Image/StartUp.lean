import ObjectBackend.Proofs.Image.Distinct
import ObjectBackend.Proofs.Lowering.Parameters

/-!
# Calls that start a program

The entry point of a module and the initializers of its classes call the environment, one another
and methods. The environment and the initializers are always there as they are called. A method is
called if it has the right name and is static, whether or not it has an entry, and whether or not
the entry has the parameters of the call; so the calls fit what the module defines or declares
exactly if these methods do (`startUp_calls_defined_iff`).
-/

namespace ObjectBackend

open Target

namespace Target

/-- A function as its callers see it. -/
structure Prototype where
  result : IrType
  callee : Value
  parameters : List IrType
deriving DecidableEq

/-- The function that an instruction calls, as the call has it. -/
def Instr.prototype? : Instr → Option Prototype
  | .call result callee arguments => some ⟨result, callee, arguments.map (·.type)⟩
  | _ => none

/-- The function that a line calls. -/
def Line.prototype? : Line Label Label → Option Prototype
  | .run i | .define _ i => i.prototype?
  | _ => none

/-- The functions that an entry calls. -/
def Entry.calls : Entry Label → List Prototype
  | .define f => f.blocks.flatMap fun b => b.lines.filterMap Line.prototype?
  | _ => []

/-- The function that an entry defines or declares. -/
def Entry.prototype? : Entry Label → Option Prototype
  | .declare result symbol parameters => some ⟨result, .symbol symbol, parameters⟩
  | .define f => some ⟨f.result, .symbol f.name, f.parameters.map (·.type)⟩
  | _ => none

/-- An entry is found under the name that it is called by. -/
lemma Entry.name?_of_prototype? {e : Entry Label} {q : Prototype} {s : Symbol}
    (some : e.prototype? = some q) (callee : q.callee = .symbol s) :
    e.name? = Option.some (.symbol s) := by
  cases e with
  | declare | define =>
    cases some
    exact congrArg (Option.some ∘ Name.symbol) (Value.symbol.inj callee)
  | _ => cases some

end Target

section Types

variable {type : ValueType} {kind : Kind}

/-- Only void has no kind. -/
lemma ValueType.kind_eq_none_iff : type.kind = none ↔ type = .void := by
  cases type <;> simp [ValueType.kind]

/-- The type of a kind is not void. -/
lemma Target.IrType.ofKind_ne_void : IrType.ofKind kind ≠ .void := by
  cases kind <;> simp [IrType.ofKind]

/-- Only void becomes the type void. -/
lemma Target.IrType.ofValue_eq_void_iff : IrType.ofValue type = .void ↔ type = .void := by
  rw [IrType.ofValue, ← ValueType.kind_eq_none_iff]
  cases type.kind with
  | none => simp
  | some kind => simp [IrType.ofKind_ne_void]

/-- Kinds and types of parameters go together as long as no parameter is void. -/
lemma map_ofKind_filterMap_kind {types : List ValueType} (none : .void ∉ types) :
    (types.filterMap ValueType.kind).map IrType.ofKind = types.map IrType.ofValue := by
  induction types with
  | nil => rfl
  | cons type types ih =>
    rw [List.mem_cons, not_or] at none
    obtain ⟨ne, none⟩ := none
    obtain ⟨kind, found⟩ :=
      Option.ne_none_iff_exists'.1 (mt ValueType.kind_eq_none_iff.1 (Ne.symm ne))
    rw [List.filterMap_cons, found, List.map_cons, List.map_cons, ih none, IrType.ofValue, found]
    rfl

end Types

namespace MethodDef

/-- The types of the parameters in the entry of a method. -/
def entryTypes (m : MethodDef) : List IrType :=
  if m.isNative then Lowering.parameterTypes m else (Lowering.declaredKinds m).map .ofKind

/-- A method as the entry of the module has it. -/
def prototype (m : MethodDef) (c : ClassDef) : Prototype :=
  { result := .ofValue m.signature.result
    callee := .symbol (.method (c.reference m))
    parameters := m.entryTypes }

/-- The entry of a method takes the values of the declared types and nothing else if the method has
no instance and, unless its code is elsewhere, no void parameter. -/
lemma entryTypes_eq_map_iff {m : MethodDef} :
    m.entryTypes = m.signature.parameters.map .ofValue ↔
      m.isStatic = true ∧ (m.isNative = true ∨ .void ∉ m.signature.parameters) := by
  rw [entryTypes]
  split
  case isTrue native =>
    rw [Lowering.parameterTypes]
    cases static : m.isStatic <;> simp [native]
  case isFalse native =>
    constructor
    · intro eq
      have none : .void ∉ m.signature.parameters := by
        intro mem
        have mem : IrType.void ∈ m.signature.parameters.map .ofValue :=
          List.mem_map.2 ⟨.void, mem, rfl⟩
        rw [← eq] at mem
        obtain ⟨kind, _, void⟩ := List.mem_map.1 mem
        exact IrType.ofKind_ne_void void
      refine ⟨?_, .inr none⟩
      rw [Lowering.declaredKinds, List.map_append, map_ofKind_filterMap_kind none] at eq
      cases static : m.isStatic with
      | true => rfl
      | false => simp [static] at eq
    · rintro ⟨static, or⟩
      rw [Lowering.declaredKinds, if_pos static]
      exact map_ofKind_filterMap_kind (or.resolve_left native)

/-- The entry of a method takes nothing if the method has no instance, and no parameters or, unless
its code is elsewhere, only void ones. -/
lemma entryTypes_eq_nil_iff {m : MethodDef} :
    m.entryTypes = [] ↔ m.isStatic = true ∧
      if m.isNative then m.signature.parameters = [] else
        ∀ type ∈ m.signature.parameters, type = .void := by
  rw [entryTypes]
  split
  case isTrue =>
    rw [Lowering.parameterTypes]
    cases m.isStatic <;> simp
  case isFalse =>
    rw [Lowering.declaredKinds, List.map_eq_nil_iff, List.append_eq_nil_iff,
      List.filterMap_eq_nil_iff]
    simp only [ValueType.kind_eq_none_iff]
    cases m.isStatic <;> simp

end MethodDef

namespace Backend

variable {p : Program} {settings : Settings} {b : Backend} {es : List (Entry Label)}
  {e : Entry Label}
  {pools pools' : Pools} {c : ClassDef} {q : Prototype}

section Methods

/-- The entry of a method is as the method has it. -/
lemma prototype?_method (owners : Lowering.OwnersDeclared b) {m : MethodDef}
    {entry : Option (Entry Label)} (handles : Lowering.HandlesDeclared b pools)
    (given : (Lowering.method b c m).run pools = .ok (entry, pools')) :
    entry.bind Entry.prototype? = if m.hasEntry then some (m.prototype c) else none := by
  cases Lowering.method_spec given with
  | native native =>
    simp [MethodDef.hasEntry, MethodDef.prototype, MethodDef.entryTypes, Entry.prototype?, native]
  | abstract native abstract => simp [MethodDef.hasEntry, native, abstract]
  | function native abstract _ lowered =>
    obtain ⟨name, _⟩ := Lowering.function_names owners handles lowered
    obtain ⟨result, checked⟩ := Lowering.function_head owners handles lowered
    have types := Lowering.parameters_types _ checked
    simp only [Option.bind_some, Entry.prototype?, name, result, types]
    simp [MethodDef.hasEntry, MethodDef.prototype, MethodDef.entryTypes, native, abstract]
    exact ⟨rfl, rfl, rfl⟩

/-- The prototypes of the methods of a class are those of the methods that have entries. -/
lemma exists_mem_methods_iff (owners : Lowering.OwnersDeclared b)
    (handles : Lowering.HandlesDeclared b pools)
    (given : (b.methods c).run pools = .ok (es, pools')) :
    (∃ e ∈ es, e.prototype? = some q) ↔ ∃ m ∈ c.methods, m.hasEntry = true ∧ m.prototype c = q := by
  obtain ⟨made, pools₁, lowered, whole⟩ := StateT.exists_of_run_bind_eq_ok given
  cases whole
  have each := StateT.forall₂_of_run_mapM_eq_ok
    (fun m _ _ _ _ handles given => (method_makes owners handles given).handles) handles lowered
  constructor
  · rintro ⟨e, mem, some⟩
    obtain ⟨e', mem, same⟩ := List.mem_flatMap.1 mem
    cases List.mem_pair.1 same with
    | inr blank =>
      subst blank
      cases some
    | inl same =>
      subst same
      obtain ⟨m, memm, _, _, handles, given⟩ :=
        each.flip.exists_of_mem (List.reduceOption_mem_iff.1 mem)
      have shape := prototype?_method owners handles given
      rw [Option.bind_some, some] at shape
      split at shape
      case isTrue has => exact ⟨m, memm, has, (Option.some.inj shape).symm⟩
      case isFalse => cases shape
  · rintro ⟨m, memm, has, rfl⟩
    obtain ⟨entry, mem, _, _, handles, given⟩ := each.exists_of_mem memm
    have shape := prototype?_method owners handles given
    rw [if_pos has] at shape
    obtain ⟨e, rfl, some⟩ := Option.bind_eq_some_iff.1 shape
    refine ⟨e, List.mem_flatMap.2 ⟨e, List.reduceOption_mem_iff.2 mem, ?_⟩, some⟩
    exact List.mem_cons_self ..

end Methods

/-- What a module has under a name is in the part that the name belongs to. -/
lemma exists_part {parts : List (List (Entry Label))} {P : Name → Prop} {n : Name}
    (made : List.Forall₂ (b.Made P) (b.definitions pools) parts) (mem : e ∈ parts.flatten)
    (name : e.name? = some n) : ∃ part, parts[n.place]? = some part ∧ e ∈ part := by
  obtain ⟨part, memp, meme⟩ := List.mem_flatten.1 mem
  obtain ⟨i, found⟩ := List.mem_iff_getElem?.1 memp
  obtain ⟨lt, rfl⟩ := List.getElem?_eq_some_iff.1 found
  obtain ⟨length, each⟩ := List.forall₂_iff_get.1 made
  obtain ⟨length', place⟩ := List.forall₂_iff_get.1 (place_definitions b pools)
  have lt' : i < (b.definitions pools).length := length ▸ lt
  have lt'' : i < (List.range 16).length := length' ▸ lt'
  have memn : n ∈ (b.definitions pools).get ⟨i, lt'⟩ :=
    (each i lt' lt).names ▸ List.mem_filterMap.2 ⟨e, meme, name⟩
  have here : n.place = i := (place i lt'' lt' n memn).trans (List.getElem_range lt'')
  exact ⟨_, here ▸ found, meme⟩

section Origins

/-- What is defined or declared for a method is as the method has it. -/
lemma exists_prototype_iff (built : ofProgram p settings = .ok b)
    (emitted : b.entries.run .empty = .ok (es, pools)) {r : MethodRef}
    (callee : q.callee = .symbol (.method r)) :
    (∃ e ∈ es, e.prototype? = some q) ↔
      ∃ c ∈ p.classes, ∃ m ∈ c.methods, m.hasEntry = true ∧ m.prototype c = q := by
  have owners := ownersDeclared built
  obtain ⟨_, methods, _, pools₁, parts, handles, _, lowered, _, rfl, made, part, _⟩ :=
    exists_parts built emitted
  obtain ⟨rfl, -, -⟩ := ofProgram_spec built
  have each := StateT.forall₂_of_run_mapM_eq_ok
    (fun c _ _ _ _ handles given => (methods_makes owners handles given).handles) handles lowered
  constructor
  · rintro ⟨e, mem, some⟩
    obtain ⟨part', found, mem⟩ := exists_part made mem (Entry.name?_of_prototype? some callee)
    obtain rfl := Option.some.inj (part.symm.trans found)
    obtain ⟨entries, meme, mem⟩ := List.mem_flatten.1 mem
    obtain ⟨c, memc, _, _, handles, given⟩ := each.flip.exists_of_mem meme
    exact ⟨c, List.mem_mergeSort.1 memc,
      (exists_mem_methods_iff owners handles given).1 ⟨e, mem, some⟩⟩
  · rintro ⟨c, memc, declared⟩
    obtain ⟨entries, meme, _, _, handles, given⟩ :=
      each.exists_of_mem (Program.mem_sortedClasses memc)
    obtain ⟨e, mem, some⟩ := (exists_mem_methods_iff owners handles given).2 declared
    exact ⟨e, List.mem_flatten.2 ⟨_, List.mem_of_getElem? part,
      List.mem_flatten.2 ⟨entries, meme, mem⟩⟩, some⟩

/-- A class has the entry that is called for one of its methods if it declares a method of the same
signature with such an entry. -/
lemma exists_method_iff {m : MethodDef} {result : IrType} {types : List IrType}
    (memc : c ∈ p.classes) :
    (∃ d ∈ p.classes, ∃ m' ∈ d.methods, m'.hasEntry = true ∧
        m'.prototype d = ⟨result, .symbol (.method (c.reference m)), types⟩) ↔
      ∃ m' ∈ c.methods, m'.signature = m.signature ∧ m'.hasEntry = true ∧
        IrType.ofValue m'.signature.result = result ∧ m'.entryTypes = types := by
  constructor
  · rintro ⟨d, memd, m', memm, has, eq⟩
    obtain ⟨same, callee, types⟩ := Prototype.mk.inj eq
    obtain ⟨name, signature⟩ := MethodRef.mk.inj (Symbol.method.inj (Value.symbol.inj callee))
    obtain rfl := Program.eq_of_name_eq memd memc name
    exact ⟨m', memm, signature, has, same, types⟩
  · rintro ⟨m', memm, signature, has, rfl, rfl⟩
    refine ⟨c, memc, m', memm, has, ?_⟩
    rw [MethodDef.prototype, ClassDef.reference, ClassDef.reference, signature]

end Origins

section Calls

/-- A function of the environment or of the start that takes and gives nothing. -/
def routine (s : Symbol) : Prototype := ⟨.void, .symbol s, []⟩

/-- The calls of an initializer: that of its parent, if it needs one, and that of its method, if it
has one. -/
lemma calls_initializer (c : ClassDef) :
    (Entry.define (b.program.initializer c)).calls =
      ((c.parentName.filter b.program.needsInitialization).map fun name =>
          routine (.initializer name)).toList
        ++ (c.initializer?.map fun m => routine (.method (c.reference m))).toList := by
  rw [Entry.calls, Program.initializer]
  cases c.parentName.filter b.program.needsInitialization <;> cases c.initializer? <;> rfl

/-- The calls of the entry point: two routines of the environment and the method that was resolved.
-/
lemma calls_main {f : Function Label} {entry : MethodRef} (given : p.main entry = .ok f) :
    ∃ owner m, p.resolveMethod? entry = some (owner, m) ∧ m.isStatic = true ∧
      f.name = .main ∧ (Entry.define f).calls =
        [routine (.runtime .init), routine (.runtime .initStringPool),
          ⟨.ofValue m.signature.result, .symbol (.method (owner.reference m)),
            m.signature.parameters.map .ofValue⟩] := by
  rw [Program.main] at given
  split at given
  case h_1 => cases given
  case h_2 owner m found =>
    split at given
    case isTrue => cases given
    case isFalse static =>
      cases given
      refine ⟨owner, m, found, by simpa using static, rfl, ?_⟩
      have types : (m.signature.parameters.map fun type =>
          Operand.mk (.ofValue type) (.zeroOf (.ofValue type))).map (·.type) =
            m.signature.parameters.map .ofValue := by
        rw [List.map_map]
        rfl
      by_cases void : IrType.ofValue m.signature.result = .void <;>
        simp [Entry.calls, Line.prototype?, Instr.prototype?, routine, void, types]

/-- The functions that start a program are the initializers of its classes and the entry point. -/
lemma startsUp_iff (built : ofProgram p settings = .ok b)
    (emitted : b.entries.run .empty = .ok (es, pools)) :
    (e ∈ es ∧ e.startsUp = true) ↔
      (∃ c ∈ p.classes, p.needsInitialization c.name = true ∧ e = .define (p.initializer c)) ∨
        ∃ entry f, p.entryPoint = some entry ∧ p.main entry = .ok f ∧ e = .define f := by
  obtain ⟨_, _, main, _, parts, _, _, _, main', rfl, made, _, part, part'⟩ :=
    exists_parts built emitted
  obtain ⟨rfl, -, -⟩ := ofProgram_spec built
  have listed {part : List (Entry Label)} {i : Nat} (found : parts[i]? = some part)
      (mem : e ∈ part) : e ∈ parts.flatten :=
    List.mem_flatten.2 ⟨part, List.mem_of_getElem? found, mem⟩
  constructor
  · rintro ⟨mem, starts⟩
    rw [Entry.startsUp] at starts
    split at starts
    case h_1 name =>
      -- only the start of the program has this name
      obtain ⟨_, found, mem⟩ := exists_part made mem name
      obtain rfl := Option.some.inj (part'.symm.trans found)
      rw [Backend.main] at main'
      split at main'
      case h_1 =>
        cases main'
        cases mem
      case h_2 entry some =>
        obtain ⟨f, given, whole⟩ := Except.exists_of_bind_eq_ok main'
        cases whole
        cases List.mem_pair.1 mem with
        | inl same => exact .inr ⟨entry, f, some, given, same⟩
        | inr blank =>
          rw [blank] at name
          cases name
    case h_2 name =>
      obtain ⟨_, found, mem⟩ := exists_part made mem name
      obtain rfl := Option.some.inj (part.symm.trans found)
      obtain ⟨c, memc, mem⟩ := List.mem_flatMap.1 mem
      obtain ⟨memc, needed⟩ := List.mem_filter.1 memc
      cases List.mem_pair.1 mem with
      | inl same => exact .inl ⟨c, List.mem_mergeSort.1 memc, needed, same⟩
      | inr blank =>
        rw [blank] at name
        cases name
    case h_3 => cases starts
  · rintro (⟨c, memc, needed, rfl⟩ | ⟨entry, f, some, given, rfl⟩)
    · refine ⟨listed part (List.mem_flatMap.2 ⟨c, ?_, List.mem_cons_self ..⟩), rfl⟩
      exact List.mem_filter.2 ⟨Program.mem_sortedClasses memc, needed⟩
    · obtain ⟨_, _, _, _, name, _⟩ := calls_main given
      refine ⟨listed part' ?_, by rw [Entry.startsUp, Entry.name?, name]⟩
      simp only [Backend.main, some, given] at main'
      cases main'
      exact List.mem_cons_self ..

/-- The routines that the entry point calls first are in every module. -/
lemma exists_routine (emitted : b.entries.run .empty = .ok (es, pools)) {s : RuntimeSymbol}
    (first : s = .init ∨ s = .initStringPool) :
    ∃ e ∈ es, e.prototype? = some (routine (.runtime s)) := by
  obtain ⟨_, _, _, _, literals, _, _, _, _, _, literals', eq⟩ := entries_spec emitted
  cases first with
  | inl init =>
    subst init
    have mem : .declare .void (.runtime .init) [] ∈ Environment.prologue := by
      simp [Environment.prologue, Environment.functions]
    refine ⟨.declare .void (.runtime .init) [], ?_, rfl⟩
    rw [eq]
    simp only [List.mem_append, mem, true_or, or_true]
  | inr pool =>
    subst pool
    obtain ⟨_, _, rfl, _⟩ := literals_entries_spec literals'
    refine ⟨.define (Literals.initFunction pools.literals.texts.length), ?_, rfl⟩
    rw [eq]
    simp only [List.mem_append, List.mem_cons, true_or, or_true]

/-- What the entry point calls is there as it is called if the class declares the method so that it
can be run on zeros. -/
lemma exists_entry_of_main_iff (built : ofProgram p settings = .ok b)
    (emitted : b.entries.run .empty = .ok (es, pools)) {m : MethodDef} (memc : c ∈ p.classes) :
    (∃ e ∈ es, e.prototype? = some ⟨.ofValue m.signature.result, .symbol (.method (c.reference m)),
        m.signature.parameters.map .ofValue⟩) ↔
      ∃ m' ∈ c.methods, m'.signature = m.signature ∧ m'.isStatic = true ∧
        (m'.isNative = true ∨ m'.isAbstract = false ∧ .void ∉ m'.signature.parameters) := by
  rw [exists_prototype_iff built emitted rfl, exists_method_iff memc]
  refine exists_congr fun m' => and_congr_right fun _ => and_congr_right fun same => ?_
  rw [← same, MethodDef.entryTypes_eq_map_iff, MethodDef.hasEntry]
  cases m'.isNative <;> cases m'.isAbstract <;> simp

/-- The method that an initializer calls is there as it is called if the class declares it so that
it can be run on nothing. -/
lemma exists_entry_of_initializer_iff (built : ofProgram p settings = .ok b)
    (emitted : b.entries.run .empty = .ok (es, pools)) {m : MethodDef} (memc : c ∈ p.classes) :
    (∃ e ∈ es, e.prototype? = some (routine (.method (c.reference m)))) ↔
      ∃ m' ∈ c.methods, m'.signature = m.signature ∧ m'.isStatic = true ∧
        m'.signature.result = .void ∧
        if m'.isNative then m'.signature.parameters = [] else
          m'.isAbstract = false ∧ ∀ type ∈ m'.signature.parameters, type = .void := by
  rw [exists_prototype_iff built emitted rfl, routine, exists_method_iff memc]
  refine exists_congr fun m' => and_congr_right fun _ => and_congr_right fun _ => ?_
  rw [IrType.ofValue_eq_void_iff, MethodDef.entryTypes_eq_nil_iff, MethodDef.hasEntry]
  cases m'.isNative <;> cases m'.isAbstract <;> simp <;> tauto

/-- The parent's initializer is there as it is called. -/
lemma exists_entry_of_parent (built : ofProgram p settings = .ok b)
    (emitted : b.entries.run .empty = .ok (es, pools)) {name : String}
    (needed : p.needsInitialization name = true) :
    ∃ e ∈ es, e.prototype? = some (routine (.initializer name)) := by
  obtain ⟨rfl, -, -⟩ := ofProgram_spec built
  obtain ⟨d, memd, rfl⟩ := declares_of_needsInitialization needed
  have entry := (startsUp_iff built emitted).2 (.inl ⟨d, memd, needed, rfl⟩)
  exact ⟨_, entry.1, rfl⟩

end Calls

section Fitting

/-- The functions that start a program call what the module defines or declares under the same name,
with the same result and the same parameters, exactly if the methods among the called ones can be
run as they are: the method of the entry point with a zero for each parameter, that of an
initializer with nothing. A method without code cannot, nor can one that takes void parameters. -/
theorem startUp_calls_defined_iff (built : ofProgram p settings = .ok b)
    (emitted : b.entries.run .empty = .ok (es, pools)) :
    (∀ e ∈ es, e.startsUp = true → ∀ call ∈ e.calls, ∃ e' ∈ es, e'.prototype? = some call) ↔
      (∀ entry c m, p.entryPoint = some entry → p.resolveMethod? entry = some (c, m) →
        ∃ m' ∈ c.methods, m'.signature = m.signature ∧ m'.isStatic = true ∧
          (m'.isNative = true ∨ m'.isAbstract = false ∧ .void ∉ m'.signature.parameters)) ∧
      ∀ c ∈ p.classes, ∀ m, c.initializer? = some m →
        ∃ m' ∈ c.methods, m'.signature = m.signature ∧ m'.isStatic = true ∧
          m'.signature.result = .void ∧
          if m'.isNative then m'.signature.parameters = [] else
            m'.isAbstract = false ∧ ∀ type ∈ m'.signature.parameters, type = .void := by
  have starts (e : Entry Label) := startsUp_iff (e := e) built emitted
  have program : b.program = p := (ofProgram_spec built).1
  constructor
  · intro fits
    refine ⟨fun entry c m some found => ?_, fun c memc m found => ?_⟩
    · -- the call of the entry point stands in the code of the program's start
      obtain ⟨_, _, main, _, _, _, _, _, main', _⟩ := exists_parts built emitted
      rw [← program] at some
      simp only [Backend.main, some] at main'
      obtain ⟨f, given, _⟩ := Except.exists_of_bind_eq_ok main'
      rw [program] at some given
      obtain ⟨c', m', found', _, _, calls⟩ := calls_main given
      obtain ⟨rfl, rfl⟩ := Prod.mk.inj (Option.some.inj (found.symm.trans found'))
      obtain ⟨mem, code⟩ := (starts (.define f)).2 (.inr ⟨entry, f, some, given, rfl⟩)
      apply (exists_entry_of_main_iff built emitted (Program.mem_of_resolveMethod? found).1).1
      apply fits _ mem code
      rw [calls]
      simp only [List.mem_cons, true_or, or_true]
    · -- a class with a `<clinit>` needs initialization, so there is a function that calls it
      have needed : p.needsInitialization c.name = true := by
        apply List.any_eq_true.2
        exact ⟨c, Program.mem_ancestors_self memc, by rw [found]; rfl⟩
      obtain ⟨mem, code⟩ := (starts _).2 (.inl ⟨c, memc, needed, rfl⟩)
      apply (exists_entry_of_initializer_iff built emitted memc).1
      apply fits _ mem code
      rw [← program, calls_initializer, found]
      exact List.mem_append_right _ (List.mem_singleton_self _)
  · rintro ⟨main, initializers⟩ e mem code call memcall
    rcases (starts e).1 ⟨mem, code⟩ with ⟨c, memc, needed, rfl⟩ | ⟨entry, f, some, given, rfl⟩
    · rw [← program, calls_initializer, List.mem_append, Option.mem_toList, Option.mem_toList,
        Option.map_eq_some_iff, Option.map_eq_some_iff] at memcall
      rcases memcall with ⟨name, parent, rfl⟩ | ⟨m, found, rfl⟩
      · rw [program] at parent
        exact exists_entry_of_parent built emitted (Option.filter_eq_some_iff.1 parent).2
      · exact (exists_entry_of_initializer_iff built emitted memc).2 (initializers c memc m found)
    · obtain ⟨c, m, found, _, _, calls⟩ := calls_main given
      have memc := (Program.mem_of_resolveMethod? found).1
      rw [calls, List.mem_cons, List.mem_cons, List.mem_singleton] at memcall
      rcases memcall with rfl | rfl | rfl
      · exact exists_routine emitted (.inl rfl)
      · exact exists_routine emitted (.inr rfl)
      · exact (exists_entry_of_main_iff built emitted memc).2 (main entry c m some found)

/-- A static method that takes an instance and a number, and does nothing. -/
def greet : MethodDef :=
  { signature := ⟨"greet", [.object "Greeter", .primitive .int], .void⟩
    isStatic := true, isNative := false, isAbstract := false, access := .anyClass
    body := some
      { kinds := [.object, .int], blocks := [{ BasicBlock.empty with terminator := .exit none }] } }

/-- An initializer whose code is elsewhere. -/
def prepare : MethodDef :=
  { signature := ⟨initializerName, [], .void⟩
    isStatic := true, isNative := true, isAbstract := false, access := .anyClass, body := none }

/-- The class of the entry point. -/
def greeter : ClassDef := { ClassDef.empty "Greeter" with methods := [prepare, greet] }

/-- A program that starts with a method of a class with an initializer. -/
def greeting : Program :=
  { classes := [greeter], entryPoint := some (greeter.reference greet), nodup := by decide }

/-- The entry point of the greeting and the initializer call what is there. -/
theorem greeting_starts :
    ∃ b es pools, ofProgram greeting .default = .ok b ∧ b.entries.run .empty = .ok (es, pools) ∧
      ∀ e ∈ es, e.startsUp = true → ∀ call ∈ e.calls, ∃ e' ∈ es, e'.prototype? = some call := by
  have computed : ((ofProgram greeting .default).toOption.bind fun b =>
      (b.entries.run .empty).toOption.map fun _ => ()) = some () := by
    cbv
  obtain ⟨b, ⟨es, pools⟩, built, emitted, _⟩ := Except.exists_of_toOption_bind_map computed
  refine ⟨b, es, pools, built, emitted, (startUp_calls_defined_iff built emitted).2 ⟨?_, ?_⟩⟩
  · rintro _ c m ⟨⟩ found
    have resolved : greeting.resolveMethod? (greeter.reference greet) = some (greeter, greet) := by
      cbv
    obtain ⟨rfl, rfl⟩ := Prod.mk.inj (Option.some.inj (resolved.symm.trans found))
    exact ⟨greet, by decide, rfl, rfl, by decide⟩
  · intro c memc m found
    obtain rfl := List.mem_singleton.1 memc
    obtain rfl : prepare = m := Option.some.inj found
    exact ⟨prepare, by decide, rfl, rfl, rfl, rfl⟩

/-- A method without code. -/
def pending : MethodDef :=
  { signature := ⟨"main", [], .void⟩
    isStatic := true, isNative := false, isAbstract := true, access := .anyClass, body := none }

/-- A program that starts with a method without code. -/
def pendingMain : Program :=
  { classes := [{ ClassDef.empty "App" with methods := [pending] }]
    entryPoint := some ⟨"App", pending.signature⟩
    nodup := by decide }

/-- The entry point is made, and calls a method that the module does not have. -/
theorem pendingMain_calls_nothing :
    ∃ b es pools, ofProgram pendingMain .default = .ok b ∧ b.entries.run .empty = .ok (es, pools) ∧
      ∃ e ∈ es, e.startsUp = true ∧ routine (.method ⟨"App", pending.signature⟩) ∈ e.calls ∧
        ∀ e' ∈ es, e'.name? ≠ some (.symbol (.method ⟨"App", pending.signature⟩)) := by
  have computed : ((ofProgram pendingMain .default).toOption.bind fun b =>
      (b.entries.run .empty).toOption.map fun r =>
        (r.1.any fun e => e.startsUp &&
          decide (routine (.method ⟨"App", pending.signature⟩) ∈ e.calls)) &&
        r.1.all fun e' => decide (e'.name? ≠ some (.symbol (.method ⟨"App", pending.signature⟩)))) =
      some true := by
    cbv
  obtain ⟨b, ⟨es, pools⟩, built, emitted, found⟩ := Except.exists_of_toOption_bind_map computed
  rw [Bool.and_eq_true, List.any_eq_true, List.all_eq_true] at found
  obtain ⟨⟨e, mem, calls⟩, absent⟩ := found
  rw [Bool.and_eq_true, decide_eq_true_eq] at calls
  exact ⟨b, es, pools, built, emitted, e, mem, calls.1, calls.2,
    fun e' mem' => of_decide_eq_true (absent e' mem')⟩

end Fitting

end Backend

end ObjectBackend
