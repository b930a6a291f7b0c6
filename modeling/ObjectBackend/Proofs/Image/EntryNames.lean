import ObjectBackend.Proofs.Image.Emission
import ObjectBackend.Proofs.Image.VirtualCall
import ObjectBackend.Proofs.Lowering.MethodNames

/-!
# Names in the parts of a module

Every part of a module defines the names it is listed with, and refers to names of the module only
(`Backend.entries_made`). Two kinds of functions make an exception: the entry point and the
initializers call methods without asking whether they have code.
-/

namespace List

variable {α β : Type}

/-- Mapping what passes a filter, as one list for each item. -/
lemma map_filter_eq_flatMap (p : α → Bool) (f : α → β) (xs : List α) :
    (xs.filter p).map f = xs.flatMap fun x => if p x then [f x] else [] := by
  induction xs with
  | nil => rfl
  | cons x xs ih =>
    rw [filter_cons, flatMap_cons, ← ih]
    split <;> rfl

/-- Items that are missing contribute nothing. -/
lemma flatMap_reduceOption (f : α → List β) (xs : List (Option α)) :
    xs.reduceOption.flatMap f = xs.flatMap fun x => x.toList.flatMap f := by
  induction xs with
  | nil => rfl
  | cons x xs ih =>
    cases x with
    | none => simpa using ih
    | some x => simpa using ih

end List

namespace ObjectBackend

open Target

/-- Whether an entry is the entry point or an initializer. -/
def Target.Entry.startsUp (e : Entry Label) : Bool :=
  match e.name? with
  | some (.symbol .main) | some (.symbol (.initializer _)) => true
  | _ => false

namespace Backend

variable {b : Backend} {es : List (Entry Label)} {e : Entry Label} {pools pools' : Pools}
  {c : ClassDef} {n : Name} {P Q : Name → Prop}

/-- Whether an entry can refer to a name that the module lacks: the functions that start a program
call methods that may have no code. -/
def MayLack (b : Backend) (e : Entry Label) (n : Name) : Prop :=
  e.startsUp = true ∧ ∃ c ∈ b.program.classes, ∃ m ∈ c.methods, m.hasEntry = false ∧
    n = .symbol (.method (c.reference m))

/-- Entries that define some names and refer only to names with a property. -/
structure Made (b : Backend) (P : Name → Prop) (names : List Name) (es : List (Entry Label)) :
    Prop where
  names : es.filterMap Entry.name? = names
  refers : ∀ e ∈ es, ∀ n ∈ e.names, P n ∨ b.MayLack e n

namespace Made

variable {ns ns' : List Name} {es' : List (Entry Label)}

/-- Entries that refer to names with a property refer to names with any weaker one. -/
lemma mono (made : b.Made P ns es) (imp : ∀ n, P n → Q n) : b.Made Q ns es :=
  ⟨made.names, fun e mem n memn => (made.refers e mem n memn).imp_left (imp n)⟩

/-- No entries define no names. -/
lemma nil : b.Made P [] [] := ⟨rfl, List.forall_mem_nil _⟩

/-- Entries that are put behind others define their names behind those of the others. -/
lemma append (made : b.Made P ns es) (made' : b.Made P ns' es') :
    b.Made P (ns ++ ns') (es ++ es') :=
  ⟨by rw [List.filterMap_append, made.names, made'.names],
    List.forall_mem_append.2 ⟨made.refers, made'.refers⟩⟩

/-- An entry in front of others defines its name in front of theirs. -/
lemma cons (made : b.Made P [n] [e]) (made' : b.Made P ns es) : b.Made P (n :: ns) (e :: es) :=
  made.append made'

/-- Entries that define nothing and refer to nothing. -/
lemma of_silent (silent : ∀ e ∈ es, e.name? = none ∧ e.names = []) : b.Made P [] es := by
  refine ⟨List.filterMap_eq_nil_iff.2 fun e mem => (silent e mem).1, fun e mem n memn => ?_⟩
  rw [(silent e mem).2] at memn
  cases memn

/-- A blank entry defines nothing. -/
lemma blank : b.Made P [] [.blank] := of_silent fun _ mem => List.mem_singleton.1 mem ▸ ⟨rfl, rfl⟩

/-- A blank entry may follow. -/
lemma append_blank (made : b.Made P ns es) : b.Made P ns (es ++ [.blank]) := by
  rw [← List.append_nil ns]
  exact made.append blank

/-- A single entry defines the name it has. -/
lemma single (name : e.name? = some n) (refers : ∀ n ∈ e.names, P n) : b.Made P [n] [e] where
  names := by rw [List.filterMap_cons, name, List.filterMap_nil]
  refers := fun e' mem n' memn => .inl (refers n' (List.mem_singleton.1 mem ▸ memn))

/-- Related lists make entries piece by piece. -/
lemma forall₂ {α β : Type} {g : α → List Name} {h : β → List (Entry Label)} {xs : List α}
    {ys : List β} (related : List.Forall₂ (fun x y => b.Made P (g x) (h y)) xs ys) :
    b.Made P (xs.flatMap g) (ys.flatMap h) := by
  induction related with
  | nil => exact nil
  | cons first _ ih => exact first.append ih

/-- A list makes entries item by item. -/
lemma flatMap {α : Type} {g : α → List Name} {h : α → List (Entry Label)} {xs : List α}
    (each : ∀ x ∈ xs, b.Made P (g x) (h x)) : b.Made P (xs.flatMap g) (xs.flatMap h) :=
  forall₂ (List.forall₂_same.2 each)

/-- Each item of a list makes one entry. -/
lemma map {α : Type} {g : α → Name} {h : α → Entry Label} {xs : List α}
    (each : ∀ x ∈ xs, b.Made P [g x] [h x]) : b.Made P (xs.map g) (xs.map h) := by
  rw [List.map_eq_flatMap, List.map_eq_flatMap]
  exact flatMap each

end Made

section Environment

/-- The head of a module defines nothing and refers to nothing. -/
lemma heading_made (settings : Settings) : b.Made P [] settings.heading := by
  refine .of_silent fun e mem => ?_
  simp only [Settings.heading, List.mem_append, List.mem_cons, Option.mem_toList,
    Option.map_eq_some_iff, List.not_mem_nil, or_false] at mem
  rcases mem with ((((rfl | rfl) | ⟨_, _, rfl⟩) | ⟨_, _, rfl⟩) | rfl) <;> exact ⟨rfl, rfl⟩

/-- The prologue of the environment defines its names and refers to known ones. -/
lemma prologue_made : b.Made b.Knows Environment.names Environment.prologue := by
  have types : Environment.prologue.flatMap Entry.names = [.type (.runtime .object)] := rfl
  refine ⟨rfl, fun e mem n memn => .inl ?_⟩
  have mem : n ∈ Environment.prologue.flatMap Entry.names := List.mem_flatMap.2 ⟨e, mem, memn⟩
  rw [types, List.mem_singleton] at mem
  exact mem ▸ .runtimeType _

/-- A comparison routine refers to nothing. -/
lemma names_comparison (type : Numeric) :
    (Entry.define (Environment.comparison type)).names = [] := by
  cases type <;> rfl

/-- The epilogue of the environment defines the comparison routines. -/
lemma epilogue_made :
    b.Made P (Numeric.all.map fun type => .symbol (.runtime (.compare type)))
      Environment.epilogue := by
  refine ⟨rfl, fun e mem n memn => ?_⟩
  rcases List.mem_append.1 mem with mem | mem
  · rw [List.mem_singleton.1 mem] at memn
    cases memn
  · obtain ⟨type, _, mem⟩ := List.mem_flatMap.1 mem
    rcases List.mem_pair.1 mem with rfl | rfl
    · cases memn
    · rw [names_comparison] at memn
      cases memn

end Environment

section Types

/-- The header type of objects is defined under its name. -/
lemma headerType_made : b.Made b.Knows [.type (.runtime .header)] [b.headerType] := by
  refine .single rfl fun n mem => ?_
  have plain : (List.replicate b.tables.interfaceTable.length IrType.ptr).flatMap IrType.names =
      [] := List.flatMap_eq_nil_iff.2 fun type mem => (List.mem_replicate.1 mem).2 ▸ rfl
  rw [headerType, Entry.names, List.flatMap_append, plain, List.append_nil] at mem
  exact List.mem_singleton.1 mem ▸ .runtimeType _

/-- The structure types of a class are defined under their names. -/
lemma classTypes_made : b.Made b.Knows c.typeNames (b.classTypes c) := by
  rw [classTypes, ClassDef.typeNames]
  split
  · exact .single rfl fun n mem => List.mem_singleton.1 mem ▸ .runtimeType _
  · have fields : ((b.instanceFields c.name).map fun f => IrType.storage f.type).flatMap
        IrType.names = [] := by
      rw [List.flatMap_map]
      exact List.flatMap_eq_nil_iff.2 fun f _ => IrType.names_storage _
    have slots : ((b.classSlots c.name).map fun _ => IrType.ptr).flatMap IrType.names = [] := by
      rw [List.flatMap_map]
      exact List.flatMap_eq_nil_iff.2 fun _ _ => rfl
    refine .cons (.single rfl fun n mem => ?_) (.single rfl fun n mem => ?_)
    · rw [Entry.names, List.flatMap_cons, fields, List.append_nil] at mem
      exact List.mem_singleton.1 mem ▸ .runtimeType _
    · rw [Entry.names, List.flatMap_cons, slots, List.append_nil] at mem
      exact List.mem_singleton.1 mem ▸ .runtimeType _

end Types

/-- Making some entries adds literals and call sites that handle declared classes, and nothing is
referred to that the module lacks. -/
structure Makes (b : Backend) (pools pools' : Pools) (names : List Name) (es : List (Entry Label)) :
    Prop where
  handles : Lowering.HandlesDeclared b pools'
  literals : pools.literals.texts.length ≤ pools'.literals.texts.length
  made : b.Made (b.Provides pools') names es

/-- What is made for each element of a list is made for the list. -/
lemma Makes.mapM {α β : Type} {f : α → Pooled β} {g : α → List Name}
    {h : β → List (Entry Label)} {xs : List α} {ys : List β}
    (each : ∀ x ∈ xs, ∀ pools y pools', Lowering.HandlesDeclared b pools →
      (f x).run pools = .ok (y, pools') → Makes b pools pools' (g x) (h y))
    (handles : Lowering.HandlesDeclared b pools)
    (succeeds : (xs.mapM f).run pools = .ok (ys, pools')) :
    Makes b pools pools' (xs.flatMap g) (ys.flatMap h) := by
  induction xs generalizing pools ys with
  | nil =>
    cases succeeds
    exact ⟨handles, Nat.le_refl _, .nil⟩
  | cons x xs ih =>
    rw [List.mapM_cons] at succeeds
    obtain ⟨y, pools₁, first, rest⟩ := StateT.exists_of_run_bind_eq_ok succeeds
    obtain ⟨ys', pools₂, others, whole⟩ := StateT.exists_of_run_bind_eq_ok rest
    cases whole
    obtain ⟨each, eachs⟩ := List.forall_mem_cons.1 each
    have makes := each pools y pools₁ handles first
    have makes' := ih eachs makes.handles others
    exact ⟨makes'.handles, makes.literals.trans makes'.literals,
      (makes.made.mono fun n provided => provides_of_le provided makes'.literals).append
        makes'.made⟩

section Statics

/-- What a field starts with is a number or a literal. -/
lemma names_contents {initial : InitialValue} {type : IrType} {f : Pools → Value × Pools}
    (given : initial.contents? type = some f) (pools : Pools) :
    (f pools).2.sites = pools.sites ∧
      pools.literals.texts.length ≤ (f pools).2.literals.texts.length ∧
      ∀ n ∈ (f pools).1.names, b.Provides (f pools).2 n := by
  -- a number names nothing and leaves the pools alone
  have number {v : Value} (plain : v.names = []) (eq : f = (v, ·)) :
      (f pools).2.sites = pools.sites ∧
        pools.literals.texts.length ≤ (f pools).2.literals.texts.length ∧
        ∀ n ∈ (f pools).1.names, b.Provides (f pools).2 n := by
    subst eq
    refine ⟨rfl, Nat.le_refl _, fun n mem => ?_⟩
    rw [plain] at mem
    cases mem
  cases initial with
  | int | long | float =>
    rw [InitialValue.contents?] at given
    split at given
    · exact number rfl (Option.some.inj given).symm
    · cases given
  | double x =>
    rw [InitialValue.contents?.eq_def] at given
    dsimp only at given
    split at given
    · exact number rfl (Option.some.inj given).symm
    · exact number rfl (Option.some.inj given).symm
    · cases given
  | string text =>
    rw [InitialValue.contents?] at given
    split at given
    · obtain rfl := Option.some.inj given
      obtain ⟨lt, le⟩ := pools.literals.intern_spec text
      refine ⟨rfl, le, fun n mem => .inr ?_⟩
      obtain rfl := List.mem_singleton.1 mem
      exact Literals.mem_names lt
    · cases given

/-- A static field is made under its symbol. -/
lemma staticField_makes {f : FieldDef} (handles : Lowering.HandlesDeclared b pools)
    (given : (c.staticField f).run pools = .ok (e, pools')) :
    Makes b pools pools' [.symbol (.field c.name f.name)] [e] := by
  have data {v : Value} {pools' : Pools} (known : ∀ n ∈ v.names, b.Provides pools' n) :
      b.Made (b.Provides pools') [.symbol (.field c.name f.name)]
        [.data (.field c.name f.name) .data (.storage f.type) (.value v)] := by
    refine .single rfl fun n mem => ?_
    rw [Entry.names, IrType.names_storage] at mem
    exact known n mem
  rw [ClassDef.staticField] at given
  split at given
  · cases given
    exact ⟨handles, Nat.le_refl _, data (by simp)⟩
  · split at given
    case h_1 contents found =>
      obtain ⟨v, pools₁, got, whole⟩ := StateT.exists_of_run_bind_eq_ok given
      cases whole
      obtain ⟨sites, le, known⟩ := names_contents (b := b) found pools
      obtain ⟨rfl, rfl⟩ := Prod.mk.inj (Except.ok.inj got)
      refine ⟨?_, le, data known⟩
      rw [Lowering.HandlesDeclared, sites]
      exact handles
    case h_2 => cases given

/-- The static fields of a class are made under their symbols. -/
lemma staticEntries_makes (handles : Lowering.HandlesDeclared b pools)
    (given : c.staticEntries.run pools = .ok (es, pools')) :
    Makes b pools pools' c.staticNames es := by
  have makes := Makes.mapM (g := fun f => [.symbol (.field c.name f.name)]) (h := fun e => [e])
    (fun f _ _ e _ handles given => staticField_makes handles given) handles given
  rwa [← List.map_eq_flatMap, List.flatMap_singleton'] at makes

end Statics

section Methods

/-- Parameters refer to no names. -/
lemma names_parameterTypes (m : MethodDef) :
    (Lowering.parameterTypes m).flatMap IrType.names = [] := by
  refine List.flatMap_eq_nil_iff.2 fun type mem => ?_
  rcases List.mem_append.1 mem with mem | mem
  · split at mem
    · cases mem
    · exact List.mem_singleton.1 mem ▸ rfl
  · obtain ⟨type', _, rfl⟩ := List.mem_map.1 mem
    exact IrType.names_ofValue type'

/-- The entry of a method is under its name; only a method whose code is nowhere has none. -/
lemma method_makes (owners : Lowering.OwnersDeclared b) {m : MethodDef}
    {entry : Option (Entry Label)} (handles : Lowering.HandlesDeclared b pools)
    (given : (Lowering.method b c m).run pools = .ok (entry, pools')) :
    Makes b pools pools' (if m.hasEntry then [.symbol (.method (c.reference m))] else [])
      (entry.toList.flatMap fun e => [e, .blank]) := by
  have listed {e : Entry Label} (has : m.hasEntry = true)
      (name : e.name? = some (.symbol (.method (c.reference m))))
      (refers : ∀ n ∈ e.names, b.Provides pools' n) :
      b.Made (b.Provides pools')
        (if m.hasEntry then [.symbol (.method (c.reference m))] else [])
        ((some e).toList.flatMap fun e => [e, .blank]) := by
    rw [if_pos has]
    exact (Made.single name refers).append .blank
  cases Lowering.method_spec given with
  | native native =>
    refine ⟨handles, Nat.le_refl _, listed ?_ rfl fun n mem => ?_⟩
    · rw [MethodDef.hasEntry, native, Bool.true_or]
    rw [Entry.names, IrType.names_ofValue, names_parameterTypes] at mem
    cases mem
  | abstract native abstract =>
    rw [if_neg (by simp [MethodDef.hasEntry, native, abstract])]
    exact ⟨handles, Nat.le_refl _, .nil⟩
  | function _ abstract _ lowered =>
    obtain ⟨name, refers, handles', le⟩ := Lowering.function_names owners handles lowered
    refine ⟨handles', le, listed (by simp [MethodDef.hasEntry, abstract]) ?_ refers⟩
    rw [Entry.name?, name]
    rfl

/-- The methods of a class that have entries are made under their symbols. -/
lemma methods_makes (owners : Lowering.OwnersDeclared b)
    (handles : Lowering.HandlesDeclared b pools)
    (given : (b.methods c).run pools = .ok (es, pools')) :
    Makes b pools pools' c.methodNames es := by
  obtain ⟨made, pools₁, lowered, whole⟩ := StateT.exists_of_run_bind_eq_ok given
  cases whole
  rw [List.flatMap_reduceOption, ClassDef.methodNames, List.map_filter_eq_flatMap]
  exact Makes.mapM (fun m _ _ _ _ handles given => method_makes owners handles given) handles
    lowered

end Methods

section Initializers

/-- A method that is declared is known, or it has no code. -/
lemma knows_or_hasEntry_eq_false {m : MethodDef} (memc : c ∈ b.program.classes)
    (memm : m ∈ c.methods) : b.Knows (.symbol (.method (c.reference m))) ∨ m.hasEntry = false := by
  cases has : m.hasEntry with
  | true => exact .inl (.method memc memm has)
  | false => exact .inr rfl

/-- What an initializer refers to: the metadata, the header type, the initializer of the parent and
the method that initializes. -/
lemma mem_names_initializer (mem : n ∈ (b.program.initializer c).names) :
    n = .symbol (.metadata c.name) ∨ n = .type (.runtime .header) ∨
      (∃ parent, b.program.needsInitialization parent = true ∧
        n = .symbol (.initializer parent)) ∨
      ∃ m, c.initializer? = some m ∧ n = .symbol (.method (c.reference m)) := by
  have parents : ∀ parent ∈ c.parentName.filter b.program.needsInitialization,
      b.program.needsInitialization parent = true := fun parent mem =>
    (Option.filter_eq_some_iff.1 mem).2
  rw [Program.initializer] at mem
  cases parent : c.parentName.filter b.program.needsInitialization <;>
    cases initializer : c.initializer? <;>
    simp [Function.names, Block.names, parent, initializer] at mem parents ⊢ <;> grind

/-- An initializer is defined under its symbol and refers to known names. -/
lemma initializer_made (memc : c ∈ b.program.classes) :
    b.Made b.Knows [.symbol (.initializer c.name)] [.define (b.program.initializer c)] := by
  refine ⟨rfl, fun e mem n memn => ?_⟩
  obtain rfl := List.mem_singleton.1 mem
  rcases mem_names_initializer memn with rfl | rfl | ⟨parent, needed, rfl⟩ | ⟨m, found, rfl⟩
  · exact .inl (.metadata ⟨c, memc, rfl⟩)
  · exact .inl (.runtimeType _)
  · exact .inl (.initializer needed)
  · have memm : m ∈ c.methods := List.mem_of_find?_eq_some found
    exact (knows_or_hasEntry_eq_false memc memm).imp_right fun none =>
      ⟨rfl, c, memc, m, memm, none, rfl⟩

/-- The initializers are defined for the classes that need one. -/
lemma initializers_made :
    b.Made b.Knows
      ((b.program.sortedClasses.filter fun c => b.program.needsInitialization c.name).map
        fun c => .symbol (.initializer c.name)) b.initializers := by
  rw [List.map_eq_flatMap]
  refine .flatMap fun c mem => ?_
  have memc : c ∈ b.program.classes := List.mem_mergeSort.1 (List.mem_filter.1 mem).1
  exact .cons (initializer_made memc) .blank

/-- The entry point calls a method that is declared; it may have no code. -/
lemma main_made (given : b.main = .ok es) :
    b.Made b.Knows (b.program.entryPoint.map fun _ => Name.symbol .main).toList es := by
  rw [main] at given
  split at given
  case h_1 none =>
    cases given
    rw [none]
    exact .nil
  case h_2 entry some =>
    obtain ⟨f, made, whole⟩ := Except.exists_of_bind_eq_ok given
    cases whole
    rw [Program.main] at made
    split at made
    case h_1 => cases made
    case h_2 owner m found =>
      split at made
      case isTrue => cases made
      case isFalse =>
        obtain ⟨memc, memm⟩ := Program.mem_of_resolveMethod? found
        cases made
        rw [some]
        refine .cons ⟨rfl, fun e mem n memn => ?_⟩ .blank
        obtain rfl := List.mem_singleton.1 mem
        -- the arguments are zeros, which name nothing
        have arguments : (m.signature.parameters.map fun type =>
            Operand.mk (.ofValue type) (.zeroOf (.ofValue type))).flatMap Operand.names = [] := by
          rw [List.flatMap_map]
          exact List.flatMap_eq_nil_iff.2 fun type _ => by simp
        have names : n = .symbol (.runtime .init) ∨ n = .symbol (.runtime .initStringPool) ∨
            n = .symbol (.method (owner.reference m)) := by
          split at memn <;>
            simpa [Entry.names, Function.names, Block.names, arguments] using memn
        rcases names with rfl | rfl | rfl
        · exact .inl (.runtime _)
        · exact .inl (.runtime _)
        · exact (knows_or_hasEntry_eq_false memc memm).imp_right fun none =>
            ⟨rfl, owner, memc, m, memm, none, rfl⟩

end Initializers

section Metadata

/-- A method that a class runs for a slot has an entry. -/
lemma knows_of_slotContents {name : String} {s : Signature}
    (mem : n ∈ Constant.typedNames (slotContents (b.program.implementation? name s))) :
    b.Knows n := by
  cases found : b.program.implementation? name s with
  | none =>
    rw [found] at mem
    cases mem
  | some m =>
    rw [found] at mem
    exact List.mem_singleton.1 mem ▸ knows_implementation found

/-- What a header refers to besides the methods in its slots. -/
lemma knows_of_header {h : Header} (size : ∀ n ∈ h.size.names, b.Knows n)
    (parent : ∀ n ∈ h.parent.names, b.Knows n) (table : ∀ n ∈ h.fieldTable.names, b.Knows n)
    (slots : ∀ slot ∈ h.slots, ∀ n ∈ Constant.typedNames (slotContents slot), b.Knows n)
    (mem : n ∈ h.contents.names) : b.Knows n := by
  simp only [Header.contents, Constant.names_record, List.flatMap_append, List.flatMap_cons,
    List.flatMap_nil, Constant.typedNames_i32, Constant.typedNames_i64, Constant.typedNames_ptr,
    Constant.typedNames, IrType.names_runtime, Value.names_int, List.flatMap_map, List.append_nil,
    List.nil_append, List.mem_append, List.mem_singleton] at mem
  rcases mem with (mem | mem | mem | mem) | mem
  · exact size n mem
  · exact mem ▸ .runtimeType _
  · exact parent n mem
  · exact table n mem
  · obtain ⟨slot, mem, memn⟩ := List.mem_flatMap.1 mem
    exact slots slot mem n memn

/-- The table of a class with a reference of its own is not empty. -/
lemma fieldTable_ne_nil {layout : ObjectLayout} (found : b.program.layout? c.name = some layout)
    (has : layout.ownReferences.isEmpty = false) : b.fieldTable c ≠ [] := by
  rw [fieldTable, found]
  simp only [Option.elim, List.isEmpty_map, has]
  exact List.cons_ne_nil _ _

/-- What the header of a class refers to is known. -/
lemma knows_of_classHeader {range : TagRange} {layout : ObjectLayout}
    (memc : c ∈ b.program.classes) (found : b.program.layout? c.name = some layout)
    (parents : ∀ parent, c.parentName = some parent → b.Declares parent)
    (mem : n ∈ (b.classHeader c range layout).contents.names) : b.Knows n := by
  refine knows_of_header ?_ ?_ ?_ ?_ mem
  · exact List.forall_mem_singleton.2 (.instances found)
  · rw [classHeader]
    cases parent : c.parentName with
    | none => exact List.forall_mem_nil _
    | some name => exact List.forall_mem_singleton.2 (.metadata (parents name parent))
  · rw [classHeader]
    dsimp only
    split
    · exact List.forall_mem_nil _
    · rename_i has
      exact List.forall_mem_singleton.2
        (.fieldTable memc (fieldTable_ne_nil found (by simpa using has)))
  · intro slot mem n memn
    obtain ⟨m, _, rfl⟩ := List.mem_map.1 mem
    split at memn
    · exact knows_of_slotContents memn
    · cases memn

/-- The metadata of a class is defined under its symbol and refers to known names. -/
lemma metadata_made (memc : c ∈ b.program.classes)
    (parents : c.isInterface = false → ∀ parent, c.parentName = some parent → b.Declares parent)
    (given : b.metadata c = .ok e) : b.Made b.Knows [.symbol (.metadata c.name)] [e] := by
  -- the names in metadata, from those of the header and of the slots
  have entry {h : Header} {slots : List (Option MethodRef)}
      (header : ∀ n ∈ h.contents.names, b.Knows n)
      (own : ∀ slot ∈ slots, ∀ n ∈ Constant.typedNames (slotContents slot), b.Knows n) :
      b.Made b.Knows [.symbol (.metadata c.name)]
        [.data (.metadata c.name) .data (.named (.metadata c.name))
          (.record ((.runtime .header, h.contents) :: slots.map slotContents))] := by
    refine .single rfl fun n mem => ?_
    simp only [Entry.names, IrType.names, Constant.names_record, List.flatMap_cons,
      Constant.typedNames, IrType.names_runtime, List.flatMap_map, List.mem_append,
      List.mem_singleton] at mem
    rcases mem with mem | (mem | mem) | mem
    · exact mem ▸ .metadataType ⟨c, memc, rfl⟩
    · exact mem ▸ .runtimeType _
    · exact header n mem
    · obtain ⟨slot, mem, memn⟩ := List.mem_flatMap.1 mem
      exact own slot mem n memn
  rw [metadata] at given
  split at given
  case isTrue =>
    cases given
    refine entry (fun n => knows_of_header (List.forall_mem_nil _) (List.forall_mem_nil _)
      (List.forall_mem_nil _) ?_) (List.forall_mem_nil _)
    intro slot mem n memn
    obtain ⟨m, _, rfl⟩ := List.mem_map.1 mem
    cases memn
  case isFalse isClass =>
    split at given
    case h_1 => cases given
    case h_2 => cases given
    case h_3 range layout _ found =>
      cases given
      refine entry (fun n => knows_of_classHeader memc found (parents (by simpa using isClass)))
        fun slot mem n memn => ?_
      obtain ⟨m, _, rfl⟩ := List.mem_map.1 mem
      exact knows_of_slotContents memn

/-- The metadata of arrays is defined under its symbols. -/
lemma arrayMetadata_made :
    b.Made b.Knows (ElementKind.all.map fun kind => .symbol (.arrayMetadata kind))
      b.arrayMetadata := by
  rw [arrayMetadata]
  refine .map fun kind _ => .single rfl fun n mem => ?_
  rcases List.mem_append.1 mem with mem | mem
  · exact List.mem_singleton.1 mem ▸ .runtimeType _
  · refine knows_of_header ?_ ?_ ?_ ?_ mem
    · exact List.forall_mem_nil _
    · dsimp only
      split
      case isTrue found =>
        exact List.forall_mem_singleton.2 (.metadata (declares_of_lookup? found))
      case isFalse => exact List.forall_mem_nil _
    · exact List.forall_mem_nil _
    · intro slot mem n memn
      obtain ⟨m, _, rfl⟩ := List.mem_map.1 mem
      cases memn

/-- The table of field offsets of a class is defined if there is one. -/
lemma fieldTable_made :
    b.Made b.Knows (if !(b.fieldTable c).isEmpty then [.symbol (.fieldTable c.name)] else [])
      (b.fieldTable c) := by
  rw [fieldTable]
  split
  case isTrue => exact .nil
  case isFalse has =>
    refine .single rfl fun n mem => ?_
    have plain : (IrType.array (((b.program.layout? c.name).elim [] (·.ownReferences)).map
        fun f => Constant.i32
          (.offset (.named (.instances c.name)) [0, f.index])).length .i32).names =
        [] := rfl
    cases found : b.program.layout? c.name with
    | none => simp [found] at has
    | some layout =>
      rw [Entry.names, plain, List.nil_append, Constant.names_sequence, List.flatMap_map] at mem
      obtain ⟨f, _, mem⟩ := List.mem_flatMap.1 mem
      exact List.mem_singleton.1 mem ▸ .instances found

/-- The tables of field offsets are defined for the classes that have one. -/
lemma fieldTables_made :
    b.Made b.Knows
      ((b.program.sortedClasses.filter fun c => !(b.fieldTable c).isEmpty).map
        fun c => .symbol (.fieldTable c.name))
      (b.program.sortedClasses.flatMap b.fieldTable) := by
  rw [List.map_filter_eq_flatMap]
  exact .flatMap fun _ _ => fieldTable_made

/-- The table of static references is defined under its symbol. -/
lemma stackRoots_made : b.Made b.Knows [.symbol (.runtime .stackRoots)] [b.stackRoots] := by
  refine .single rfl fun n mem => ?_
  have roots : n ∈ b.staticReferences.flatMap Constant.typedNames := by
    simpa [stackRoots, Entry.names, Constant.typedNames] using mem
  obtain ⟨x, mem, memn⟩ := List.mem_flatMap.1 roots
  obtain ⟨c, memc, mem⟩ := List.mem_flatMap.1 mem
  obtain ⟨f, memf, rfl⟩ := List.mem_map.1 mem
  exact List.mem_singleton.1 memn ▸
    .field (List.mem_mergeSort.1 memc) (List.mem_filter.1 memf).1

end Metadata

section Pools

variable {id : Nat}

/-- The characters of a literal are defined under their symbol. -/
lemma charsEntry_made (text : String) :
    b.Made b.Knows [.symbol (.literalChars id)] [Literals.charsEntry id text] := by
  refine .single rfl fun n mem => ?_
  have units : ((Text.unitsOf text).map fun (unit : Nat) =>
      (IrType.i16, Constant.value (.int unit))).flatMap Constant.typedNames = [] := by
    rw [List.flatMap_map]
    exact List.flatMap_eq_nil_iff.2 fun _ _ => rfl
  have names : n = .type (.runtime .array) ∨ n = .type (.runtime .object) ∨
      n = .symbol (.arrayMetadata .char) := by
    simp [Literals.charsEntry, Entry.names, Constant.typedNames, Literals.objectHeader, units]
      at mem
    tauto
  rcases names with rfl | rfl | rfl
  · exact .runtimeType _
  · exact .runtimeType _
  · exact .arrayMetadata _

/-- The object of a literal is one of the string class, which is declared and has a layout. -/
lemma objectEntry_made {className : String} {layout : ObjectLayout} (charsIndex : Nat)
    (found : b.program.layout? className = some layout) (lt : id < pools.literals.texts.length) :
    b.Made (b.Provides pools) [.symbol (.literal id)]
      [Literals.objectEntry className layout.fields charsIndex id] := by
  refine .single rfl fun n mem => ?_
  have declared : b.Declares className := by
    obtain ⟨c, concrete, named, _⟩ := Program.exists_of_layout? found
    exact ⟨c, Program.concreteClasses_subset concrete, named⟩
  have fields : ∀ f ∈ layout.fields,
      ∀ n ∈ Constant.typedNames (Literals.fieldContents id charsIndex f), b.Provides pools n := by
    intro f _ n mem
    rw [Literals.fieldContents] at mem
    split at mem
    · simp only [Constant.typedNames, IrType.names_storage, List.nil_append] at mem
      exact .inr (List.mem_singleton.1 mem ▸ Literals.chars_mem_names lt)
    · simp [Constant.typedNames] at mem
  simp only [Literals.objectEntry, Entry.names, IrType.names, Constant.names_record,
    List.flatMap_cons, Literals.objectHeader, Constant.typedNames, IrType.names_runtime,
    Constant.typedNames_ptr, Constant.typedNames_i32, Value.names_symbol, Value.names_int,
    List.flatMap_nil, List.append_nil, List.flatMap_map, List.mem_append, List.mem_singleton] at mem
  rcases mem with rfl | (rfl | rfl) | mem
  · exact .inl (.instances found)
  · exact .inl (.runtimeType _)
  · exact .inl (.metadata declared)
  · obtain ⟨f, memf, memn⟩ := List.mem_flatMap.1 mem
    exact fields f memf n memn

/-- The function that marks the literals is defined under its symbol and refers to the literals. -/
lemma initFunction_made :
    b.Made (b.Provides pools) [.symbol (.runtime .initStringPool)]
      [.define (Literals.initFunction pools.literals.texts.length)] := by
  refine .single rfl fun n mem => ?_
  simp only [Literals.initFunction, Entry.names, Function.names, IrType.names, List.flatMap_nil,
    List.flatMap_cons, Block.names, List.nil_append, List.append_nil, List.flatMap_append,
    Line.names, Term.names, List.mem_flatMap, List.mem_pair] at mem
  obtain ⟨l, ⟨id, memid, rfl | rfl⟩, mem⟩ := mem
  all_goals
    simp [Literals.markLine] at mem
    rcases mem with rfl | rfl
  · exact .inr (Literals.mem_names (List.mem_range.1 memid))
  · exact .inl (.runtimeType _)
  · exact .inr (Literals.chars_mem_names (List.mem_range.1 memid))
  · exact .inl (.runtimeType _)

/-- The entries of the literals define their names, and end with the function that registers them.
-/
lemma literals_made {className charsField : String}
    (given : pools.literals.entries b.program className charsField = .ok es) :
    ∃ data,
      es = data ++ [Entry.blank, .define (Literals.initFunction pools.literals.texts.length)] ∧
      b.Made (b.Provides pools) (Literals.names pools.literals.texts.length) data := by
  obtain ⟨fields, charsIndex, rfl, described⟩ := literals_entries_spec given
  refine ⟨_, rfl, ?_⟩
  rw [Literals.names, List.range_eq_range', ← List.zipIdx_map_snd, List.flatMap_map]
  refine .flatMap fun ⟨text, id⟩ mem => ?_
  obtain ⟨layout, _, found, _, rfl, _⟩ :=
    described (List.ne_nil_of_mem (List.fst_mem_of_mem_zipIdx mem))
  have lt : id < pools.literals.texts.length := by simpa using List.snd_lt_of_mem_zipIdx mem
  exact .cons ((charsEntry_made text).mono fun _ => .inl) (objectEntry_made charsIndex found lt)

/-- The table of the handlers of a call site has metadata of classes that are declared. -/
lemma handlerEntries_made {site : CallSite}
    (handles : ∀ name, some name ∈ site.handled → b.Declares name) :
    b.Made b.Knows (if !site.handled.isEmpty then [.symbol (.handlers id)] else [])
      (CallSites.handlerEntries site id) := by
  rw [CallSites.handlerEntries]
  cases empty : site.handled.isEmpty with
  | true => exact .nil
  | false =>
    refine .single rfl fun n mem => ?_
    simp only [Entry.names, IrType.names, List.nil_append, Constant.names_sequence,
      List.flatMap_map] at mem
    obtain ⟨h, memh, mem⟩ := List.mem_flatMap.1 mem
    cases h with
    | none => cases mem
    | some name => exact List.mem_singleton.1 mem ▸ .metadata (handles name memh)

/-- A site that is protected has a table of handlers. -/
lemma mem_handlerNames {t : CallSites} {site : CallSite} (mem : (site, id) ∈ t.sites.zipIdx)
    (has : site.handled.isEmpty = false) : .symbol (.handlers id) ∈ t.handlerNames :=
  List.mem_map.2 ⟨(site, id), List.mem_filter.2 ⟨mem, by simpa using has⟩, rfl⟩

/-- The entries of call sites are the tables of handlers and then the two tables about all sites. -/
lemma callSites_made (handles : Lowering.HandlesDeclared b pools) :
    ∃ handlers table, pools.sites.entries = handlers ++ table ∧
      b.Made b.Knows pools.sites.handlerNames handlers ∧
      b.Made (fun n => b.Knows n ∨ n ∈ pools.sites.handlerNames)
        [.symbol (.runtime .callSites), .symbol (.runtime .callSiteCount)] table := by
  refine ⟨_, _, pools.sites.entries_eq, ?_,
    .cons (.single rfl fun n mem => ?_) (.single rfl fun n mem => ?_)⟩
  · rw [CallSites.handlerNames, List.map_filter_eq_flatMap]
    exact .flatMap fun entry mem => handlerEntries_made
      (handles entry.1 (List.fst_mem_of_mem_zipIdx mem))
  · simp only [Entry.names, IrType.names, IrType.names_runtime, Constant.names_sequence,
      List.flatMap_map, List.mem_append, List.mem_singleton] at mem
    rcases mem with rfl | mem
    · exact .inl (.runtimeType _)
    obtain ⟨⟨site, id⟩, listed, memn⟩ := List.mem_flatMap.1 mem
    cases has : site.handled.isEmpty with
    | true =>
      simp [CallSites.contents, Constant.typedNames, has] at memn
      exact memn ▸ .inl (.runtimeType _)
    | false =>
      simp [CallSites.contents, Constant.typedNames, has] at memn
      rcases memn with rfl | rfl
      · exact .inl (.runtimeType _)
      · exact .inr (mem_handlerNames listed has)
  · cases mem

end Pools

section Module

variable {p : Program} {settings : Settings}

/-- A back end has slots only for classes that are declared. -/
lemma ownersDeclared (built : ofProgram p settings = .ok b) : Lowering.OwnersDeclared b := by
  intro m owner n owned
  obtain ⟨rfl, tagged, tabled⟩ := ofProgram_spec built
  have grounded : ∀ c ∈ b.program.concreteClasses, b.program.Grounded c := fun c memc =>
    TagMap.grounded_of_ofProgram tagged memc
  obtain ⟨_, _, c, memc, name⟩ := (DispatchTables.ofProgram_spec grounded tabled).1 _ _
    (DispatchTables.mem_slots_of_slot? owned)
  exact ⟨c, Program.concreteClasses_subset memc, name⟩

/-- The parent of a class is declared. -/
lemma declares_parent (built : ofProgram p settings = .ok b) (memc : c ∈ b.program.classes)
    (isClass : c.isInterface = false) {parent : String} (link : c.parentName = some parent) :
    b.Declares parent := by
  obtain ⟨rfl, tagged, _⟩ := ofProgram_spec built
  cases TagMap.grounded_of_ofProgram tagged (Program.mem_concreteClasses.2 ⟨memc, isClass⟩) with
  | root _ none => exact nomatch none.symm.trans link
  | child _ link' _ grounded =>
    obtain rfl := Option.some.inj (link'.symm.trans link)
    exact ⟨_, Program.concreteClasses_subset grounded.mem_concreteClasses, rfl⟩

/-- The entries of a module come in parts. Each part defines the names that can be read off the
program and the pools, and refers to names of the module only, apart from methods without code at
its start. -/
lemma exists_parts (built : ofProgram p settings = .ok b)
    (emitted : b.entries.run .empty = .ok (es, pools)) :
    ∃ statics methods main pools₁ parts, Lowering.HandlesDeclared b pools₁ ∧
      (b.program.sortedClasses.mapM ClassDef.staticEntries).run .empty = .ok (statics, pools₁) ∧
      (b.program.sortedClasses.mapM b.methods).run pools₁ = .ok (methods, pools) ∧
      b.main = .ok main ∧ es = parts.flatten ∧
      List.Forall₂ (b.Made (· ∈ (b.definitions pools).flatten)) (b.definitions pools) parts ∧
      parts[4]? = some methods.flatten ∧ parts[5]? = some b.initializers ∧
      parts[10]? = some main := by
  obtain ⟨statics, methods, metadata, main, literals, pools₁, statics', methods', metadata', main',
    literals', eq⟩ := entries_spec emitted
  have declared : ∀ c ∈ b.program.sortedClasses, c ∈ b.program.classes := fun _ =>
    List.mem_mergeSort.1
  have owners := ownersDeclared built
  have empty : Lowering.HandlesDeclared b Pools.empty := List.forall_mem_nil _
  have makes := Makes.mapM (g := ClassDef.staticNames) (h := id)
    (fun c _ _ _ _ handles given => staticEntries_makes (c := c) handles given)
    empty statics'
  have makes' := Makes.mapM (g := ClassDef.methodNames) (h := id)
    (fun c _ _ _ _ handles given => methods_makes owners (c := c) handles given)
    makes.handles methods'
  have types : b.Made b.Knows (b.program.sortedClasses.flatMap ClassDef.typeNames)
      (b.program.sortedClasses.flatMap b.classTypes) := .flatMap fun _ _ => classTypes_made
  have fields : b.Made (b.Provides pools) (b.program.sortedClasses.flatMap ClassDef.staticNames)
      statics.flatten := by
    rw [← List.flatMap_id]
    exact makes.made.mono fun n old => provides_of_le old makes'.literals
  have code : b.Made (b.Provides pools) (b.program.sortedClasses.flatMap ClassDef.methodNames)
      methods.flatten := by
    rw [← List.flatMap_id]
    exact makes'.made
  have described : b.Made b.Knows
      (b.program.sortedClasses.map fun c => .symbol (.metadata c.name)) metadata := by
    have each : List.Forall₂ (fun c e => b.Made b.Knows [.symbol (.metadata c.name)] [e])
        b.program.sortedClasses metadata :=
      Except.Ensures.mapM (fun c memc e given => metadata_made (declared c memc)
        (fun isClass _ => declares_parent built (declared c memc) isClass) given) _ metadata'
    have made := Made.forall₂ each
    rwa [← List.map_eq_flatMap, List.flatMap_singleton'] at made
  have roots : b.Made b.Knows [.symbol (.runtime .stackRoots)] [b.stackRoots, .blank] :=
    .cons stackRoots_made .blank
  obtain ⟨data, rfl, texts⟩ := literals_made literals'
  obtain ⟨handlers, table, sites, handlers', table'⟩ := callSites_made makes'.handles
  -- every name that some part is allowed to refer to is among the definitions
  have known : ∀ n, b.Knows n → n ∈ (b.definitions pools).flatten := fun n knows => knows pools
  have provided : ∀ n, b.Provides pools n → n ∈ (b.definitions pools).flatten := fun n =>
    Or.rec (known n) fun mem => List.mem_flatten.2 ⟨_, by simp [definitions], mem⟩
  have handled : ∀ n, b.Knows n ∨ n ∈ pools.sites.handlerNames →
      n ∈ (b.definitions pools).flatten := fun n =>
    Or.rec (known n) fun mem => List.mem_flatten.2 ⟨_, by simp [definitions], mem⟩
  have parts : List.Forall₂ (b.Made (· ∈ (b.definitions pools).flatten)) (b.definitions pools)
      [b.settings.heading ++ (Environment.prologue ++ [Entry.blank]), [b.headerType],
        b.program.sortedClasses.flatMap b.classTypes ++ [Entry.blank],
        statics.flatten ++ [Entry.blank], methods.flatten, b.initializers, metadata,
        b.arrayMetadata ++ [Entry.blank], b.program.sortedClasses.flatMap b.fieldTable,
        [b.stackRoots, Entry.blank], main, data,
        [Entry.blank, .define (Literals.initFunction pools.literals.texts.length), .blank],
        handlers, table ++ [Entry.blank], Environment.epilogue] := by
    refine .cons ?_ <| .cons (headerType_made.mono known) <| .cons ?_ <| .cons ?_ <|
      .cons (code.mono provided) <| .cons (initializers_made.mono known) <|
      .cons (described.mono known) <| .cons ?_ <| .cons (fieldTables_made.mono known) <|
      .cons (roots.mono known) <| .cons ((main_made main').mono known) <|
      .cons (texts.mono provided) <| .cons ?_ <| .cons (handlers'.mono known) <| .cons ?_ <|
      .cons epilogue_made .nil
    · exact (heading_made b.settings).append (prologue_made.append_blank.mono known)
    · exact types.append_blank.mono known
    · exact fields.append_blank.mono provided
    · exact arrayMetadata_made.append_blank.mono known
    · exact (Made.blank.append initFunction_made.append_blank).mono provided
    · exact table'.append_blank.mono handled
  refine ⟨statics, methods, main, pools₁, _, makes.handles, statics', methods', main', ?_, parts,
    rfl, rfl, rfl⟩
  rw [eq, sites]
  simp only [List.flatten_cons, List.flatten_nil, List.append_assoc, List.cons_append,
    List.nil_append, List.append_nil]

/-- The module of a program defines the names of its parts, and it refers to those names only, apart
from methods without code at its start. -/
theorem entries_made (built : ofProgram p settings = .ok b)
    (emitted : b.entries.run .empty = .ok (es, pools)) :
    b.Made (· ∈ (b.definitions pools).flatten) (b.definitions pools).flatten es := by
  obtain ⟨_, _, _, _, parts, _, _, _, _, rfl, made, _⟩ := exists_parts built emitted
  have made := Made.forall₂ (g := id) (h := id) made
  rwa [List.flatMap_id, List.flatMap_id] at made

end Module

end Backend

end ObjectBackend
