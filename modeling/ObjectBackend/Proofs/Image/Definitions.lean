import ObjectBackend.Image.Module
import ObjectBackend.Proofs.Hierarchy.Interfaces
import ObjectBackend.Proofs.Hierarchy.Names
import ObjectBackend.Proofs.Objects.Dispatch
import ObjectBackend.Proofs.Objects.Layout
import ObjectBackend.Proofs.Target.Names

/-!
# What a module defines

The names that the parts of a module define or declare, part by part (`Backend.definitions`). They
can be read off the program and the pools, without looking at any code. A name is known if a module
of the program has it whatever the pools are; there is one lemma for each check that code or data
makes before it uses a name, and each says that the name is known.
-/

namespace ObjectBackend

open Target

/-- Whether a method has an entry in the module: only a method whose code is nowhere has none. -/
def MethodDef.hasEntry (m : MethodDef) : Bool := m.isNative || !m.isAbstract

namespace ClassDef

/-- The names of the types of a class. -/
def typeNames (c : ClassDef) : List Name :=
  if c.isInterface then [.type (.metadata c.name)]
  else [.type (.instances c.name), .type (.metadata c.name)]

/-- The names of the static fields of a class. -/
def staticNames (c : ClassDef) : List Name :=
  c.staticFields.map fun f => .symbol (.field c.name f.name)

/-- The names of the methods of a class that have an entry. -/
def methodNames (c : ClassDef) : List Name :=
  (c.methods.filter MethodDef.hasEntry).map fun m => .symbol (.method (c.reference m))

end ClassDef

namespace Literals

variable {id count count' : Nat}

/-- The names of the first literals. -/
def names (count : Nat) : List Name :=
  (List.range count).flatMap fun id => [.symbol (.literalChars id), .symbol (.literal id)]

/-- The object of a literal that has a number has a name. -/
lemma mem_names (lt : id < count) : .symbol (.literal id) ∈ names count :=
  List.mem_flatMap.2 ⟨id, List.mem_range.2 lt, List.mem_cons_of_mem _ (List.mem_singleton_self _)⟩

/-- The characters of a literal that has a number have a name. -/
lemma chars_mem_names (lt : id < count) : .symbol (.literalChars id) ∈ names count :=
  List.mem_flatMap.2 ⟨id, List.mem_range.2 lt, List.mem_cons_self ..⟩

/-- More literals have the names of fewer ones, and others. -/
lemma names_subset (le : count ≤ count') : names count ⊆ names count' := fun _ mem => by
  obtain ⟨id, lt, mem⟩ := List.mem_flatMap.1 mem
  exact List.mem_flatMap.2 ⟨id, List.mem_range.2 ((List.mem_range.1 lt).trans_le le), mem⟩

end Literals

/-- The names of the handlers of all call sites that have some. -/
def CallSites.handlerNames (t : CallSites) : List Name :=
  (t.sites.zipIdx.filter fun entry => !entry.1.handled.isEmpty).map
    fun entry => .symbol (.handlers entry.2)

/-- The names that every module takes from its environment. -/
def Environment.names : List Name := prologue.filterMap Entry.name?

namespace Program

variable {p : Program} {d : ClassDef}

/-- A member that is found among classes belongs to one of them. -/
lemma mem_of_findSome?_map {α : Type} {cs : List ClassDef} {f : ClassDef → Option α} {a : α}
    (found : cs.findSome? (fun c => (f c).map (c, ·)) = some (d, a)) : d ∈ cs ∧ f d = some a := by
  obtain ⟨c, mem, here⟩ := List.exists_of_findSome?_eq_some found
  obtain ⟨a', member, eq⟩ := Option.map_eq_some_iff.1 here
  obtain ⟨rfl, rfl⟩ := Prod.mk.inj eq
  exact ⟨mem, member⟩

/-- The method that a reference resolves to is declared where it is found. -/
lemma mem_of_resolveMethod? {m : MethodRef} {md : MethodDef}
    (found : p.resolveMethod? m = some (d, md)) : d ∈ p.classes ∧ md ∈ d.methods := by
  obtain ⟨mem, member⟩ := mem_of_findSome?_map found
  exact ⟨(List.mem_append.1 mem).elim mem_of_mem_ancestors mem_of_mem_allInterfaces,
    List.mem_of_find?_eq_some member⟩

/-- The field that a reference resolves to is declared where it is found. -/
lemma mem_of_resolveField? {f : FieldRef} {fd : FieldDef}
    (found : p.resolveField? f = some (d, fd)) : d ∈ p.classes ∧ fd ∈ d.fields := by
  obtain ⟨mem, member⟩ := mem_of_findSome?_map found
  exact ⟨mem_of_mem_ancestors mem, List.mem_of_find?_eq_some member⟩

end Program

namespace Backend

variable {b : Backend} {pools : Pools} {c : ClassDef} {n : Name}

/-- The names that the parts of a module define or declare. -/
def definitions (b : Backend) (pools : Pools) : List (List Name) :=
  let classes := b.program.sortedClasses
  [Environment.names,
    [.type (.runtime .header)],
    classes.flatMap ClassDef.typeNames,
    classes.flatMap ClassDef.staticNames,
    classes.flatMap ClassDef.methodNames,
    (classes.filter fun c => b.program.needsInitialization c.name).map
      fun c => .symbol (.initializer c.name),
    classes.map fun c => .symbol (.metadata c.name),
    ElementKind.all.map fun kind => .symbol (.arrayMetadata kind),
    (classes.filter fun c => !(b.fieldTable c).isEmpty).map fun c => .symbol (.fieldTable c.name),
    [.symbol (.runtime .stackRoots)],
    (b.program.entryPoint.map fun _ => .symbol .main).toList,
    Literals.names pools.literals.texts.length,
    [.symbol (.runtime .initStringPool)],
    pools.sites.handlerNames,
    [.symbol (.runtime .callSites), .symbol (.runtime .callSiteCount)],
    Numeric.all.map fun type => .symbol (.runtime (.compare type))]

/-- Whether a module of the program has a name, whatever its pools are. -/
def Knows (b : Backend) (n : Name) : Prop := ∀ pools, n ∈ (b.definitions pools).flatten

/-- Whether a class or an interface is declared. -/
def Declares (b : Backend) (className : String) : Prop :=
  ∃ c ∈ b.program.classes, c.name = className

/-- A class that is found by name is declared. -/
lemma declares_of_lookup? {name : String} (found : (b.program.lookup? name).isSome) :
    b.Declares name := by
  obtain ⟨c, found⟩ := Option.isSome_iff_exists.1 found
  exact ⟨c, Program.lookup?_eq_some_iff.1 found⟩

/-- Only a class that is declared has something to initialize. -/
lemma declares_of_needsInitialization {name : String}
    (needed : b.program.needsInitialization name = true) : b.Declares name := by
  refine declares_of_lookup? (Option.isSome_iff_ne_none.2 fun none => ?_)
  rw [Program.needsInitialization, Program.ancestors, Pool.chain_of_not_found none] at needed
  cases needed

namespace Knows

/-- A module has the names of each of its parts. -/
lemma of_part (part : List Name) (mem : n ∈ part) (defined : ∀ pools, part ∈ b.definitions pools) :
    b.Knows n := fun pools => List.mem_flatten.2 ⟨part, defined pools, mem⟩

/-- The structures of the environment are known. -/
lemma runtimeType (type : RuntimeType) : b.Knows (.type (.runtime type)) := by
  cases type with
  | header => exact of_part _ (List.mem_singleton_self _) fun _ => by simp [definitions]
  | _ => exact of_part Environment.names (by decide) fun _ => List.mem_cons_self ..

/-- The symbols of the environment, and those that every module defines for it, are known. -/
lemma runtime (s : RuntimeSymbol) : b.Knows (.symbol (.runtime s)) := by
  cases s with
  | initStringPool | stackRoots =>
    exact of_part _ (List.mem_singleton_self _) fun _ => by simp [definitions]
  | callSites =>
    exact of_part [.symbol (.runtime .callSites), .symbol (.runtime .callSiteCount)]
      (List.mem_cons_self ..) fun _ => by simp [definitions]
  | callSiteCount =>
    exact of_part [.symbol (.runtime .callSites), .symbol (.runtime .callSiteCount)]
      (List.mem_cons_of_mem _ (List.mem_cons_self ..)) fun _ => by simp [definitions]
  | compare type =>
    exact of_part (Numeric.all.map fun type => .symbol (.runtime (.compare type)))
      (List.mem_map.2 ⟨type, by cases type <;> decide, rfl⟩) fun _ => by simp [definitions]
  | _ => exact of_part Environment.names (by decide) fun _ => List.mem_cons_self ..

/-- A module has the metadata of each kind of array. -/
lemma arrayMetadata (kind : ElementKind) : b.Knows (.symbol (.arrayMetadata kind)) :=
  of_part (ElementKind.all.map fun kind => .symbol (.arrayMetadata kind))
    (List.mem_map.2 ⟨kind, by cases kind <;> decide, rfl⟩) fun _ => by simp [definitions]

/-- The metadata of a class that is declared are known. -/
lemma metadata {name : String} (declared : b.Declares name) :
    b.Knows (.symbol (.metadata name)) := by
  obtain ⟨c, memc, rfl⟩ := declared
  exact of_part (b.program.sortedClasses.map fun c => .symbol (.metadata c.name))
    (List.mem_map.2 ⟨c, Program.mem_sortedClasses memc, rfl⟩) fun _ => by simp [definitions]

/-- So is the type of the metadata. -/
lemma metadataType {name : String} (declared : b.Declares name) :
    b.Knows (.type (.metadata name)) := by
  obtain ⟨c, memc, rfl⟩ := declared
  refine of_part (b.program.sortedClasses.flatMap ClassDef.typeNames)
    (List.mem_flatMap.2 ⟨c, Program.mem_sortedClasses memc, ?_⟩) fun _ => by simp [definitions]
  rw [ClassDef.typeNames]
  split
  · exact List.mem_singleton_self _
  · exact List.mem_cons_of_mem _ (List.mem_singleton_self _)

/-- A class whose instances have a layout has a type for them. -/
lemma instances {name : String} {layout : ObjectLayout}
    (found : b.program.layout? name = some layout) : b.Knows (.type (.instances name)) := by
  obtain ⟨c, concrete, rfl, _⟩ := Program.exists_of_layout? found
  obtain ⟨memc, isClass⟩ := Program.mem_concreteClasses.1 concrete
  refine of_part (b.program.sortedClasses.flatMap ClassDef.typeNames)
    (List.mem_flatMap.2 ⟨c, Program.mem_sortedClasses memc, ?_⟩) fun _ => by simp [definitions]
  rw [ClassDef.typeNames, if_neg (Bool.eq_false_iff.1 isClass)]
  exact List.mem_cons_self ..

/-- A method with an entry is known. -/
lemma method {m : MethodDef} (memc : c ∈ b.program.classes) (memm : m ∈ c.methods)
    (has : m.hasEntry = true) : b.Knows (.symbol (.method (c.reference m))) :=
  of_part (b.program.sortedClasses.flatMap ClassDef.methodNames)
    (List.mem_flatMap.2 ⟨c, Program.mem_sortedClasses memc,
      List.mem_map.2 ⟨m, List.mem_filter.2 ⟨memm, has⟩, rfl⟩⟩)
    fun _ => by simp [definitions]

/-- A module has the static fields of its classes. -/
lemma field {f : FieldDef} (memc : c ∈ b.program.classes) (memf : f ∈ c.staticFields) :
    b.Knows (.symbol (.field c.name f.name)) :=
  of_part (b.program.sortedClasses.flatMap ClassDef.staticNames)
    (List.mem_flatMap.2 ⟨c, Program.mem_sortedClasses memc, List.mem_map.2 ⟨f, memf, rfl⟩⟩)
    fun _ => by simp [definitions]

/-- The table of a class with reference fields of its own is known. -/
lemma fieldTable (memc : c ∈ b.program.classes) (has : b.fieldTable c ≠ []) :
    b.Knows (.symbol (.fieldTable c.name)) :=
  of_part ((b.program.sortedClasses.filter fun c => !(b.fieldTable c).isEmpty).map
      fun c => .symbol (.fieldTable c.name))
    (List.mem_map.2
      ⟨c, List.mem_filter.2 ⟨Program.mem_sortedClasses memc, by simpa using has⟩, rfl⟩)
    fun _ => by simp [definitions]

/-- A class that has something to initialize has an initializer. -/
lemma initializer {name : String} (needed : b.program.needsInitialization name = true) :
    b.Knows (.symbol (.initializer name)) := by
  obtain ⟨c, memc, rfl⟩ := declares_of_needsInitialization needed
  exact of_part ((b.program.sortedClasses.filter fun c => b.program.needsInitialization c.name).map
      fun c => .symbol (.initializer c.name))
    (List.mem_map.2 ⟨c, List.mem_filter.2 ⟨Program.mem_sortedClasses memc, needed⟩, rfl⟩)
    fun _ => by simp [definitions]

end Knows

/-- A method that a class runs has an entry. -/
lemma knows_implementation {name : String} {s : Signature} {m : MethodRef}
    (found : b.program.implementation? name s = some m) : b.Knows (.symbol (.method m)) := by
  obtain ⟨⟨c, md⟩, inherited, rfl⟩ := Option.map_eq_some_iff.1 found
  obtain ⟨inherited, concrete⟩ := Option.filter_eq_some_iff.1 inherited
  obtain ⟨mem, filtered⟩ := Program.mem_of_findSome?_map inherited
  obtain ⟨member, _⟩ := Option.filter_eq_some_iff.1 filtered
  have signature : md.signature = s := by simpa using List.find?_some member
  rw [← signature]
  exact Knows.method (Program.mem_of_mem_ancestors mem) (List.mem_of_find?_eq_some member)
    (Bool.or_eq_true_iff.2 (.inr concrete))

end Backend

end ObjectBackend
