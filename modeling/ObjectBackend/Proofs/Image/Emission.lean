import Mathlib.Data.List.ReduceOption
import ObjectBackend.Image.Module
import ObjectBackend.Proofs.Evaluation
import ObjectBackend.Proofs.Lowering.Bodies
import ObjectBackend.Proofs.Objects.Layout

/-!
# The entries of a module

What a module consists of if it can be emitted: its parts one after the other (`entries_spec`), with
the pools passed on from the static fields to the methods. Every piece of data comes from the part
that its symbol belongs to (`origin_of_mem`), so what is read under a symbol is what that part has
put there.
-/

namespace ObjectBackend

open Target

/-- The symbol of a piece of data. -/
def Target.Entry.dataSymbol? : Entry Label → Option Symbol
  | .data symbol _ _ _ => some symbol
  | _ => none

namespace Backend

variable {b : Backend} {es : List (Entry Label)} {e : Entry Label} {pools pools' : Pools}

/-- A module consists of the parts that its classes, their methods and the pools are made into. -/
lemma entries_spec (emitted : b.entries.run pools = .ok (es, pools')) :
    ∃ statics methods metadata main literals pools₁,
      (b.program.sortedClasses.mapM ClassDef.staticEntries).run pools = .ok (statics, pools₁) ∧
      (b.program.sortedClasses.mapM b.methods).run pools₁ = .ok (methods, pools') ∧
      b.program.sortedClasses.mapM b.metadata = .ok metadata ∧ b.main = .ok main ∧
      pools'.literals.entries b.program b.settings.stringClass b.settings.charsField =
        .ok literals ∧
      es = b.settings.heading
        ++ Environment.prologue ++ [Entry.blank]
        ++ [b.headerType] ++ b.program.sortedClasses.flatMap b.classTypes ++ [Entry.blank]
        ++ statics.flatten ++ [Entry.blank]
        ++ methods.flatten
        ++ b.initializers
        ++ metadata ++ b.arrayMetadata ++ [Entry.blank]
        ++ b.program.sortedClasses.flatMap b.fieldTable ++ [b.stackRoots, Entry.blank]
        ++ main
        ++ literals ++ [Entry.blank]
        ++ pools'.sites.entries ++ [Entry.blank]
        ++ Environment.epilogue := by
  obtain ⟨statics, pools₁, statics', rest⟩ := StateT.exists_of_run_bind_eq_ok emitted
  obtain ⟨methods, pools₂, methods', rest₂⟩ := StateT.exists_of_run_bind_eq_ok rest
  obtain ⟨metadata, pools₃, metadata', rest₃⟩ := StateT.exists_of_run_bind_eq_ok rest₂
  obtain ⟨main, pools₄, main', rest₄⟩ := StateT.exists_of_run_bind_eq_ok rest₃
  obtain ⟨pools₅, pools₆, got, rest₅⟩ := StateT.exists_of_run_bind_eq_ok rest₄
  obtain ⟨literals, pools₇, literals', whole⟩ := StateT.exists_of_run_bind_eq_ok rest₅
  obtain ⟨metadata'', rfl⟩ := StateT.of_run_mapM_liftM_eq_ok metadata'
  obtain ⟨main'', rfl⟩ := StateT.of_run_liftM_eq_ok main'
  obtain ⟨rfl, rfl⟩ := Prod.mk.inj (Except.ok.inj got)
  obtain ⟨literals'', rfl⟩ := StateT.of_run_liftM_eq_ok literals'
  obtain ⟨eq, rfl⟩ := Prod.mk.inj (Except.ok.inj whole)
  exact ⟨statics, methods, metadata, main, literals, pools₁, statics', methods', metadata'', main'',
    literals'', eq.symm⟩

/-- What the entries of a module are, with what each is made of. The pools are those at the end. -/
inductive IsPart (b : Backend) (pools : Pools) : Entry Label → Prop
  | blank : IsPart b pools .blank
  | heading {e : Entry Label} (mem : e ∈ b.settings.heading) : IsPart b pools e
  | prologue {e : Entry Label} (mem : e ∈ Environment.prologue) : IsPart b pools e
  | headerType : IsPart b pools b.headerType
  | classTypes {c : ClassDef} {e : Entry Label} (declared : c ∈ b.program.classes)
      (mem : e ∈ b.classTypes c) : IsPart b pools e
  | staticField {c : ClassDef} {f : FieldDef} {s s' : Pools} {e : Entry Label}
      (declared : c ∈ b.program.classes) (mem : f ∈ c.staticFields)
      (given : (c.staticField f).run s = .ok (e, s')) : IsPart b pools e
  | method {c : ClassDef} {m : MethodDef} {s s' : Pools} {e : Entry Label}
      (declared : c ∈ b.program.classes) (mem : m ∈ c.methods)
      (given : (Lowering.method b c m).run s = .ok (some e, s')) : IsPart b pools e
  | initializer (c : ClassDef) : IsPart b pools (.define (b.program.initializer c))
  | metadata {c : ClassDef} {e : Entry Label} (declared : c ∈ b.program.classes)
      (given : b.metadata c = .ok e) : IsPart b pools e
  | arrayMetadata {e : Entry Label} (mem : e ∈ b.arrayMetadata) : IsPart b pools e
  | fieldTable {c : ClassDef} {e : Entry Label} (declared : c ∈ b.program.classes)
      (mem : e ∈ b.fieldTable c) : IsPart b pools e
  | stackRoots : IsPart b pools b.stackRoots
  | main {entry : MethodRef} {f : Function Label} (given : b.program.main entry = .ok f) :
      IsPart b pools (.define f)
  | literals {entries : List (Entry Label)} {e : Entry Label}
      (given : pools.literals.entries b.program b.settings.stringClass b.settings.charsField =
        .ok entries)
      (mem : e ∈ entries) : IsPart b pools e
  | callSites {e : Entry Label} (mem : e ∈ pools.sites.entries) : IsPart b pools e
  | epilogue {e : Entry Label} (mem : e ∈ Environment.epilogue) : IsPart b pools e

section Parts

variable {c : ClassDef}

/-- The methods of a class of the program are parts of the module. -/
lemma isPart_of_mem_methods (declared : c ∈ b.program.classes) {s s' : Pools}
    (given : (b.methods c).run s = .ok (es, s')) (mem : e ∈ es) : b.IsPart pools e := by
  obtain ⟨made, _, lowered, whole⟩ := StateT.exists_of_run_bind_eq_ok given
  cases whole
  obtain ⟨entry, mem', or⟩ := List.mem_flatMap.1 mem
  rcases List.mem_pair.1 or with rfl | rfl
  · obtain ⟨m, memm, _, _, given⟩ :=
      StateT.exists_of_mem_of_run_mapM_eq_ok lowered (List.reduceOption_mem_iff.1 mem')
    exact .method declared memm given
  · exact .blank

/-- The initializers are parts of the module. -/
lemma isPart_of_mem_initializers (mem : e ∈ b.initializers) : b.IsPart pools e := by
  obtain ⟨c, _, or⟩ := List.mem_flatMap.1 mem
  rcases List.mem_pair.1 or with rfl | rfl
  · exact .initializer c
  · exact .blank

/-- The entry point is part of the module. -/
lemma isPart_of_mem_main (given : b.main = .ok es) (mem : e ∈ es) : b.IsPart pools e := by
  rw [main] at given
  split at given
  · cases given
    cases mem
  · obtain ⟨f, main, whole⟩ := Except.exists_of_bind_eq_ok given
    cases whole
    rcases List.mem_pair.1 mem with rfl | rfl
    · exact .main main
    · exact .blank

end Parts

/-- Every entry of a module is made of one of these things. -/
lemma isPart_of_mem (emitted : b.entries.run pools = .ok (es, pools')) (mem : e ∈ es) :
    b.IsPart pools' e := by
  obtain ⟨statics, methods, metadata, main, literals, pools₁, statics', methods', metadata', main',
    literals', eq⟩ := entries_spec emitted
  have declared {c : ClassDef} (mem : c ∈ b.program.sortedClasses) : c ∈ b.program.classes :=
    List.mem_mergeSort.1 mem
  by_cases blank : e = .blank
  · exact blank ▸ .blank
  rw [eq] at mem
  simp only [List.mem_append, List.mem_singleton, List.mem_flatten, List.mem_flatMap,
    List.mem_pair, blank, or_false] at mem
  rcases mem with (((((((((((((heading | prologue) | rfl) | types) | statics) | methods) |
    initializers) | metadata) | arrays) | tables) | rfl) | main) | literals) | sites) | epilogue
  · exact .heading heading
  · exact .prologue prologue
  · exact .headerType
  · obtain ⟨c, memc, mem⟩ := types
    exact .classTypes (declared memc) mem
  · obtain ⟨entries, memes, mem⟩ := statics
    obtain ⟨c, memc, _, _, given⟩ := StateT.exists_of_mem_of_run_mapM_eq_ok statics' memes
    obtain ⟨f, memf, _, _, given⟩ := StateT.exists_of_mem_of_run_mapM_eq_ok given mem
    exact .staticField (declared memc) memf given
  · obtain ⟨entries, memes, mem⟩ := methods
    obtain ⟨c, memc, _, _, given⟩ := StateT.exists_of_mem_of_run_mapM_eq_ok methods' memes
    exact isPart_of_mem_methods (declared memc) given mem
  · exact isPart_of_mem_initializers initializers
  · obtain ⟨c, memc, given⟩ := Except.exists_of_mem_of_mapM_eq_ok metadata' metadata
    exact .metadata (declared memc) given
  · exact .arrayMetadata arrays
  · obtain ⟨c, memc, mem⟩ := tables
    exact .fieldTable (declared memc) mem
  · exact .stackRoots
  · exact isPart_of_mem_main main' main
  · exact .literals literals' literals
  · exact .callSites sites
  · exact .epilogue epilogue

/-- What data under a symbol can be, if it is in a module. -/
def Origin (b : Backend) (e : Entry Label) : Symbol → Prop
  | .field _ _ | .literal _ | .literalChars _ | .handlers _ => True
  | .metadata name => ∃ c ∈ b.program.classes, c.name = name ∧ b.metadata c = .ok e
  | .fieldTable name => ∃ c ∈ b.program.classes, c.name = name ∧ e ∈ b.fieldTable c
  | .arrayMetadata _ => e ∈ b.arrayMetadata
  | .runtime .stackRoots => e = b.stackRoots
  | .runtime .callSites | .runtime .callSiteCount => True
  | _ => False

/-- The data of the literals, and the function that marks them. There is a class for them, with a
field for the characters, if there are any. -/
lemma literals_entries_spec {l : Literals} {p : Program} {className charsField : String}
    (given : l.entries p className charsField = .ok es) :
    ∃ fields charsIndex,
      es = (l.texts.zipIdx.flatMap fun entry =>
          [Literals.charsEntry entry.2 entry.1,
            Literals.objectEntry className fields charsIndex entry.2])
        ++ [Entry.blank, .define (Literals.initFunction l.texts.length)] ∧
      (l.texts ≠ [] → ∃ layout chars, p.layout? className = some layout ∧
        layout.field? charsField = some chars ∧ fields = layout.fields ∧
        charsIndex = chars.index) := by
  rw [Literals.entries] at given
  split at given
  case isTrue empty =>
    cases given
    exact ⟨_, _, rfl, fun some => absurd (List.isEmpty_iff.1 empty) some⟩
  case isFalse =>
    obtain ⟨⟨fields, charsIndex⟩, checked, whole⟩ := Except.exists_of_bind_eq_ok given
    cases whole
    refine ⟨_, _, rfl, fun _ => ?_⟩
    rw [Literals.stringFields] at checked
    split at checked
    case h_1 => cases checked
    case h_2 layout found =>
      split at checked
      case h_1 => cases checked
      case h_2 chars holds =>
        cases checked
        exact ⟨layout, chars, found, holds, rfl, rfl⟩

section Parts

variable {s : Symbol} {c : ClassDef} {f : FieldDef}

/-- The head of a module defines no data. -/
lemma dataSymbol?_heading {settings : Settings} (mem : e ∈ settings.heading) :
    e.dataSymbol? = none := by
  simp only [Settings.heading, List.mem_append, List.mem_cons, Option.mem_toList,
    Option.map_eq_some_iff, List.not_mem_nil, or_false] at mem
  rcases mem with ((((rfl | rfl) | ⟨_, _, rfl⟩) | ⟨_, _, rfl⟩) | rfl) <;> rfl

/-- What the environment provides and needs is no data. -/
lemma dataSymbol?_environment (mem : e ∈ Environment.prologue ∨ e ∈ Environment.epilogue) :
    e.dataSymbol? = none := by
  have none : ∀ e ∈ Environment.prologue ++ Environment.epilogue, e.dataSymbol? = none := by
    intro e mem
    simp only [Environment.prologue, Environment.types, Environment.externals,
      Environment.functions, Environment.epilogue, Numeric.all, List.flatMap_cons,
      List.flatMap_nil, List.cons_append, List.nil_append, List.mem_cons, List.not_mem_nil,
      or_false] at mem
    casesm* _ ∨ _ <;> subst e <;> rfl
  exact none e (List.mem_append.2 mem)

/-- Structure types are no data. -/
lemma dataSymbol?_classTypes (mem : e ∈ b.classTypes c) : e.dataSymbol? = none := by
  rw [classTypes] at mem
  split at mem <;> simp at mem
  · rw [mem]
    rfl
  · rcases mem with rfl | rfl <;> rfl

/-- A static field is data under the symbol of the field. -/
lemma dataSymbol?_staticField (given : (c.staticField f).run pools = .ok (e, pools')) :
    e.dataSymbol? = some (.field c.name f.name) := by
  rw [ClassDef.staticField] at given
  split at given
  · cases given
    rfl
  · split at given
    · obtain ⟨value, pools₁, _, whole⟩ := StateT.exists_of_run_bind_eq_ok given
      cases whole
      rfl
    · cases given

/-- A method is no data. -/
lemma dataSymbol?_method {owner : ClassDef} {m : MethodDef}
    (given : (Lowering.method b owner m).run pools = .ok (some e, pools')) :
    e.dataSymbol? = none := by
  cases Lowering.method_spec given with
  | native => rfl
  | function => rfl

/-- Metadata is data under the symbol of the class. -/
lemma dataSymbol?_metadata (given : b.metadata c = .ok e) :
    e.dataSymbol? = some (.metadata c.name) := by
  rw [metadata] at given
  split at given
  · cases given
    rfl
  · split at given
    · cases given
    · cases given
    · cases given
      rfl

/-- Metadata of arrays is data under the symbol of its kind. -/
lemma exists_dataSymbol?_arrayMetadata (mem : e ∈ b.arrayMetadata) :
    ∃ kind, e.dataSymbol? = some (.arrayMetadata kind) := by
  obtain ⟨kind, _, rfl⟩ := List.mem_map.1 mem
  exact ⟨kind, rfl⟩

/-- A table of field offsets is data under the symbol of the class. -/
lemma dataSymbol?_fieldTable (mem : e ∈ b.fieldTable c) :
    e.dataSymbol? = some (.fieldTable c.name) := by
  rw [fieldTable] at mem
  split at mem
  · cases mem
  · rw [List.mem_singleton.1 mem]
    rfl

/-- Literals are data under their numbers, and one entry of them is none. -/
lemma dataSymbol?_literals {l : Literals} {className charsField : String}
    {entries : List (Entry Label)}
    (given : l.entries b.program className charsField = .ok entries) (mem : e ∈ entries) :
    e.dataSymbol? = none ∨
      ∃ id, e.dataSymbol? = some (.literal id) ∨ e.dataSymbol? = some (.literalChars id) := by
  obtain ⟨fields, charsIndex, rfl, _⟩ := literals_entries_spec given
  rcases List.mem_append.1 mem with mem | mem
  · obtain ⟨entry, _, or⟩ := List.mem_flatMap.1 mem
    rcases List.mem_pair.1 or with rfl | rfl
    · exact .inr ⟨entry.2, .inr rfl⟩
    · exact .inr ⟨entry.2, .inl rfl⟩
  · rcases List.mem_pair.1 mem with rfl | rfl <;> exact .inl rfl

/-- The data of call sites is a table of handlers, or one of the two tables about all sites. -/
lemma dataSymbol?_callSites {t : CallSites} (mem : e ∈ t.entries) :
    (∃ site, e.dataSymbol? = some (.handlers site)) ∨
      e.dataSymbol? = some (.runtime .callSites) ∨
        e.dataSymbol? = some (.runtime .callSiteCount) := by
  rw [CallSites.entries_eq] at mem
  rcases List.mem_append.1 mem with mem | mem
  · obtain ⟨entry, _, mem⟩ := List.mem_flatMap.1 mem
    change e ∈ CallSites.handlerEntries entry.1 entry.2 at mem
    rw [CallSites.handlerEntries] at mem
    split at mem
    · cases mem
    · rw [List.mem_singleton.1 mem]
      exact .inl ⟨entry.2, rfl⟩
  · rcases List.mem_pair.1 mem with rfl | rfl
    · exact .inr (.inl rfl)
    · exact .inr (.inr rfl)

end Parts

/-- Data that is in a module comes from the part that its symbol belongs to. -/
lemma origin_of_mem (emitted : b.entries.run pools = .ok (es, pools')) (mem : e ∈ es) {s : Symbol}
    (data : e.dataSymbol? = some s) : Origin b e s := by
  -- a part either has no data, or all its data is under symbols of one kind
  have absent : e.dataSymbol? = none → Origin b e s := fun none => by
    rw [none] at data
    cases data
  have belongs {s' : Symbol} (data' : e.dataSymbol? = some s') (origin : Origin b e s') :
      Origin b e s := by
    rw [data'] at data
    exact Option.some.inj data ▸ origin
  cases isPart_of_mem emitted mem with
  | blank => exact absent rfl
  | heading mem => exact absent (dataSymbol?_heading mem)
  | prologue mem => exact absent (dataSymbol?_environment (.inl mem))
  | headerType => exact absent rfl
  | classTypes _ mem => exact absent (dataSymbol?_classTypes mem)
  | staticField _ _ given => exact belongs (dataSymbol?_staticField given) trivial
  | method _ _ given => exact absent (dataSymbol?_method given)
  | initializer => exact absent rfl
  | metadata declared given => exact belongs (dataSymbol?_metadata given) ⟨_, declared, rfl, given⟩
  | arrayMetadata mem =>
    obtain ⟨kind, data'⟩ := exists_dataSymbol?_arrayMetadata mem
    exact belongs data' mem
  | fieldTable declared mem => exact belongs (dataSymbol?_fieldTable mem) ⟨_, declared, rfl, mem⟩
  | stackRoots => exact belongs rfl rfl
  | main => exact absent rfl
  | literals given mem =>
    rcases dataSymbol?_literals given mem with none | ⟨id, data' | data'⟩
    · exact absent none
    · exact belongs data' trivial
    · exact belongs data' trivial
  | callSites mem =>
    rcases dataSymbol?_callSites mem with ⟨site, data'⟩ | data' | data'
    · exact belongs data' trivial
    · exact belongs data' trivial
    · exact belongs data' trivial
  | epilogue mem => exact absent (dataSymbol?_environment (.inr mem))

section Members

variable {c : ClassDef}

/-- The metadata of every class is in the module. -/
lemma mem_of_metadata (emitted : b.entries.run pools = .ok (es, pools'))
    (memc : c ∈ b.program.classes) (given : b.metadata c = .ok e) : e ∈ es := by
  obtain ⟨statics, methods, metadata, main, literals, pools₁, _, _, metadata', _, _, eq⟩ :=
    entries_spec emitted
  obtain ⟨e', mem, given'⟩ :=
    Except.exists_mem_of_mapM_eq_ok metadata' (Program.mem_sortedClasses memc)
  obtain rfl := Except.ok.inj (given.symm.trans given')
  rw [eq]
  simp only [List.mem_append, mem, true_or, or_true]

/-- The types of every class are in the module. -/
lemma mem_of_classTypes (emitted : b.entries.run pools = .ok (es, pools'))
    (memc : c ∈ b.program.classes) (mem : e ∈ b.classTypes c) : e ∈ es := by
  obtain ⟨statics, methods, metadata, main, literals, pools₁, _, _, _, _, _, eq⟩ :=
    entries_spec emitted
  have mem : e ∈ b.program.sortedClasses.flatMap b.classTypes :=
    List.mem_flatMap.2 ⟨c, Program.mem_sortedClasses memc, mem⟩
  rw [eq]
  simp only [List.mem_append, mem, true_or, or_true]

/-- The table of every class that has one is in the module. -/
lemma mem_of_fieldTable (emitted : b.entries.run pools = .ok (es, pools'))
    (memc : c ∈ b.program.classes) (mem : e ∈ b.fieldTable c) : e ∈ es := by
  obtain ⟨statics, methods, metadata, main, literals, pools₁, _, _, _, _, _, eq⟩ :=
    entries_spec emitted
  have mem : e ∈ b.program.sortedClasses.flatMap b.fieldTable :=
    List.mem_flatMap.2 ⟨c, Program.mem_sortedClasses memc, mem⟩
  rw [eq]
  simp only [List.mem_append, mem, true_or, or_true]

/-- The table of the static references is in the module. -/
lemma stackRoots_mem (emitted : b.entries.run pools = .ok (es, pools')) : b.stackRoots ∈ es := by
  obtain ⟨statics, methods, metadata, main, literals, pools₁, _, _, _, _, _, eq⟩ :=
    entries_spec emitted
  rw [eq]
  simp only [List.mem_append, List.mem_cons, true_or, or_true]

end Members

/-- A module can be made of the points. -/
lemma exists_entries_points : ∃ b es pools, ofProgram Program.points .default = .ok b ∧
    b.entries.run .empty = .ok (es, pools) := by
  have computed : ((ofProgram Program.points .default).toOption.bind fun b =>
      (b.entries.run .empty).toOption.map fun _ => ()) = some () := by
    cbv
  obtain ⟨b, ⟨es, pools⟩, built, emitted, -⟩ := Except.exists_of_toOption_bind_map computed
  exact ⟨b, es, pools, built, emitted⟩

end Backend

end ObjectBackend
