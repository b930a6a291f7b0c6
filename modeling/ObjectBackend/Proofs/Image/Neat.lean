import ObjectBackend.Proofs.Image.Distinct
import ObjectBackend.Proofs.Image.FunctionTypes
import ObjectBackend.Proofs.Lowering.Neat

/-!
# Neat modules

Every entry of a module is neat, provided that the texts it is headed with stay on their lines, and
all its names are plain. So its text without the lines that are comments in functions is the text of
the entries without these comments (`entries_leavesOut`).
-/

namespace ObjectBackend

open Target Text

namespace Target

/-- A line is not a comment, and its registers have plain names. -/
def Line.IsBare {ℓ σ : Type} (l : Line ℓ σ) : Prop :=
  l.isComment = false ∧ ∀ v ∈ l.values, v.HasPlainRegister

/-- A function has no comments, and its registers have plain names. -/
structure Function.IsBare {ℓ : Type} (f : Function ℓ) : Prop where
  parameters : ∀ o ∈ f.parameters, o.value.HasPlainRegister
  lines : ∀ b ∈ f.blocks, ∀ l ∈ b.lines, l.IsBare

namespace Function.IsBare

variable {ℓ : Type} {f : Function ℓ}

/-- A bare function is neat. -/
lemma isNeat (bare : f.IsBare) : f.IsNeat where
  parameters := bare.parameters
  lines b mem l meml :=
    Line.isNeat_of_values (bare.lines b mem l meml).1 (bare.lines b mem l meml).2

/-- A bare function has no comments to delete. -/
lemma uncommented_eq (bare : f.IsBare) : f.uncommented = f := by
  have block : ∀ b ∈ f.blocks, b.uncommented = b := by
    intro b mem
    have all : b.lines.filter (fun l => !l.isComment) = b.lines :=
      List.filter_eq_self.2 fun l meml => by simp [(bare.lines b mem l meml).1]
    rw [Block.uncommented, all]
  have blocks : f.blocks.map Block.uncommented = f.blocks :=
    (List.map_congr_left block).trans (List.map_id _)
  rw [uncommented, blocks]

end Function.IsBare

/-- A call without arguments for its effect. -/
lemma Line.isBare_call {ℓ σ : Type} (result : IrType) (s : Symbol) :
    (Line.run (.call result (.symbol s) []) : Line ℓ σ).IsBare :=
  ⟨rfl, List.forall_mem_singleton.2 trivial⟩

end Target

section Functions

/-- Initializers are bare. -/
lemma Program.initializer_isBare (p : Program) (c : ClassDef) : (p.initializer c).IsBare := by
  refine ⟨List.forall_mem_nil _, ?_⟩
  have calls {α : Type} (called : Option α) (name : α → Symbol) :
      ∀ l ∈ (called.map fun x => (Line.run (.call .void (.symbol (name x)) []) :
        Line Label Label)).toList, l.IsBare := by
    cases called with
    | none => exact List.forall_mem_nil _
    | some x => exact List.forall_mem_singleton.2 (Line.isBare_call _ _)
  simp only [initializer, List.forall_mem_cons, List.forall_mem_append]
  refine ⟨?test, ⟨⟨⟨?init, calls _ _⟩, calls _ _⟩, ?goOn⟩, ?exit⟩
  all_goals simp [Line.IsBare, Line.isComment, Line.values, Instr.operands, Term.operands]

/-- The entry point is bare. -/
lemma Program.main_isBare {p : Program} {entry : MethodRef} {f : Function Label}
    (given : p.main entry = .ok f) : f.IsBare := by
  rw [main] at given
  split at given
  · cases given
  case h_2 owner m _ =>
    split at given
    · cases given
    cases given
    refine ⟨List.forall_mem_nil _, ?_⟩
    have arguments : ∀ v ∈ (m.signature.parameters.map fun type =>
        Target.Operand.mk (.ofValue type) (.zeroOf (.ofValue type))).map (·.value),
        v.HasPlainRegister := by
      simp
    simp only [List.forall_mem_cons]
    refine ⟨⟨Line.isBare_call _ _, Line.isBare_call _ _, ?run, ?leave⟩, List.forall_mem_nil _⟩
    case run =>
      split
      · exact ⟨rfl, List.forall_mem_cons.2 ⟨trivial, arguments⟩⟩
      · exact ⟨rfl, List.forall_mem_cons.2 ⟨by simp, List.forall_mem_cons.2 ⟨trivial, arguments⟩⟩⟩
    case leave => simp [Line.IsBare, Line.isComment, Line.values, Term.operands, Target.Operand.i32]

/-- The function that marks the literals is bare. -/
lemma Literals.initFunction_isBare (count : Nat) : (initFunction count).IsBare := by
  refine ⟨List.forall_mem_nil _, List.forall_mem_singleton.2 (List.forall_mem_append.2 ⟨?_, ?_⟩)⟩
  · intro l mem
    obtain ⟨id, _, mem⟩ := List.mem_flatMap.1 mem
    rcases List.mem_pair.1 mem with rfl | rfl
    all_goals
      exact ⟨rfl, List.forall_mem_cons.2 ⟨trivial, List.forall_mem_singleton.2 trivial⟩⟩
  · exact List.forall_mem_singleton.2 ⟨rfl, List.forall_mem_nil _⟩

/-- Comparison routines are bare. -/
lemma Environment.comparison_isBare (type : Numeric) : (comparison type).IsBare := by
  have own : ∀ name ∈ ["a", "b", "lt", "gt", "lt.i", "gt.i", "r"],
      (Value.register (.named name)).HasPlainRegister := by
    decide
  simp only [List.forall_mem_cons] at own
  constructor
  · simp [comparison, own]
  · cases type <;>
      simp [comparison, Line.IsBare, Numeric.isFloating, Line.isComment, Line.values,
        Instr.operands, Term.operands, own]

end Functions

section Data

variable {pools pools' : Pools} {b : Backend} {c : ClassDef} {e : Entry Label}
  {es : List (Entry Label)}

/-- Initial values are no registers. -/
lemma hasPlainRegister_of_contents {initial : InitialValue} {type : IrType}
    {f : Pools → Value × Pools} (given : initial.contents? type = some f) :
    (f pools).1.HasPlainRegister := by
  cases initial with
  | int | long | float =>
    rw [InitialValue.contents?] at given
    split at given
    · cases given
      trivial
    · cases given
  | double x =>
    rw [InitialValue.contents?.eq_def] at given
    dsimp only at given
    split at given
    · cases given
      trivial
    · cases given
      trivial
    · cases given
  | string text =>
    rw [InitialValue.contents?] at given
    split at given
    · cases given
      trivial
    · cases given

/-- A static field is neat. -/
lemma ClassDef.staticField_isNeat {f : FieldDef}
    (given : (c.staticField f).run pools = .ok (e, pools')) : e.IsNeat := by
  rw [staticField] at given
  split at given
  · cases given
    exact List.forall_mem_singleton.2 (Value.hasPlainRegister_zeroOf _)
  · split at given
    case h_1 contents found =>
      obtain ⟨v, pools₁, got, whole⟩ := StateT.exists_of_run_bind_eq_ok given
      cases whole
      obtain ⟨rfl, rfl⟩ := Prod.mk.inj (Except.ok.inj got)
      exact List.forall_mem_singleton.2 (hasPlainRegister_of_contents found)
    case h_2 => cases given

/-- The contents of slots are no registers. -/
lemma hasPlainRegister_slotContents (method : Option MethodRef) :
    ∀ v ∈ Constant.typedValues (slotContents method), v.HasPlainRegister := by
  cases method <;> simp [slotContents, Constant.ptr]

/-- A constant uses plain registers if its parts do. -/
lemma hasPlainRegister_record {items : List (IrType × Constant)}
    (each : ∀ item ∈ items, ∀ v ∈ Constant.typedValues item, v.HasPlainRegister) :
    ∀ v ∈ (Constant.record items).values, v.HasPlainRegister := by
  intro v mem
  rw [Constant.values, Constant.valuesOf_eq] at mem
  obtain ⟨item, memi, memv⟩ := List.mem_flatMap.1 mem
  exact each item memi v memv

/-- A sequence has plain registers if its items do. -/
lemma hasPlainRegister_sequence {items : List (IrType × Constant)}
    (each : ∀ item ∈ items, ∀ v ∈ Constant.typedValues item, v.HasPlainRegister) :
    ∀ v ∈ (Constant.sequence items).values, v.HasPlainRegister := hasPlainRegister_record each

/-- A header has plain registers if its size, its parent and its field table do. -/
lemma Header.hasPlainRegister_contents {h : Header} (size : h.size.HasPlainRegister)
    (parent : h.parent.HasPlainRegister) (fieldTable : h.fieldTable.HasPlainRegister) :
    ∀ v ∈ h.contents.values, v.HasPlainRegister := by
  refine hasPlainRegister_record (List.forall_mem_append.2 ⟨?fixed, ?slots⟩)
  case fixed => simp [size, parent, fieldTable, Constant.ptr, Constant.i32, Constant.i64]
  case slots => exact List.forall_mem_map.2 fun method _ => hasPlainRegister_slotContents method

namespace Backend

/-- The metadata of a class with a header and slots of its own. -/
lemma metadata_isNeat (given : b.metadata c = .ok e) : e.IsNeat := by
  have neat {h : Header} {slots : List (Option MethodRef)} (size : h.size.HasPlainRegister)
      (parent : h.parent.HasPlainRegister) (fieldTable : h.fieldTable.HasPlainRegister) :
      Entry.IsNeat (.data (.metadata c.name) .data (.named (.metadata c.name))
        (.record ((.runtime .header, h.contents) :: slots.map slotContents)) : Entry Label) :=
    hasPlainRegister_record (List.forall_mem_cons.2
      ⟨Header.hasPlainRegister_contents size parent fieldTable,
      List.forall_mem_map.2 fun method _ => hasPlainRegister_slotContents method⟩)
  rw [metadata] at given
  split at given
  · cases given
    exact neat trivial trivial trivial
  · split at given
    · cases given
    · cases given
    · cases given
      refine neat trivial ?parent ?fieldTable
      case parent =>
        dsimp only [classHeader]
        cases c.parentName <;> trivial
      case fieldTable =>
        dsimp only [classHeader]
        split <;> trivial

/-- The metadata of arrays is neat. -/
lemma arrayMetadata_isNeat : ∀ e ∈ b.arrayMetadata, e.IsNeat := by
  refine List.forall_mem_map.2 fun kind _ => Header.hasPlainRegister_contents trivial ?_ trivial
  dsimp only
  split <;> trivial

/-- The table of field offsets is neat. -/
lemma fieldTable_isNeat : ∀ e ∈ b.fieldTable c, e.IsNeat := by
  rw [fieldTable]
  split
  · exact List.forall_mem_nil _
  · refine List.forall_mem_singleton.2 (hasPlainRegister_sequence
      (List.forall_mem_map.2 fun f _ => ?_))
    simp [Constant.i32]

/-- The table of static references is neat. -/
lemma stackRoots_isNeat : b.stackRoots.IsNeat := by
  refine hasPlainRegister_record (List.forall_mem_cons.2 ⟨List.forall_mem_singleton.2 trivial,
    List.forall_mem_singleton.2 (hasPlainRegister_sequence ?_)⟩)
  intro item mem
  obtain ⟨c, _, mem⟩ := List.mem_flatMap.1 mem
  obtain ⟨f, _, rfl⟩ := List.mem_map.1 mem
  exact List.forall_mem_singleton.2 trivial

end Backend

namespace Literals

/-- What an object starts with has no registers. -/
lemma hasPlainRegister_objectHeader (metadata : Target.Symbol) :
    ∀ v ∈ Constant.typedValues (objectHeader metadata), v.HasPlainRegister := by
  simp [objectHeader, Constant.ptr, Constant.i32]

/-- The characters of a literal are neat. -/
lemma charsEntry_isNeat (id : Nat) (text : String) : (charsEntry id text).IsNeat := by
  refine hasPlainRegister_record (List.forall_mem_cons.2
    ⟨hasPlainRegister_record (List.forall_mem_cons.2
    ⟨hasPlainRegister_objectHeader _, ?_⟩), List.forall_mem_singleton.2 (hasPlainRegister_sequence
    (List.forall_mem_map.2 fun unit _ => ?_))⟩)
  · simp [Constant.ptr, Constant.i32]
  · exact List.forall_mem_singleton.2 trivial

/-- The object of a literal is neat. -/
lemma objectEntry_isNeat (className : String) (fields : List FieldSlot) (charsIndex id : Nat) :
    (objectEntry className fields charsIndex id).IsNeat := by
  refine hasPlainRegister_record (List.forall_mem_cons.2
    ⟨hasPlainRegister_objectHeader _, List.forall_mem_map.2 fun f _ => ?_⟩)
  rw [fieldContents]
  split
  · exact List.forall_mem_singleton.2 trivial
  · exact List.forall_mem_singleton.2 (Value.hasPlainRegister_zeroOf _)

/-- The entries of the literals are neat. -/
lemma entries_isNeat {l : Literals} {p : Program} {className charsField : String}
    (given : l.entries p className charsField = .ok es) : ∀ e ∈ es, e.IsNeat := by
  obtain ⟨fields, charsIndex, rfl, _⟩ := Backend.literals_entries_spec given
  refine List.forall_mem_append.2 ⟨fun e mem => ?_, List.forall_mem_cons.2
    ⟨trivial, List.forall_mem_singleton.2 (initFunction_isBare _).isNeat⟩⟩
  obtain ⟨⟨text, id⟩, _, mem⟩ := List.mem_flatMap.1 mem
  rcases List.mem_pair.1 mem with rfl | rfl
  · exact charsEntry_isNeat id text
  · exact objectEntry_isNeat className fields charsIndex id

end Literals

namespace CallSites

/-- The tables of handlers are neat. -/
lemma handlerEntries_isNeat (site : CallSite) (id : Nat) :
    ∀ e ∈ handlerEntries site id, e.IsNeat := by
  rw [handlerEntries]
  split
  · exact List.forall_mem_nil _
  · refine List.forall_mem_singleton.2 (hasPlainRegister_sequence
      (List.forall_mem_map.2 fun name _ => ?_))
    cases name <;> exact List.forall_mem_singleton.2 trivial

/-- The cells of a call site have no registers. -/
lemma hasPlainRegister_contents (site : CallSite) (id : Nat) :
    ∀ v ∈ Constant.typedValues (contents site id), v.HasPlainRegister := by
  dsimp only [contents]
  split <;> simp [Constant.ptr, Constant.i32]

/-- The entries of call sites are neat. -/
lemma entries_isNeat (s : CallSites) : ∀ e ∈ s.entries, e.IsNeat := by
  rw [entries_eq]
  refine List.forall_mem_append.2 ⟨fun e mem => ?_, List.forall_mem_cons.2
    ⟨hasPlainRegister_sequence (List.forall_mem_map.2 ?_), List.forall_mem_singleton.2
      (List.forall_mem_singleton.2 trivial)⟩⟩
  · obtain ⟨⟨site, id⟩, _, mem⟩ := List.mem_flatMap.1 mem
    exact handlerEntries_isNeat site id e mem
  · rintro ⟨site, id⟩ _
    exact hasPlainRegister_contents site id

end CallSites

end Data

/-- A name is plain unless its text is given from outside. -/
lemma Target.Name.plain_text {n : Name} (given : n.isGiven = false) : Plain n.text := by
  cases n with
  | symbol s => exact (by decide : Plain "@").append (s.plain_text given)
  | type name => exact (by decide : Plain "%").append (name.plain_text given)
  | verbatim => cases given

section Modules

variable {p : Program} {settings : Settings} {b : Backend} {c : ClassDef} {es : List (Entry Label)}
  {pools pools' : Pools}

/-- The texts that a module is headed with stay on their lines. -/
structure Settings.HasLines (settings : Settings) : Prop where
  moduleName : OneLine settings.moduleName
  targetTriple : ∀ triple ∈ settings.targetTriple, OneLine triple
  dataLayout : ∀ layout ∈ settings.dataLayout, OneLine layout

/-- The head of a module is neat if its texts stay on their lines. -/
lemma Settings.heading_isNeat (lines : settings.HasLines) : ∀ e ∈ settings.heading, e.IsNeat := by
  have listed {given : Option String} {entry : String → Entry Label}
      (each : ∀ text ∈ given, (entry text).IsNeat) :
      ∀ e ∈ (given.map entry).toList, e.IsNeat := by
    cases given with
    | none => exact List.forall_mem_nil _
    | some text => exact List.forall_mem_singleton.2 (each text rfl)
  have start : OneLine "ModuleID = '" := by decide
  have comment := (start.append lines.moduleName).append (t := "'") (by decide)
  simp only [heading, List.forall_mem_append]
  exact ⟨⟨⟨List.forall_mem_cons.2 ⟨comment, List.forall_mem_singleton.2 lines.moduleName⟩,
    listed lines.dataLayout⟩, listed lines.targetTriple⟩, List.forall_mem_singleton.2 trivial⟩

/-- The prologue of the environment is neat. -/
lemma Environment.prologue_isNeat : ∀ e ∈ Environment.prologue, e.IsNeat := by
  have comment : OneLine "Runtime object model" := by decide
  simp [prologue, types, externals, functions, Entry.IsNeat, comment]

/-- The epilogue of the environment is neat. -/
lemma Environment.epilogue_isNeat : ∀ e ∈ Environment.epilogue, e.IsNeat := by
  have comment : OneLine "Three-way comparisons" := by decide
  refine List.forall_mem_append.2 ⟨List.forall_mem_singleton.2 comment, fun e mem => ?_⟩
  obtain ⟨type, _, mem⟩ := List.mem_flatMap.1 mem
  rcases List.mem_pair.1 mem with rfl | rfl
  · trivial
  · exact (comparison_isBare type).isNeat

namespace Backend

/-- Functions that are not methods are bare. -/
lemma IsAuxiliary.isBare {f : Function Label} (auxiliary : b.IsAuxiliary f) : f.IsBare := by
  cases auxiliary with
  | initializer c => exact b.program.initializer_isBare c
  | main given => exact Program.main_isBare given
  | literals count => exact Literals.initFunction_isBare count
  | comparison type => exact Environment.comparison_isBare type

/-- Structure types are neat. -/
lemma isNeat_of_mem_classTypes (mem : e ∈ b.classTypes c) : e.IsNeat := by
  rw [classTypes] at mem
  split at mem
  · rw [List.mem_singleton.1 mem]
    trivial
  · rcases List.mem_pair.1 mem with rfl | rfl <;> trivial

/-- What a method is lowered to is neat. -/
lemma isNeat_of_method {m : MethodDef}
    (given : (Lowering.method b c m).run pools = .ok (some e, pools')) : e.IsNeat := by
  cases Lowering.method_spec given with
  | native => trivial
  | function _ _ _ lowered => exact Lowering.function_isNeat lowered

/-- Every entry of a module is neat. -/
lemma entries_isNeat (lines : b.settings.HasLines)
    (emitted : b.entries.run pools = .ok (es, pools')) : ∀ e ∈ es, e.IsNeat := by
  intro e mem
  cases isPart_of_mem emitted mem with
  | blank | headerType => trivial
  | heading mem => exact Settings.heading_isNeat lines e mem
  | prologue mem => exact Environment.prologue_isNeat e mem
  | classTypes _ mem => exact isNeat_of_mem_classTypes mem
  | staticField _ _ given => exact ClassDef.staticField_isNeat given
  | method _ _ given => exact isNeat_of_method given
  | initializer c => exact (b.program.initializer_isBare c).isNeat
  | metadata _ given => exact metadata_isNeat given
  | arrayMetadata mem => exact arrayMetadata_isNeat e mem
  | fieldTable _ mem => exact fieldTable_isNeat e mem
  | stackRoots => exact stackRoots_isNeat
  | main given => exact (Program.main_isBare given).isNeat
  | literals given mem => exact Literals.entries_isNeat given e mem
  | callSites mem => exact pools'.sites.entries_isNeat e mem
  | epilogue mem => exact Environment.epilogue_isNeat e mem

/-- Every name of a module is plain, at its definition and wherever it is referred to. -/
lemma plain_names (built : ofProgram p settings = .ok b)
    (emitted : b.entries.run .empty = .ok (es, pools)) {n : Name}
    (mem : e ∈ es) (has : e.name? = some n ∨ n ∈ e.names) : Plain n.text := by
  have defined (mem : n ∈ (b.definitions pools).flatten) : n.isGiven = false := by
    obtain ⟨part, memPart, mem⟩ := List.mem_flatten.1 mem
    obtain ⟨i, memi, place⟩ := (place_definitions b pools).flip.exists_of_mem memPart
    exact Name.isGiven_of_place_lt (place n mem ▸ List.mem_range.1 memi)
  have made := entries_made built emitted
  have given : n.isGiven = false := by
    rcases has with name | refers
    · refine defined (made.names ▸ List.mem_filterMap.2 ⟨e, mem, name⟩)
    · rcases made.refers e mem n refers with provided | ⟨_, c, _, m, _, _, rfl⟩
      · exact defined provided
      · rfl
  exact n.plain_text given

/-- The text of a module without the lines that are comments in functions is the text of its entries
without these comments. -/
theorem entries_leavesOut (lines : b.settings.HasLines) (built : ofProgram p settings = .ok b)
    (emitted : b.entries.run .empty = .ok (es, pools)) :
    LeavesOut startsComment (moduleText es) (moduleText (es.map Entry.uncommented)) := by
  rw [moduleText, moduleText, List.map_map]
  exact .join fun e mem => Entry.leavesOut (entries_isNeat lines emitted e mem)
    (fun n memn => plain_names built emitted mem (.inr memn))
    fun n name => plain_names built emitted mem (.inl name)

end Backend

end Modules

end ObjectBackend
