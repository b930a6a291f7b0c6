import Mathlib.Data.List.Pairwise
import ObjectBackend.Proofs.Image.Distinct
import ObjectBackend.Proofs.Image.Tags
import ObjectBackend.Proofs.Objects.Layout
import ObjectBackend.Proofs.Target.Typing

/-!
# The shapes of constants

The types of a module and its data are made in different places, from the same tables. The constant
of every piece of data fits the type that it is given with (`Constant.Fits`): a structure has a cell
for each field of its type, an array as many items as its type says, and a scalar is a value of its
type. Each structure type is defined once, so it does not matter which definition a constant is
compared with (`Backend.constants_fit_types`).
-/

namespace List

variable {α β : Type} {g : α → Option β} {xs : List α} {x y : α} {a : β}

/-- What only one element of a list gives tells which one it is. -/
lemma eq_of_nodup_filterMap (nodup : (xs.filterMap g).Nodup) (memx : x ∈ xs) (memy : y ∈ xs)
    (givesx : g x = some a) (givesy : g y = some a) : x = y := by
  by_contra other
  have apart : xs.Pairwise fun x y => ∀ a, g x = some a → ∀ a', g y = some a' → a ≠ a' :=
    pairwise_filterMap.1 nodup
  have symm : Std.Symm fun x y => ∀ a, g x = some a → ∀ a', g y = some a' → a ≠ a' :=
    ⟨fun _ _ differ a given a' given' => (differ a' given' a given).symm⟩
  exact apart.forall memx memy other a givesx a givesy rfl

end List

namespace ObjectBackend

open Target

namespace Target

/-- A constant has the shape of its type, given the fields of structure types. -/
inductive Constant.Fits (defines : TypeName → List IrType → Prop) : IrType × Constant → Prop where
  | value {type : IrType} {v : Value} :
    type.IsScalar →
    v.HasType (fun _ _ => False) type →
    Fits defines (type, .value v)
  | named {name : TypeName} {cells : List (IrType × Constant)} :
    defines name (cells.map (·.1)) →
    (∀ cell ∈ cells, Fits defines cell) →
    Fits defines (.named name, .record cells)
  | struct {cells : List (IrType × Constant)} :
    (∀ cell ∈ cells, Fits defines cell) →
    Fits defines (.struct (cells.map (·.1)), .record cells)
  | sequence {type : IrType} {items : List (IrType × Constant)} :
    (∀ item ∈ items, item.1 = type) →
    (∀ item ∈ items, Fits defines item) →
    Fits defines (.array items.length type, .sequence items)

/-- The data of an entry, if it is data, has the shape of its type. -/
def Entry.Fits (defines : TypeName → List IrType → Prop) : Entry Label → Prop
  | .data _ _ type contents => Constant.Fits defines (type, contents)
  | _ => True

/-- Whether a name is that of a type. -/
def Name.isType : Name → Bool
  | .type _ => true
  | _ => false

/-- A name of the middle parts of a module is not that of a type. -/
lemma Name.isType_eq_false {n : Name} (low : 3 ≤ n.place) (high : n.place < 16) :
    ¬n.isType = true := by
  cases n with
  | type name =>
    cases name with
    | runtime type => cases type <;> simp [Name.place] at low
    | instances | metadata => simp [Name.place] at low
    | named => exact absurd high (Nat.lt_irrefl 16)
  | symbol | verbatim => exact Bool.false_ne_true

variable {defines : TypeName → List IrType → Prop} {v : Value} {n : Int}

/-- An entry that defines no data fits. -/
lemma Entry.Fits.of_dataSymbol? {e : Entry Label} (none : e.dataSymbol? = none) :
    e.Fits defines := by
  cases e with
  | data => cases none
  | _ => trivial

namespace Constant.Fits

/-- The cells of a structure that is written down, one after the other. -/
lemma nil : ∀ cell ∈ ([] : List (IrType × Constant)), Fits defines cell := List.forall_mem_nil _

/-- A record fits if its first cell and the others do. -/
lemma cons {cell : IrType × Constant} {cells : List (IrType × Constant)}
    (first : Fits defines cell) (others : ∀ cell ∈ cells, Fits defines cell) :
    ∀ cell' ∈ cell :: cells, Fits defines cell' := List.forall_mem_cons.2 ⟨first, others⟩

/-- A cell of an address fits if its value is an address. -/
lemma ptr (hasType : v.HasType (fun _ _ => False) .ptr) : Fits defines (Constant.ptr v) :=
  .value (by decide) hasType

/-- A cell of a word fits if its value is a word. -/
lemma i32 (hasType : v.HasType (fun _ _ => False) .i32) : Fits defines (Constant.i32 v) :=
  .value (by decide) hasType

/-- A cell of a word that is a number fits. -/
lemma i32_int (n : Int) : Fits defines (Constant.i32 (.int n)) := .i32 (.int rfl)

/-- A cell of a long word that is a number fits. -/
lemma i64_int (n : Int) : Fits defines (Constant.i64 (.int n)) := .value (by decide) (.int rfl)

/-- A cell of the address of a symbol fits. -/
lemma symbol (s : Symbol) : Fits defines (Constant.ptr (.symbol s)) := .ptr .symbol

/-- A cell of the null address fits. -/
lemma null : Fits defines (Constant.ptr .null) := .ptr .null

/-- Items that are made in the same way are an array. -/
lemma map {α : Type} {type : IrType} {f : α → IrType × Constant} {xs : List α}
    (types : ∀ x ∈ xs, (f x).1 = type) (fits : ∀ x ∈ xs, Fits defines (f x)) :
    Fits defines (.array xs.length type, .sequence (xs.map f)) := by
  have array := sequence (List.forall_mem_map.2 types) (List.forall_mem_map.2 fits)
  rwa [List.length_map] at array

end Constant.Fits

end Target

/-- The fields of a header that has some slots for methods of interfaces. -/
def headerFields (slots : Nat) : List IrType :=
  [.i32, .i32, .i32, .i32, .runtime .fields] ++ List.replicate slots .ptr

/-- The structure types that are the same in all modules. -/
structure Target.HasRuntimeTypes (defines : TypeName → List IrType → Prop) (slots : Nat) :
    Prop where
  environment : ∀ name fields, .typeDef name fields ∈ Environment.types → defines name fields
  header : defines (.runtime .header) (headerFields slots)

section Values

variable {defines : TypeName → List IrType → Prop} {type : ValueType}

/-- Values are stored as scalars. -/
lemma isScalar_storage (nonvoid : type ≠ .void) : (IrType.storage type).IsScalar := by
  cases type with
  | void => exact absurd rfl nonvoid
  | primitive type => cases type <;> decide
  | object | array => exact rfl

/-- References are stored as addresses. -/
lemma storage_of_isReference (reference : type.isReference = true) :
    IrType.storage type = .ptr := by
  cases type with
  | object | array => rfl
  | void | primitive => cases reference

/-- What a field starts with is a value of its type. -/
lemma InitialValue.contents?_hasType {initial : InitialValue} {type : IrType}
    {contents : Pools → Value × Pools} (found : initial.contents? type = some contents)
    (pools : Pools) : (contents pools).1.HasType (fun _ _ => False) type := by
  cases initial with
  | int n | long n =>
    rw [InitialValue.contents?] at found
    split at found
    case isTrue integer =>
      obtain rfl := Option.some.inj found
      exact .int integer
    case isFalse => cases found
  | float x =>
    rw [InitialValue.contents?] at found
    split at found
    case isTrue floating =>
      obtain rfl := Option.some.inj found
      exact .real floating
    case isFalse => cases found
  | double x =>
    cases type with
    | float | double =>
      obtain rfl := Option.some.inj found
      exact .real rfl
    | _ => cases found
  | string text =>
    rw [InitialValue.contents?] at found
    split at found
    case isTrue pointer =>
      obtain rfl := Option.some.inj found
      rw [pointer]
      exact .symbol
    case isFalse => cases found

end Values

namespace Backend

open Constant.Fits (cons nil)

variable {p : Program} {settings : Settings} {b : Backend} {es : List (Entry Label)}
  {e : Entry Label} {pools pools' : Pools} {c : ClassDef} {slots : Nat}
  {defines : TypeName → List IrType → Prop}

section Metadata

/-- The cell of a slot fits, whether a method fills it or not. -/
lemma slotContents_fits (method : Option MethodRef) :
    Constant.Fits defines (slotContents method) := by
  cases method with
  | none => exact .null
  | some m => exact .symbol (.method m)

/-- The cells of a header. -/
def headerCells (h : Header) : List (IrType × Constant) :=
  [Constant.i32 h.size, Constant.i32 (.int 0), Constant.i32 (.int h.lower),
      Constant.i32 (.int h.upper),
      (.runtime .fields,
        .record
          [Constant.ptr h.parent, Constant.i64 (.int h.fieldCount), Constant.ptr h.fieldTable])]
    ++ h.slots.map slotContents

/-- The cells of a header have the types of the fields of one with as many slots. -/
lemma map_fst_headerCells (h : Header) :
    (headerCells h).map (·.1) = headerFields h.slots.length := by
  rw [headerCells, List.map_append, List.map_map, headerFields, ← List.map_const']
  rfl

/-- A header fits its type if it has as many slots and says what a header can say. -/
lemma header_fits (types : HasRuntimeTypes defines slots) {h : Header}
    (size : h.size.HasType (fun _ _ => False) .i32)
    (parent : h.parent.HasType (fun _ _ => False) .ptr)
    (table : h.fieldTable.HasType (fun _ _ => False) .ptr) (length : h.slots.length = slots) :
    Constant.Fits defines (.runtime .header, h.contents) := by
  have declared : defines (.runtime .header) ((headerCells h).map (·.1)) := by
    rw [map_fst_headerCells, length]
    exact types.header
  have fields : Constant.Fits defines (.runtime .fields, .record
      [Constant.ptr h.parent, Constant.i64 (.int h.fieldCount), Constant.ptr h.fieldTable]) := by
    refine .named (types.environment _ [.ptr, .i64, .ptr] (by simp [Environment.types])) ?_
    exact cons (.ptr parent) (cons (.i64_int _) (cons (.ptr table) nil))
  refine .named declared (List.forall_mem_append.2
    ⟨?_, List.forall_mem_map.2 fun m _ => slotContents_fits m⟩)
  exact cons (.i32 size) (cons (.i32_int 0) (cons (.i32_int _) (cons (.i32_int _)
    (cons fields nil))))

/-- A symbol that may be missing is an address either way. -/
lemma symbol_or_null {condition : Prop} [Decidable condition] (s : Symbol) :
    (if condition then Value.null else .symbol s).HasType (fun _ _ => False) .ptr ∧
      (if condition then Value.symbol s else .null).HasType (fun _ _ => False) .ptr := by
  split
  · exact ⟨.null, .symbol⟩
  · exact ⟨.symbol, .null⟩

/-- The metadata of a class is a header that fits its type, and a method for each slot of its own.
-/
lemma metadata_spec (types : HasRuntimeTypes defines b.tables.interfaceTable.length)
    (given : b.metadata c = .ok e) :
    ∃ (h : Header) (own : List (Option MethodRef)),
      e = .data (.metadata c.name) .data (.named (.metadata c.name))
        (.record ((.runtime .header, .record (headerCells h)) :: own.map slotContents)) ∧
      h.slots.length = b.tables.interfaceTable.length ∧
      Constant.Fits defines (.runtime .header, .record (headerCells h)) ∧
      .typeDef (.metadata c.name) (.runtime .header :: List.replicate own.length .ptr) ∈
        b.classTypes c := by
  rw [metadata] at given
  split at given
  case isTrue interface =>
    cases given
    have length : b.interfaceHeader.slots.length = b.tables.interfaceTable.length :=
      List.length_map _
    refine ⟨b.interfaceHeader, [], rfl, length, header_fits types (.int rfl) .null .null length, ?_⟩
    rw [classTypes, if_pos interface]
    exact List.mem_singleton_self _
  case isFalse isClass =>
    split at given
    · cases given
    · cases given
    case h_3 range layout _ _ =>
      cases given
      have length : (b.classHeader c range layout).slots.length =
          b.tables.interfaceTable.length := List.length_map _
      refine ⟨b.classHeader c range layout, b.ownSlots c.name, rfl, length,
        header_fits types .offset ?_ (symbol_or_null _).1 length, ?_⟩
      · change (c.parentName.elim Value.null fun name => .symbol (.metadata name)).HasType _ _
        cases c.parentName with
        | none => exact .null
        | some => exact .symbol
      · rw [classTypes, if_neg isClass, ownSlots, List.length_map, ← List.map_const']
        exact List.mem_cons_of_mem _ (List.mem_singleton_self _)

/-- The metadata of a class fits its structure type. -/
lemma metadata_fits (types : HasRuntimeTypes defines b.tables.interfaceTable.length)
    (classes : ∀ name fields, .typeDef name fields ∈ b.classTypes c → defines name fields)
    (given : b.metadata c = .ok e) : e.Fits defines := by
  obtain ⟨h, own, rfl, _, fits, defined⟩ := metadata_spec types given
  refine .named ?_ (cons fits (List.forall_mem_map.2 fun m _ => slotContents_fits m))
  rw [List.map_cons, List.map_map]
  have pointers : own.map ((·.1) ∘ slotContents) = List.replicate own.length .ptr := List.map_const'
  exact pointers ▸ classes _ _ defined

/-- The metadata of arrays fits the header type. -/
lemma arrayMetadata_fits (types : HasRuntimeTypes defines b.tables.interfaceTable.length)
    (mem : e ∈ b.arrayMetadata) : e.Fits defines := by
  obtain ⟨kind, _, rfl⟩ := List.mem_map.1 mem
  exact header_fits types (.int rfl) (symbol_or_null _).2 .null (List.length_map _)

/-- The table of the field offsets of a class fits its array type. -/
lemma fieldTable_fits (mem : e ∈ b.fieldTable c) : e.Fits defines := by
  rw [fieldTable] at mem
  split at mem
  · cases mem
  · rw [List.mem_singleton.1 mem, List.length_map]
    exact .map (fun _ _ => rfl) fun _ _ => .i32 .offset

/-- The table of static references fits its type. -/
lemma stackRoots_fits : b.stackRoots.Fits defines := by
  have reference : ∀ root ∈ b.staticReferences, ∃ s, root = Constant.ptr (.symbol s) := by
    intro root mem
    obtain ⟨c, _, mem⟩ := List.mem_flatMap.1 mem
    obtain ⟨f, _, rfl⟩ := List.mem_map.1 mem
    exact ⟨_, rfl⟩
  have table : Constant.Fits defines
      (.array b.staticReferences.length .ptr, .sequence b.staticReferences) := by
    refine .sequence (fun root mem => ?_) fun root mem => ?_
    · obtain ⟨s, rfl⟩ := reference root mem
      rfl
    · obtain ⟨s, rfl⟩ := reference root mem
      exact .symbol s
  exact .struct (cons (.i64_int _) (cons table nil))

/-- The metadata of each kind of array is emitted with the slots of the interfaces. -/
lemma exists_arrayMetadata (b : Backend) (kind : ElementKind) :
    ∃ h : Header, .data (.arrayMetadata kind) .data (.runtime .header) (.record (headerCells h)) ∈
        b.arrayMetadata ∧
      h.slots.length = b.tables.interfaceTable.length :=
  ⟨_, List.mem_map.2 ⟨kind, by cases kind <;> decide, rfl⟩, List.length_map _⟩

/-- The type of the instances of a class has the fields of its layout. -/
lemma defines_instances {name : String} {layout : ObjectLayout} (named : c.name = name)
    (isClass : c.isInterface = false) (found : b.program.layout? name = some layout) :
    .typeDef (.instances name) (.runtime .object :: layout.fields.map fun f => .storage f.type) ∈
      b.classTypes c := by
  subst named
  rw [classTypes, isClass, instanceFields, found]
  exact List.mem_cons_self ..

end Metadata

section Others

variable {f : FieldDef}

/-- The initial constant of a static field fits the type it is stored as. -/
lemma staticField_fits (nonvoid : f.type ≠ .void)
    (given : (c.staticField f).run pools = .ok (e, pools')) : e.Fits defines := by
  have scalar := isScalar_storage nonvoid
  rw [ClassDef.staticField] at given
  split at given
  case h_1 =>
    cases given
    exact .value scalar (.zeroOf _)
  case h_2 =>
    split at given
    case h_1 contents found =>
      obtain ⟨v, pools₁, got, whole⟩ := StateT.exists_of_run_bind_eq_ok given
      cases whole
      obtain ⟨rfl, _⟩ := Prod.mk.inj (Except.ok.inj got)
      exact .value scalar (InitialValue.contents?_hasType found pools)
    case h_2 => cases given

/-- What an object starts with fits the type of objects. -/
lemma objectHeader_fits (types : HasRuntimeTypes defines slots) (metadata : Symbol) :
    Constant.Fits defines (Literals.objectHeader metadata) := by
  refine .named (types.environment _ [.ptr, .i32] (by simp [Environment.types])) ?_
  exact cons (.symbol metadata) (cons (.i32_int 0) nil)

/-- The array of the characters of a literal fits its type. -/
lemma charsEntry_fits (types : HasRuntimeTypes defines slots) (id : Nat) (text : String) :
    (Literals.charsEntry id text).Fits defines := by
  have header : Constant.Fits defines (.runtime .array, .record
      [Literals.objectHeader (.arrayMetadata .char),
        Constant.i32 (.int (Text.unitsOf text).length), Constant.ptr .null]) := by
    refine .named (types.environment _ [.runtime .object, .i32, .ptr]
      (by simp [Environment.types])) ?_
    exact cons (objectHeader_fits types _) (cons (.i32_int _) (cons .null nil))
  have units : Constant.Fits defines (.array (Text.unitsOf text).length .i16,
      .sequence ((Text.unitsOf text).map fun unit : Nat => (.i16, .value (.int unit)))) :=
    .map (fun _ _ => rfl) fun _ _ => .value (by decide) (.int rfl)
  exact .struct (cons header (cons units nil))

/-- A literal is an object of its class if the field for the characters is a reference. -/
lemma objectEntry_fits (types : HasRuntimeTypes defines slots) {className : String}
    {fields : List FieldSlot} {charsIndex : Nat} (id : Nat)
    (defined : defines (.instances className)
      (.runtime .object :: fields.map fun f => .storage f.type))
    (nonvoid : ∀ f ∈ fields, f.type ≠ .void)
    (chars : ∀ f ∈ fields, f.index = charsIndex → f.type.isReference = true) :
    (Literals.objectEntry className fields charsIndex id).Fits defines := by
  have types' : (fields.map (Literals.fieldContents id charsIndex)).map (·.1) =
      fields.map fun f => .storage f.type := by
    rw [List.map_map]
    refine List.map_congr_left fun f _ => ?_
    dsimp only [Function.comp, Literals.fieldContents]
    split <;> rfl
  refine .named ?_ (cons (objectHeader_fits types _) (List.forall_mem_map.2 fun f mem => ?_))
  · rw [List.map_cons, types']
    exact defined
  · rw [Literals.fieldContents]
    split
    case isTrue index =>
      rw [storage_of_isReference (chars f mem index)]
      exact .symbol _
    case isFalse => exact .value (isScalar_storage (nonvoid f mem)) (.zeroOf _)

/-- The tables of call sites fit their types. -/
lemma callSites_fits (types : HasRuntimeTypes defines slots) {t : CallSites} (mem : e ∈ t.entries) :
    e.Fits defines := by
  rw [CallSites.entries_eq] at mem
  rcases List.mem_append.1 mem with mem | mem
  · obtain ⟨⟨site, id⟩, _, mem⟩ := List.mem_flatMap.1 mem
    dsimp only [CallSites.handlerEntries] at mem
    split at mem
    · cases mem
    · rw [List.mem_singleton.1 mem]
      refine .map (fun _ _ => rfl) fun handled _ => .ptr ?_
      cases handled with
      | none => exact .null
      | some => exact .symbol
  · rcases List.mem_pair.1 mem with rfl | rfl
    · have contents (entry : CallSite × Nat) :
          Constant.Fits defines (CallSites.contents entry.1 entry.2) := by
        refine .named (types.environment _ [.i32, .i32, .ptr] (by simp [Environment.types])) ?_
        exact cons (.i32_int _) (cons (.i32_int _) (cons (.ptr (symbol_or_null _).1) nil))
      have table : Constant.Fits defines
          (.array t.sites.zipIdx.length (.runtime .callSite),
            .sequence (t.sites.zipIdx.map fun entry => CallSites.contents entry.1 entry.2)) :=
        .map (fun _ _ => rfl) fun entry _ => contents entry
      rwa [List.length_zipIdx] at table
    · exact .i32_int _

end Others

section Module

/-- The fields of a layout are declared by classes, so none of them is void. -/
lemma type_ne_void_of_mem_slots {name : String}
    (nonvoid : ∀ c ∈ p.classes, ∀ f ∈ c.fields, f.type ≠ .void) :
    ∀ f ∈ p.slots name, f.type ≠ .void := by
  intro f mem
  obtain ⟨c, up, g, memg, eq⟩ := Program.exists_of_mem_slots mem
  have type : f.type = g.type := congrArg (·.2.2) eq
  exact type ▸ nonvoid c (Program.mem_of_mem_ancestors up) g (List.mem_of_mem_filter memg)

/-- The literals are objects of the string class and arrays of characters. -/
lemma literals_fit (types : HasRuntimeTypes defines slots) {l : Literals}
    {className charsField : String}
    (classes : ∀ c ∈ b.program.classes, ∀ name fields, .typeDef name fields ∈ b.classTypes c →
      defines name fields)
    (nonvoid : ∀ c ∈ b.program.classes, ∀ f ∈ c.fields, f.type ≠ .void)
    (chars : ∀ slot, b.program.fieldSlot? ⟨className, charsField⟩ = some slot →
      slot.type.isReference = true)
    (given : l.entries b.program className charsField = .ok es) : ∀ e ∈ es, e.Fits defines := by
  obtain ⟨fields, charsIndex, rfl, described⟩ := literals_entries_spec given
  refine List.forall_mem_append.2 ⟨fun e mem => ?_,
    List.forall_mem_cons.2 ⟨trivial, List.forall_mem_singleton.2 trivial⟩⟩
  obtain ⟨⟨text, id⟩, listed, mem⟩ := List.mem_flatMap.1 mem
  obtain ⟨layout, slot, found, holds, rfl, rfl⟩ :=
    described (List.ne_nil_of_mem (List.fst_mem_of_mem_zipIdx listed))
  have isSlot : b.program.fieldSlot? ⟨className, charsField⟩ = some slot := by
    rw [Program.fieldSlot?, found]
    exact holds
  obtain ⟨c, concrete, named, placed⟩ := Program.exists_of_layout? found
  obtain ⟨memc, isClass⟩ := Program.mem_concreteClasses.1 concrete
  have defined := classes c memc _ _ (defines_instances named isClass found)
  have listed : slot ∈ layout.fields := List.mem_reverse.1 (List.mem_of_find?_eq_some holds)
  have index : ∀ f ∈ layout.fields, f.index = slot.index → f.type.isReference = true := by
    intro f mem same
    rw [placed] at mem listed
    obtain rfl := ObjectLayout.eq_of_index_eq mem listed same
    exact chars f isSlot
  have fields : ∀ f ∈ layout.fields, f.type ≠ .void := placed ▸ type_ne_void_of_mem_slots nonvoid
  rcases List.mem_pair.1 mem with rfl | rfl
  · exact charsEntry_fits types id text
  · exact objectEntry_fits types id defined fields index

/-- No structure type is defined twice. -/
lemma nodup_types (built : ofProgram p settings = .ok b)
    (emitted : b.entries.run .empty = .ok (es, pools)) :
    (es.filterMap fun e => e.name?.filter Name.isType).Nodup := by
  have places := place_definitions b pools
  have split : b.definitions pools =
      (b.definitions pools).take 3 ++ (b.definitions pools).drop 3 :=
    (List.take_append_drop ..).symm
  -- the first three parts define types, and the others do not
  have first : ((b.definitions pools).take 3).flatten.Nodup := by
    have parts : ∀ part ∈ [Environment.names, [.type (.runtime .header)],
        b.program.sortedClasses.flatMap ClassDef.typeNames], part.Nodup := by
      refine List.forall_mem_cons.2 ⟨by decide, List.forall_mem_cons.2 ⟨List.nodup_singleton _,
        List.forall_mem_singleton.2 ?_⟩⟩
      exact (nodup_flatMap_iff owner?_typeNames).2 fun c _ => nodup_typeNames c
    have distinct : ((List.range 16).take 3).Nodup := by decide
    exact List.nodup_flatten.2 ⟨parts, (List.forall₂_take 3 places).pairwise_disjoint distinct⟩
  have others : ((b.definitions pools).drop 3).flatten.filter Name.isType = [] := by
    refine List.filter_eq_nil_iff.2 fun n mem isType => ?_
    obtain ⟨part, mem, memn⟩ := List.mem_flatten.1 mem
    obtain ⟨i, memi, place⟩ := (List.forall₂_drop 3 places).flip.exists_of_mem mem
    have bounds : ∀ i ∈ (List.range 16).drop 3, 3 ≤ i ∧ i < 16 := by decide
    have between : 3 ≤ n.place ∧ n.place < 16 := place n memn ▸ bounds i memi
    exact absurd isType (Name.isType_eq_false between.1 between.2)
  rw [← List.filter_filterMap, (entries_made built emitted).names, split, List.flatten_append,
    List.filter_append, others, List.append_nil]
  exact first.filter _

/-- The structure types of the environment and of headers are in the module. -/
lemma hasRuntimeTypes (emitted : b.entries.run pools = .ok (es, pools')) :
    HasRuntimeTypes (fun name fields => .typeDef name fields ∈ es)
      b.tables.interfaceTable.length := by
  obtain ⟨_, _, _, _, _, _, _, _, _, _, _, eq⟩ := entries_spec emitted
  constructor
  · intro name fields mem
    have prologue : .typeDef name fields ∈ Environment.prologue := by
      simp only [Environment.prologue, List.mem_append, mem, true_or, or_true]
    rw [eq]
    simp only [List.mem_append, prologue, true_or, or_true]
  · change b.headerType ∈ es
    rw [eq]
    simp only [List.mem_append, List.mem_singleton, true_or, or_true]

/-- Data that is in a module fits the type that it is given with. -/
lemma fits_of_mem (emitted : b.entries.run pools = .ok (es, pools'))
    (nonvoid : ∀ c ∈ b.program.classes, ∀ f ∈ c.fields, f.type ≠ .void)
    (chars : ∀ slot, b.program.fieldSlot? ⟨b.settings.stringClass, b.settings.charsField⟩ =
      some slot → slot.type.isReference = true) :
    ∀ e ∈ es, e.Fits fun name fields => .typeDef name fields ∈ es := by
  have types := hasRuntimeTypes emitted
  have classes : ∀ c ∈ b.program.classes, ∀ name fields, .typeDef name fields ∈ b.classTypes c →
      .typeDef name fields ∈ es := fun c memc name fields mem => mem_of_classTypes emitted memc mem
  intro e mem
  cases isPart_of_mem emitted mem with
  | blank | headerType | initializer | main => trivial
  | heading mem => exact .of_dataSymbol? (dataSymbol?_heading mem)
  | prologue mem => exact .of_dataSymbol? (dataSymbol?_environment (.inl mem))
  | classTypes _ mem => exact .of_dataSymbol? (dataSymbol?_classTypes mem)
  | staticField declared mem given =>
    exact staticField_fits (nonvoid _ declared _ (List.mem_of_mem_filter mem)) given
  | method _ _ given => exact .of_dataSymbol? (dataSymbol?_method given)
  | metadata declared given => exact metadata_fits types (classes _ declared) given
  | arrayMetadata mem => exact arrayMetadata_fits types mem
  | fieldTable _ mem => exact fieldTable_fits mem
  | stackRoots => exact stackRoots_fits
  | literals given mem => exact literals_fit types classes nonvoid chars given e mem
  | callSites mem => exact callSites_fits types mem
  | epilogue mem => exact .of_dataSymbol? (dataSymbol?_environment (.inr mem))

/-- The metadata of arrays is among the entries of the module. -/
lemma mem_of_arrayMetadata (emitted : b.entries.run pools = .ok (es, pools'))
    (mem : e ∈ b.arrayMetadata) : e ∈ es := by
  obtain ⟨_, _, _, _, _, _, _, _, _, _, _, eq⟩ := entries_spec emitted
  rw [eq]
  simp only [List.mem_append, mem, true_or, or_true]

/-- Every literal is in the module, as an object of the string class. -/
lemma exists_literal (emitted : b.entries.run pools = .ok (es, pools')) {id : Nat}
    (lt : id < pools'.literals.texts.length) :
    ∃ layout, b.program.layout? b.settings.stringClass = some layout ∧ ∃ cells,
      .data (.literal id) .privateData (.named (.instances b.settings.stringClass))
        (.record cells) ∈ es := by
  obtain ⟨_, _, _, _, literals, _, _, _, _, _, given, eq⟩ := entries_spec emitted
  obtain ⟨fields, charsIndex, rfl, described⟩ := literals_entries_spec given
  obtain ⟨layout, slot, found, _, rfl, rfl⟩ :=
    described (List.ne_nil_of_length_pos (Nat.zero_lt_of_lt lt))
  have mem : Literals.objectEntry b.settings.stringClass layout.fields slot.index id ∈
      pools'.literals.texts.zipIdx.flatMap fun entry => [Literals.charsEntry entry.2 entry.1,
        Literals.objectEntry b.settings.stringClass layout.fields slot.index entry.2] := by
    refine List.mem_flatMap.2 ⟨(pools'.literals.texts[id], id), ?_, ?_⟩
    · exact List.mk_mem_zipIdx_iff_getElem?.2 (List.getElem?_eq_getElem lt)
    · exact List.mem_cons_of_mem _ (List.mem_singleton_self _)
  have inside : Literals.objectEntry b.settings.stringClass layout.fields slot.index id ∈ es := by
    rw [eq]
    simp only [List.mem_append, mem, true_or, or_true]
  exact ⟨layout, found, _, inside⟩

/-- A structure constant has the cells of the only definition of its type. -/
lemma map_fst_eq_of_fits {name : TypeName} {fields : List IrType} {cells : List (IrType × Constant)}
    (unique : ∀ fields fields', defines name fields → defines name fields' → fields' = fields)
    (fits : Constant.Fits defines (.named name, .record cells)) (defined : defines name fields) :
    cells.map (·.1) = fields := by
  cases fits with
  | named defined' => exact unique _ _ defined defined'

end Module

/-- The constants of a module fit its types, unless a field is void or the field for the characters
of a literal is no reference. Each structure type is defined once, so a structure constant has the
cells that its type says and an array constant as many items. In particular all headers have a
pointer for each slot of an interface, the metadata of a class has one for each slot of its own
type, and a literal has the fields of its class. -/
theorem constants_fit_types (built : ofProgram p settings = .ok b)
    (emitted : b.entries.run .empty = .ok (es, pools))
    (nonvoid : ∀ c ∈ p.classes, ∀ f ∈ c.fields, f.type ≠ .void)
    (chars : ∀ slot, p.fieldSlot? ⟨settings.stringClass, settings.charsField⟩ = some slot →
      slot.type.isReference = true) :
    (∀ name fields fields', .typeDef name fields ∈ es → .typeDef name fields' ∈ es →
      fields' = fields) ∧
    (∀ s storage type contents, .data s storage type contents ∈ es →
      Constant.Fits (fun name fields => .typeDef name fields ∈ es) (type, contents)) ∧
    .typeDef (.runtime .header) (headerFields b.tables.interfaceTable.length) ∈ es ∧
    (∀ c ∈ p.classes, ∃ count header own,
      .typeDef (.metadata c.name) (.runtime .header :: List.replicate count .ptr) ∈ es ∧
      .data (.metadata c.name) .data (.named (.metadata c.name))
        (.record ((.runtime .header, .record header) :: own)) ∈ es ∧
      header.map (·.1) = headerFields b.tables.interfaceTable.length ∧
      own.map (·.1) = List.replicate count .ptr) ∧
    (∀ kind, ∃ header,
      .data (.arrayMetadata kind) .data (.runtime .header) (.record header) ∈ es ∧
      header.map (·.1) = headerFields b.tables.interfaceTable.length) ∧
    ∀ id < pools.literals.texts.length, ∃ fields cells,
      .typeDef (.instances settings.stringClass) fields ∈ es ∧
      .data (.literal id) .privateData (.named (.instances settings.stringClass))
        (.record cells) ∈ es ∧
      cells.map (·.1) = fields := by
  have ofSettings : b.settings = settings := settings_eq built
  obtain ⟨rfl, -, -⟩ := ofProgram_spec built
  subst ofSettings
  have fits := fits_of_mem emitted nonvoid chars
  have types : HasRuntimeTypes (fun name fields => .typeDef name fields ∈ es)
      b.tables.interfaceTable.length := hasRuntimeTypes emitted
  -- a structure type is defined once, so the definitions below are all there are
  have unique : ∀ name fields fields', .typeDef name fields ∈ es → .typeDef name fields' ∈ es →
      fields' = fields := by
    intro name fields fields' mem mem'
    have same : Entry.typeDef name fields' = .typeDef name fields :=
      List.eq_of_nodup_filterMap (nodup_types built emitted) mem' mem (a := .type name) rfl rfl
    exact (Entry.typeDef.inj same).2
  refine ⟨unique, fun s storage type contents mem => fits _ mem, types.header, ?_, ?_, ?_⟩
  · intro c memc
    obtain ⟨e, given⟩ : ∃ e, b.metadata c = .ok e := by
      obtain ⟨_, _, metadata, _, _, _, _, _, given, _⟩ := entries_spec emitted
      obtain ⟨e, _, given⟩ := Except.exists_mem_of_mapM_eq_ok given (Program.mem_sortedClasses memc)
      exact ⟨e, given⟩
    have mem := mem_of_metadata emitted memc given
    obtain ⟨h, own, rfl, length, _, defined⟩ := metadata_spec types given
    refine ⟨own.length, headerCells h, own.map slotContents,
      mem_of_classTypes emitted memc defined, mem, ?_, ?_⟩
    · rw [map_fst_headerCells, length]
    · rw [List.map_map]
      exact List.map_const'
  · intro kind
    obtain ⟨h, mem, length⟩ := exists_arrayMetadata b kind
    refine ⟨headerCells h, mem_of_arrayMetadata emitted mem, ?_⟩
    rw [map_fst_headerCells, length]
  · intro id lt
    obtain ⟨layout, found, cells, mem⟩ := exists_literal emitted lt
    obtain ⟨c, concrete, named, _⟩ := Program.exists_of_layout? found
    obtain ⟨memc, isClass⟩ := Program.mem_concreteClasses.1 concrete
    have defined := mem_of_classTypes emitted memc (defines_instances named isClass found)
    exact ⟨_, cells, defined, mem, map_fst_eq_of_fits (unique _) (fits _ mem) defined⟩

/-- A class of texts that can be drawn, with one that is there from the start. -/
def label : ClassDef :=
  { ClassDef.empty "Text" with
    interfaces := ["Drawn"]
    fields :=
      [Program.plainField "chars" (.array (.primitive .char)),
       ⟨"title", true, .object "Text", some (.string "hi")⟩]
    methods := [nativeMethod "draw", nativeMethod "move"] }

/-- The class with its interface. -/
def labels : Program :=
  { classes :=
      [label,
       { ClassDef.empty "Drawn" with
          isInterface := true
          methods := [{ nativeMethod "draw" with isNative := false, isAbstract := true }] }]
    entryPoint := none
    nodup := by decide }

/-- The texts are the literals. -/
def labelSettings : Settings :=
  { Settings.default with rootClass := "Text", stringClass := "Text", charsField := "chars" }

/-- The literal has the fields of a text, and the header has a slot for drawing. -/
theorem labels_fit :
    ∃ b es pools cells, ofProgram labels labelSettings = .ok b ∧
      b.entries.run .empty = .ok (es, pools) ∧
      .typeDef (.runtime .header) (headerFields 1) ∈ es ∧
      .data (.literal 0) .privateData (.named (.instances "Text")) (.record cells) ∈ es ∧
      cells.map (·.1) = [.runtime .object, .ptr] := by
  have computed : ((ofProgram labels labelSettings).toOption.bind fun b =>
      (b.entries.run .empty).toOption.map fun r =>
        (b.tables.interfaceTable.length, r.2.literals.texts.length)) = some (1, 1) := by
    cbv
  obtain ⟨b, ⟨es, pools⟩, built, emitted, lengths⟩ := Except.exists_of_toOption_bind_map computed
  obtain ⟨slots, count⟩ := Prod.mk.inj lengths
  have chars : ∀ slot, labels.fieldSlot? ⟨"Text", "chars"⟩ = some slot →
      slot.type.isReference = true := by
    have found : labels.fieldSlot? ⟨"Text", "chars"⟩ =
        some ⟨"Text", "chars", .array (.primitive .char), 1⟩ := by
      decide +kernel
    rintro slot given
    obtain rfl := Option.some.inj (found.symm.trans given)
    rfl
  obtain ⟨unique, _, header, _, _, literals⟩ :=
    constants_fit_types built emitted (by decide) chars
  obtain ⟨fields, cells, defined, mem, types⟩ := literals 0 (count ▸ Nat.one_pos)
  rw [slots] at header
  -- the fields are those of the one definition of the type
  have defined' : .typeDef (.instances "Text") [.runtime .object, .ptr] ∈ es := by
    have layout : labels.layout? "Text" =
        some ⟨"Text", none, [⟨"Text", "chars", .array (.primitive .char), 1⟩], 0⟩ := by
      decide +kernel
    have declared : label ∈ labels.classes := List.mem_cons_self ..
    obtain ⟨program, -, -⟩ := ofProgram_spec built
    rw [← program] at declared layout
    have types := defines_instances (c := label) rfl rfl layout
    exact mem_of_classTypes emitted declared types
  refine ⟨b, es, pools, cells, built, emitted, header, mem, ?_⟩
  exact types.trans (unique _ _ _ defined' defined)

end Backend

end ObjectBackend
