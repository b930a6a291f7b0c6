import ObjectBackend.Image.Metadata
import ObjectBackend.Lowering.Call
import ObjectBackend.Proofs.Evaluation
import ObjectBackend.Proofs.Objects.Dispatch
import ObjectBackend.Proofs.Objects.TypeTag

/-!
# Virtual calls

A virtual call runs the right method (`virtual_call_reaches_implementation`): what it loads from the
metadata of the instance's class is the method that the class runs for the signature, or null if it
runs none. The code counts the fields of another structure than that of the metadata it reads, of
the header or of the metadata of the class that owns the slot. It may, since the metadata begins
with such a structure; `Reaches` says what that means for data.
-/

namespace ObjectBackend

open Target
open Lowering (Emit)

/-- A load through a field, counted in a structure type, reaches a cell of some data: the fields of
that type are the first ones of the data, or the data begins with a structure in which the load
reaches the cell. -/
inductive Reaches (defines : TypeName → List IrType → Prop) (base : TypeName) (index : Nat)
    (cell : IrType × Constant) : List (IrType × Constant) → Prop where
  | here {cells : List (IrType × Constant)} {fields : List IrType} :
    defines base fields →
    fields <+: cells.map (·.1) →
    index < fields.length →
    cells[index]? = some cell →
    Reaches defines base index cell cells
  | within {type : IrType} {inner cells : List (IrType × Constant)} :
    Reaches defines base index cell inner →
    Reaches defines base index cell ((type, .record inner) :: cells)

namespace Slot

/-- The structure type in which the place of a slot is counted. -/
def base : Slot → TypeName
  | .ofClass owner _ => .metadata owner
  | .ofInterface _ => .runtime .header

/-- The field of that type in which the slot is. -/
def index : Slot → Nat
  | .ofClass _ n => 1 + n
  | .ofInterface n => Lowering.interfaceSlotIndex + n

end Slot

namespace Backend

variable {p : Program} {settings : Settings} {b : Backend} {c : ClassDef} {m : MethodRef}

/-- The structure types of metadata that a module defines. -/
def Defines (b : Backend) (name : TypeName) (fields : List IrType) : Prop :=
  .typeDef name fields ∈ b.headerType :: b.program.sortedClasses.flatMap b.classTypes

/-- A back end belongs to its program and has its tags and its tables. -/
lemma ofProgram_spec (built : ofProgram p settings = .ok b) :
    b.program = p ∧ TagMap.ofProgram p = .ok b.tags ∧
      DispatchTables.ofProgram p = .ok b.tables := by
  rw [ofProgram] at built
  obtain ⟨_, _, built⟩ := Except.exists_of_bind_eq_ok built
  obtain ⟨tags, tagged, built⟩ := Except.exists_of_bind_eq_ok built
  obtain ⟨tables, tabled, built⟩ := Except.exists_of_bind_eq_ok built
  cases built
  exact ⟨rfl, Except.of_mapError_eq_ok tagged, Except.of_mapError_eq_ok tabled⟩

/-- There is a back end for a program that is well formed and has no virtual methods. -/
lemma exists_ofProgram (checked : p.check = .ok ())
    (grounded : ∀ c ∈ p.concreteClasses, p.isGrounded c.name = true)
    (none : ∀ c ∈ p.classes, c.methods.filter (·.isVirtual) = []) (settings : Settings) :
    ∃ b, ofProgram p settings = .ok b := by
  obtain ⟨tags, tagged⟩ := TagMap.exists_ofProgram grounded
  obtain ⟨tables, tabled⟩ := DispatchTables.exists_ofProgram none
  rw [ofProgram, checked, tagged, tabled]
  exact ⟨_, rfl⟩

/-- The code of a virtual call through a slot. -/
lemma callee_of_resolve? {x : Lowering.Context} {inst : Var} {slot : Slot}
    (resolved : x.backend.tables.resolve? x.program m = some slot) :
    Lowering.callee x (some inst) m .virtual = .ok (do
      let metadata ← Emit.define (.load .ptr (.ofVar inst))
      let address ← Emit.define (.fieldOf (.named slot.base) metadata [0, slot.index])
      Emit.define (.load .ptr address)) := by
  simp only [Lowering.callee, resolved]
  cases slot <;> rfl

/-- The metadata of a concrete class is its header and its own slots behind that. -/
lemma metadata_eq_of_layout? {range : TagRange} {layout : ObjectLayout}
    (isClass : c.isInterface = false) (ranged : b.tags.classRange? c.name = some range)
    (found : b.program.layout? c.name = some layout) :
    b.metadata c = .ok (.data (.metadata c.name) .data (.named (.metadata c.name))
      (.record ((.runtime .header, (b.classHeader c range layout).contents) ::
        (b.ownSlots c.name).map slotContents))) := by
  rw [metadata, isClass, ranged, found]
  rfl

/-- The metadata of a class has its range and its layout. -/
lemma metadata_eq (built : ofProgram p settings = .ok b) (memc : c ∈ p.concreteClasses) :
    ∃ range layout, b.tags.classRange? c.name = some range ∧
      b.metadata c = .ok (.data (.metadata c.name) .data (.named (.metadata c.name))
        (.record ((.runtime .header, (b.classHeader c range layout).contents) ::
          (b.ownSlots c.name).map slotContents))) := by
  obtain ⟨rfl, tagged, _⟩ := ofProgram_spec built
  obtain ⟨declared, isClass⟩ := Program.mem_concreteClasses.1 memc
  have layout : (b.program.layout? c.name).isSome = true := by
    rw [Program.layout?, Program.lookup?_of_mem declared, Option.filter_some, isClass]
    rfl
  obtain ⟨layout, eq⟩ := Option.isSome_iff_exists.1 layout
  have range := TagMap.classRange?_of_mem tagged memc
  exact ⟨_, layout, range, metadata_eq_of_layout? isClass range eq⟩

/-- The metadata of a class: its header, then the methods that it runs for the slots of its table.
-/
lemma metadata_of_mem (built : ofProgram p settings = .ok b) (memc : c ∈ p.concreteClasses) :
    ∃ header : Header, header.slots = b.interfaceSlots c.name ∧
      b.metadata c = .ok (.data (.metadata c.name) .data (.named (.metadata c.name))
        (.record ((.runtime .header, header.contents) ::
          (b.ownSlots c.name).map slotContents))) := by
  obtain ⟨range, layout, _, data⟩ := metadata_eq built memc
  exact ⟨_, rfl, data⟩

/-- The type of the metadata of a class: the header, then a pointer for each slot of its table. -/
lemma defines_metadata (memc : c ∈ b.program.concreteClasses) :
    b.Defines (.metadata c.name) (.runtime .header :: (b.classSlots c.name).map fun _ => .ptr) := by
  obtain ⟨declared, isClass⟩ := Program.mem_concreteClasses.1 memc
  refine List.mem_cons_of_mem _ (List.mem_flatMap.2 ⟨c, List.mem_mergeSort.2 declared, ?_⟩)
  rw [classTypes, isClass]
  exact List.mem_cons_of_mem _ (List.mem_cons_self ..)

/-- The type of the metadata of a class is that of its data. -/
lemma types_metadata {contents : Constant} :
    ((IrType.runtime .header, contents) :: (b.ownSlots c.name).map slotContents).map (·.1) =
      .runtime .header :: (b.classSlots c.name).map fun _ => .ptr := by
  rw [List.map_cons, ownSlots, List.map_map, List.map_map]
  rfl

/-- A load through a slot of a class reaches the method in its place in the metadata of a class
whose table begins with the table of the owner. -/
lemma reaches_classSlot {contents : Constant} {d : ClassDef} {n : Nat}
    (memd : d ∈ b.program.concreteClasses)
    (grows : b.tables.tableOf d.name <+: b.tables.tableOf c.name)
    (place : (b.tables.tableOf d.name)[n]? = some m) :
    Reaches b.Defines (.metadata d.name) (1 + n)
      (slotContents (b.program.implementation? c.name m.signature))
      ((.runtime .header, contents) :: (b.ownSlots c.name).map slotContents) := by
  refine .here (defines_metadata memd) ?_ ?_ ?_
  · rw [types_metadata]
    exact List.cons_prefix_cons.2 ⟨rfl, grows.map _⟩
  · have bound := (List.getElem?_eq_some_iff.1 place).1
    rw [List.length_cons, List.length_map]
    change n < (b.classSlots d.name).length at bound
    omega
  · rw [Nat.add_comm, List.getElem?_cons_succ, ownSlots, List.getElem?_map, List.getElem?_map,
      classSlots, ← DispatchTables.tableOf, DispatchTables.getElem?_of_isPrefix grows place]
    rfl

/-- A load through an interface slot reaches the method in its place in a header. -/
lemma reaches_interfaceSlot {header : Header} {cells : List (IrType × Constant)} {n : Nat}
    (slots : header.slots = b.interfaceSlots c.name)
    (place : b.tables.interfaceTable[n]? = some m)
    (subtype : b.program.isSubtype c.name m.className = true) :
    Reaches b.Defines (.runtime .header) (Lowering.interfaceSlotIndex + n)
      (slotContents (b.program.implementation? c.name m.signature))
      ((.runtime .header, header.contents) :: cells) := by
  have bound := (List.getElem?_eq_some_iff.1 place).1
  refine .within (.here (List.mem_cons_self ..) ?_ ?_ ?_)
  · rw [List.map_append, slots, interfaceSlots, List.map_map, List.map_map, ← List.map_const']
    exact List.prefix_rfl
  · rw [List.length_append, List.length_replicate]
    exact Nat.add_lt_add_left bound 5
  · rw [List.getElem?_append_right (Nat.le_add_right 5 n)]
    change (header.slots.map slotContents)[5 + n - 5]? = _
    rw [Nat.add_sub_cancel_left, slots, interfaceSlots, List.getElem?_map, List.getElem?_map, place,
      Option.map_some, if_pos subtype]
    rfl

/-- A virtual call runs the right method: the code for a reference with a slot loads through a field
of a structure type, and in the metadata of each class that is a subtype of the referenced one this
load reaches the method which the class runs for the signature, or null if it runs none. -/
theorem virtual_call_reaches_implementation {slot : Slot}
    (built : ofProgram p settings = .ok b) (lists : p.ListsInterfaces)
    (roots : p.InterfacesAreRoots) (resolved : b.tables.resolve? p m = some slot)
    (memc : c ∈ p.concreteClasses) (subtype : p.isSubtype c.name m.className = true) :
    (∀ (x : Lowering.Context) (inst : Var), x.backend = b →
      Lowering.callee x (some inst) m .virtual = .ok (do
        let metadata ← Emit.define (.load .ptr (.ofVar inst))
        let address ← Emit.define (.fieldOf (.named slot.base) metadata [0, slot.index])
        Emit.define (.load .ptr address))) ∧
    ∃ cells : List (IrType × Constant),
      b.metadata c =
        .ok (.data (.metadata c.name) .data (.named (.metadata c.name)) (.record cells)) ∧
      b.Defines (.metadata c.name) (cells.map (·.1)) ∧
      Reaches b.Defines slot.base slot.index
        (slotContents (p.implementation? c.name m.signature)) cells := by
  obtain ⟨rfl, tagged, tabled⟩ := ofProgram_spec built
  have grounded : ∀ c ∈ b.program.concreteClasses, b.program.Grounded c :=
    fun c mem => TagMap.grounded_of_ofProgram tagged mem
  constructor
  · rintro x inst rfl
    exact callee_of_resolve? resolved
  · obtain ⟨header, slots, data⟩ := metadata_of_mem built memc
    refine ⟨_, data, ?_, ?_⟩
    · rw [types_metadata]
      exact defines_metadata memc
    · cases slot with
      | ofClass owner n =>
        obtain ⟨d, memd, rfl, grows, place⟩ :=
          DispatchTables.classSlot_of_resolve? grounded tabled lists roots memc subtype resolved
        exact reaches_classSlot (m := ⟨d.name, m.signature⟩) memd grows place
      | ofInterface n =>
        obtain ⟨d, subtype', place⟩ :=
          DispatchTables.interfaceSlot_of_resolve? grounded tabled lists roots subtype resolved
        exact reaches_interfaceSlot (m := ⟨d, m.signature⟩) slots place subtype'

/-- A method without a body, which the environment provides. -/
def nativeMethod (name : String) : MethodDef :=
  { signature := ⟨name, [], .void⟩, isStatic := false, isNative := true, isAbstract := false
    access := .anyClass, body := none }

/-- A subclass of a class with an interface; it has the method of the interface. -/
def square : ClassDef :=
  { ClassDef.empty "Square" with parent := some "Figure", methods := [nativeMethod "draw"] }

/-- The subclass with its class, which leaves the method open, and the interface. -/
def figures : Program :=
  { classes :=
      [{ ClassDef.empty "Figure" with interfaces := ["Drawn"], methods := [nativeMethod "move"] },
       square,
       { ClassDef.empty "Drawn" with
          isInterface := true
          methods := [{ nativeMethod "draw" with isNative := false, isAbstract := true }] }]
    entryPoint := none
    nodup := by decide }

/-- A call that names the class finds the method of the subclass in the slot of the interface. -/
theorem figures_reach_draw :
    ∃ b cells, ofProgram figures .default = .ok b ∧
      b.tables.resolve? figures ⟨"Figure", ⟨"draw", [], .void⟩⟩ = some (.ofInterface 0) ∧
      b.metadata square =
        .ok (.data (.metadata "Square") .data (.named (.metadata "Square")) (.record cells)) ∧
      Reaches b.Defines (.runtime .header) 5
        (slotContents (some ⟨"Square", ⟨"draw", [], .void⟩⟩)) cells := by
  have checked : ((ofProgram figures .default).toOption.bind fun b =>
      b.tables.resolve? figures ⟨"Figure", ⟨"draw", [], .void⟩⟩) = some (.ofInterface 0) := by
    rw [ofProgram, DispatchTables.ofProgram, Program.sortedClasses_eq_insertionSort]
    cbv
  obtain ⟨b, built, resolved⟩ := Option.bind_eq_some_iff.1 checked
  have built : ofProgram figures .default = .ok b := Except.eq_ok_of_toOption built
  have found : figures.implementation? "Square" ⟨"draw", [], .void⟩ =
      some ⟨"Square", ⟨"draw", [], .void⟩⟩ := by decide +kernel
  obtain ⟨_, cells, data, _, reaches⟩ :=
    virtual_call_reaches_implementation built (by decide) (by decide) resolved
      (by decide : square ∈ figures.concreteClasses) (by decide +kernel)
  refine ⟨b, cells, built, resolved, data, ?_⟩
  rw [← found]
  exact reaches

end Backend

end ObjectBackend
