import ObjectBackend.Proofs.Image.VirtualCall

/-!
# Virtual calls on arrays

Arrays have the tag of the root class, but their metadata is a header and nothing more. A virtual
call of a method of the root class on an array finds what it should only if the slot of the method
is one of an interface and the root class runs no method for it
(`array_call_reaches_implementation_iff`). A slot in the table of the root class lies behind the end
of the metadata.
-/

namespace ObjectBackend.Backend

open Target
open Lowering (Emit)

variable {p : Program} {settings : Settings} {b : Backend} {s : Signature} {slot : Slot}
  {kind : ElementKind} {fields : List IrType}

/-- The fields of a header. -/
lemma defines_header (defined : b.Defines (.runtime .header) fields) :
    fields = [.i32, .i32, .i32, .i32, .runtime .fields] ++
      List.replicate b.tables.interfaceTable.length .ptr := by
  rcases List.mem_cons.1 defined with eq | mem
  · exact (Entry.typeDef.inj eq).2
  · obtain ⟨c, _, mem⟩ := List.mem_flatMap.1 mem
    rw [classTypes] at mem
    split at mem <;> simp at mem

/-- The metadata of a class starts with a header. -/
lemma head?_of_defines {owner : String} (defined : b.Defines (.metadata owner) fields) :
    fields.head? = some (.runtime .header) := by
  rcases List.mem_cons.1 defined with eq | mem
  · cases eq
  · obtain ⟨c, _, mem⟩ := List.mem_flatMap.1 mem
    rw [classTypes] at mem
    split at mem <;> simp at mem <;> rw [mem.2] <;> rfl

/-- The data of arrays: the cells of a header, and null for each interface slot. -/
lemma cells_of_arrayMetadata {cells : List (IrType × Constant)}
    (mem : .data (.arrayMetadata kind) .data (.runtime .header) (.record cells) ∈ b.arrayMetadata) :
    ∃ size flags lower upper fields, cells =
      [Constant.i32 size, Constant.i32 flags, Constant.i32 lower, Constant.i32 upper,
        (.runtime .fields, .record fields)] ++
          List.replicate b.tables.interfaceTable.length (slotContents none) := by
  obtain ⟨_, _, eq⟩ := List.mem_map.1 mem
  obtain rfl := Constant.record.inj (Entry.data.inj eq).2.2.2
  have slots : (b.tables.interfaceTable.map fun _ => none).map slotContents =
      List.replicate b.tables.interfaceTable.length (slotContents none) := by
    rw [List.map_map]
    exact List.map_const'
  exact ⟨_, _, _, _, _, congrArg _ slots⟩

/-- What a load through a slot reaches in the data of arrays: nothing through a slot of a class, and
null through one of an interface. -/
lemma reaches_arrayCells {cells : List (IrType × Constant)} {cell : IrType × Constant}
    (mem : .data (.arrayMetadata kind) .data (.runtime .header) (.record cells) ∈ b.arrayMetadata) :
    Reaches b.Defines slot.base slot.index cell cells ↔
      ∃ n, slot = .ofInterface n ∧ n < b.tables.interfaceTable.length ∧
        cell = slotContents none := by
  obtain ⟨size, flags, lower, upper, fields, rfl⟩ := cells_of_arrayMetadata mem
  constructor
  · intro reaches
    cases reaches with
    | @here _ types defined fits bound found =>
      cases slot with
      | ofClass owner n =>
        -- the structure starts with a header, and a header does not
        have first := head?_of_defines defined
        cases types with
        | nil => cases first
        | cons type types =>
          obtain rfl := Option.some.inj first
          cases (List.cons_prefix_cons.1 fits).1
      | ofInterface n =>
        have eq := defines_header defined
        rw [eq, List.length_append, List.length_replicate] at bound
        have lt : n < b.tables.interfaceTable.length := Nat.lt_of_add_lt_add_left bound
        refine ⟨n, rfl, lt, ?_⟩
        change _[5 + n]? = _ at found
        rw [List.getElem?_append_right (Nat.le_add_right 5 n)] at found
        change (List.replicate _ _)[5 + n - 5]? = _ at found
        rw [Nat.add_sub_cancel_left, List.getElem?_replicate, if_pos lt] at found
        exact (Option.some.inj found).symm
  · rintro ⟨n, rfl, lt, rfl⟩
    refine .here (List.mem_cons_self ..) ?_ ?_ ?_
    · rw [List.map_append, List.map_replicate]
      exact List.prefix_rfl
    · rw [List.length_append, List.length_replicate]
      exact Nat.add_lt_add_left lt 5
    · change _[5 + n]? = _
      rw [List.getElem?_append_right (Nat.le_add_right 5 n)]
      change (List.replicate _ _)[5 + n - 5]? = _
      rw [Nat.add_sub_cancel_left, List.getElem?_replicate, if_pos lt]

/-- The metadata of each kind of array is emitted, as a record of some cells. -/
lemma exists_arrayCells (b : Backend) (kind : ElementKind) : ∃ cells : List (IrType × Constant),
    .data (.arrayMetadata kind) .data (.runtime .header) (.record cells) ∈ b.arrayMetadata := by
  refine ⟨_, List.mem_map.2 ⟨kind, ?_, rfl⟩⟩
  cases kind <;> decide

/-- A virtual call of a method of the root class runs the right method of an array only in one case:
the slot of the method is one of an interface, and the root class runs no method for it, so that
null is right. Otherwise the load finds null where it should find the method, or, through a slot in
the table of a class, reads behind the end of the metadata. -/
theorem array_call_reaches_implementation_iff (built : ofProgram p settings = .ok b)
    (kind : ElementKind)
    (resolved : b.tables.resolve? p ⟨settings.rootClass, s⟩ = some slot) :
    (∀ (x : Lowering.Context) (inst : Var), x.backend = b →
      Lowering.callee x (some inst) ⟨settings.rootClass, s⟩ .virtual = .ok (do
        let metadata ← Emit.define (.load .ptr (.ofVar inst))
        let address ← Emit.define (.fieldOf (.named slot.base) metadata [0, slot.index])
        Emit.define (.load .ptr address))) ∧
    ((∃ cells : List (IrType × Constant),
        .data (.arrayMetadata kind) .data (.runtime .header) (.record cells) ∈ b.arrayMetadata ∧
        Reaches b.Defines slot.base slot.index
          (slotContents (p.implementation? settings.rootClass s)) cells) ↔
      (∃ n, slot = .ofInterface n) ∧ p.implementation? settings.rootClass s = none) := by
  obtain ⟨rfl, tagged, tabled⟩ := ofProgram_spec built
  constructor
  · rintro x inst rfl
    exact callee_of_resolve? resolved
  · constructor
    · rintro ⟨cells, mem, reaches⟩
      obtain ⟨n, rfl, _, eq⟩ := (reaches_arrayCells mem).1 reaches
      refine ⟨⟨n, rfl⟩, ?_⟩
      cases found : b.program.implementation? settings.rootClass s with
      | none => rfl
      | some m =>
        rw [found] at eq
        cases eq
    · rintro ⟨⟨n, rfl⟩, none⟩
      obtain ⟨cells, mem⟩ := exists_arrayCells b kind
      refine ⟨cells, mem, (reaches_arrayCells mem).2 ⟨n, rfl, ?_, by rw [none]⟩⟩
      -- the slot of an interface is in the table that all headers have room for
      obtain ⟨d, _, owned⟩ := List.exists_of_findSome?_eq_some resolved
      have grounded : ∀ c ∈ b.program.concreteClasses, b.program.Grounded c :=
        fun c mem => TagMap.grounded_of_ofProgram tagged mem
      have place := ((DispatchTables.ofProgram_spec grounded tabled).1 _ _
        (DispatchTables.mem_slots_of_slot? owned)).1
      exact (List.getElem?_eq_some_iff.1 place).1

/-- The settings for a root class with a short name. -/
def shortRoot : Settings := { Settings.default with rootClass := "Root" }

/-- A root class that leaves the method of its interface open. -/
def openRoot : Program :=
  { classes :=
      [{ ClassDef.empty "Root" with interfaces := ["Drawn"] },
       { ClassDef.empty "Drawn" with
          isInterface := true
          methods := [{ nativeMethod "draw" with isNative := false, isAbstract := true }] }]
    entryPoint := none
    nodup := by decide }

/-- A call of the open method finds null in the metadata of arrays, as it does in that of the root
class. -/
theorem openRoot_arrays_reach_null :
    ∃ b cells, ofProgram openRoot shortRoot = .ok b ∧
      .data (.arrayMetadata .int) .data (.runtime .header) (.record cells) ∈ b.arrayMetadata ∧
      Reaches b.Defines (.runtime .header) 5 (slotContents none) cells := by
  have checked : ((ofProgram openRoot shortRoot).toOption.bind fun b =>
      b.tables.resolve? openRoot ⟨"Root", ⟨"draw", [], .void⟩⟩) =
        some (.ofInterface 0) := by
    cbv
  obtain ⟨b, built, resolved⟩ := Option.bind_eq_some_iff.1 checked
  have built : ofProgram openRoot shortRoot = .ok b := Except.eq_ok_of_toOption built
  have found : openRoot.implementation? "Root" ⟨"draw", [], .void⟩ = none := by
    decide +kernel
  obtain ⟨cells, mem, reaches⟩ :=
    (array_call_reaches_implementation_iff built .int resolved).2.2 ⟨⟨0, rfl⟩, found⟩
  refine ⟨b, cells, built, mem, ?_⟩
  rw [← found]
  exact reaches

/-- The reference to a method of the root class. -/
def hashCode : MethodRef := ⟨"Root", ⟨"hashCode", [], .primitive .int⟩⟩

/-- A method that makes an array and calls the method of the root class on it. -/
def hashArray : MethodDef :=
  { signature := ⟨"test", [.primitive .int], .primitive .int⟩, isStatic := true, isNative := false
    isAbstract := false, access := .anyClass
    body := some
      { kinds := [.int, .array .int, .int]
        blocks :=
          [{ BasicBlock.empty with
              instructions :=
                [.constructArray ⟨1⟩ (.primitive .int) ⟨0⟩,
                 .invoke (some ⟨2⟩) (some ⟨1⟩) hashCode [] .virtual]
              terminator := .exit (some ⟨2⟩) }] } }

/-- The root class with its method, and a class that calls it on an array. -/
def hashing : Program :=
  { classes :=
      [{ ClassDef.empty "Root" with
          methods := [{ nativeMethod "hashCode" with signature := hashCode.signature }] },
       { ClassDef.empty "Main" with parent := some "Root", methods := [hashArray] }]
    entryPoint := none
    nodup := by decide }

/-- The call does not reach the method: its slot is in the table of the root class, which arrays
have no part of. -/
theorem hashing_misses_method :
    ∃ b, ofProgram hashing shortRoot = .ok b ∧
      b.tables.resolve? hashing hashCode = some (.ofClass "Root" 0) ∧
      hashing.implementation? "Root" hashCode.signature = some hashCode ∧
      ∀ kind cells,
        .data (.arrayMetadata kind) .data (.runtime .header) (.record cells) ∈ b.arrayMetadata →
        ¬Reaches b.Defines (.metadata "Root") 1 (slotContents (some hashCode)) cells := by
  have checked : ((ofProgram hashing shortRoot).toOption.bind fun b =>
      b.tables.resolve? hashing hashCode) = some (.ofClass "Root" 0) := by
    cbv
  obtain ⟨b, built, resolved⟩ := Option.bind_eq_some_iff.1 checked
  have found : hashing.implementation? "Root" hashCode.signature = some hashCode := by
    decide +kernel
  refine ⟨b, Except.eq_ok_of_toOption built, resolved, found, ?_⟩
  intro kind cells mem reaches
  have reaches : Reaches b.Defines (Slot.ofClass "Root" 0).base (Slot.ofClass "Root" 0).index
      (slotContents (some hashCode)) cells := reaches
  obtain ⟨n, eq, _⟩ := (reaches_arrayCells mem).1 reaches
  cases eq

end ObjectBackend.Backend
