import ObjectBackend.Lowering.Access
import ObjectBackend.Proofs.Image.VirtualCall
import ObjectBackend.Proofs.Objects.Layout

/-!
# Accesses to fields

Which field the code of an access touches. A static access asks the classes of a line of descent for
the first field with the name, and so reaches what the reference resolves to. An access through an
object looks up the layout of the referenced class, from its end, and does not see static fields.
So it may go past the field that the reference resolves to: past a static one to an instance field
above it, and past the first of several instance fields of one class to the last
(`accesses_resolved_iff`).
-/

namespace ObjectBackend

namespace Program

open ObjectLayout

variable {p : Program} {c d owner : ClassDef} {f : FieldDef} {n : String} {slot : FieldSlot}

/-- The own fields of a class are its instance fields, in their order. -/
lemma Grounded.map_declaration_ownFields (grounded : p.Grounded c) :
    (p.ownFields c.name).map FieldSlot.declaration = c.declarations := by
  cases grounded with
  | root memc noParent =>
    rw [← slots_of_root memc noParent, slots, map_declaration_place,
      ancestors_of_root (concreteClasses_subset memc) noParent, List.reverse_singleton,
      List.flatMap_singleton]
  | @child _ d memc link split grounded =>
    have up : d ∈ p.ancestors c.name := by
      rw [split]
      exact List.mem_cons_of_mem _
        (mem_ancestors_self (concreteClasses_subset grounded.mem_concreteClasses))
    have whole : (p.slots c.name).map FieldSlot.declaration =
        (p.slots d.name).map FieldSlot.declaration ++ c.declarations := by
      rw [slots, slots, map_declaration_place, map_declaration_place, split, List.reverse_cons,
        List.flatMap_append, List.flatMap_singleton]
    rw [(Grounded.child memc link split grounded).slots_of_parent link up, List.map_append] at whole
    exact List.append_cancel_left whole

/-- As many own fields have a name as the class declares instance fields with it. -/
lemma Grounded.length_filter_ownFields (grounded : p.Grounded c) (n : String) :
    ((p.ownFields c.name).filter (·.name = n)).length =
      (c.instanceFields.filter (·.name = n)).length := by
  rw [← List.countP_eq_length_filter, ← List.countP_eq_length_filter]
  have own : (p.ownFields c.name).countP (·.name = n) =
      ((p.ownFields c.name).map FieldSlot.declaration).countP (·.2.1 = n) := by
    rw [List.countP_map]
    rfl
  rw [own, grounded.map_declaration_ownFields, ClassDef.declarations, List.countP_map]
  rfl

/-- Among the fields of a class that have a name, those of the class that the name resolves to come
last. -/
lemma Grounded.filter_slots (grounded : p.Grounded c)
    (resolved : p.resolveField? ⟨c.name, n⟩ = some (owner, f)) :
    ∃ above, (∀ s ∈ above, s.className ≠ owner.name) ∧
      (p.slots c.name).filter (·.name = n) =
        above ++ (p.ownFields owner.name).filter (·.name = n) := by
  induction grounded with
  | @root c memc noParent =>
    rw [resolveField?, ancestors_of_root (concreteClasses_subset memc) noParent,
      List.findSome?_singleton] at resolved
    obtain ⟨_, _, eq⟩ := Option.map_eq_some_iff.1 resolved
    cases eq
    rw [slots_of_root memc noParent]
    exact ⟨[], List.forall_mem_nil _, rfl⟩
  | @child c d memc link split grounded ih =>
    have memd := concreteClasses_subset grounded.mem_concreteClasses
    have up : d ∈ p.ancestors c.name := by
      rw [split]
      exact List.mem_cons_of_mem _ (mem_ancestors_self memd)
    have whole := Grounded.child memc link split grounded
    rw [whole.slots_of_parent link up, List.filter_append]
    rw [resolveField?, split, List.findSome?_cons] at resolved
    cases own : c.field? n with
    | some f' =>
      rw [own] at resolved
      cases resolved
      -- what is inherited belongs to ancestors, and no class is among its own parents
      refine ⟨_, fun s mem eq => ?_, rfl⟩
      obtain ⟨e, above, named, _⟩ := grounded.exists_declaring (List.mem_of_mem_filter mem)
      obtain rfl := eq_of_name_eq (mem_of_mem_ancestors above) (concreteClasses_subset memc)
        (named.symm.trans eq)
      exact grounded.not_mem_ancestors split above
    | none =>
      rw [own] at resolved
      obtain ⟨above, apart, eq⟩ := ih resolved
      -- the class itself declares no field of that name
      have without : (p.ownFields c.name).filter (·.name = n) = [] := by
        rw [← List.length_eq_zero_iff, whole.length_filter_ownFields, List.length_eq_zero_iff,
          List.filter_eq_nil_iff]
        exact fun g mem => List.find?_eq_none.1 own g (List.mem_of_mem_filter mem)
      exact ⟨above, apart, by rw [without, List.append_nil, eq]⟩

/-- The slot of the first instance field with a name that a class declares, in the layout of a class
below it. -/
def declaredSlot? (p : Program) (className owner name : String) : Option FieldSlot :=
  (p.slots className).find? fun s => s.className = owner ∧ s.name = name

/-- A reference to an instance field finds the last field with the name. -/
lemma fieldSlot?_eq (memc : c ∈ p.concreteClasses) :
    p.fieldSlot? ⟨c.name, n⟩ = ((p.slots c.name).filter (·.name = n)).getLast? := by
  rw [fieldSlot?, layout?_of_mem memc, Option.bind_some, ObjectLayout.field?, ← List.head?_filter,
    List.filter_reverse, List.head?_reverse]

/-- A field is resolved to one of an ancestor. -/
lemma mem_ancestors_of_resolveField? (resolved : p.resolveField? ⟨c.name, n⟩ = some (owner, f)) :
    owner ∈ p.ancestors c.name ∧ f ∈ owner.fields ∧ f.name = n := by
  obtain ⟨_, up, eq⟩ := List.exists_of_findSome?_eq_some resolved
  obtain ⟨_, declared, eq⟩ := Option.map_eq_some_iff.1 eq
  cases eq
  exact ⟨up, List.mem_of_find?_eq_some declared, by simpa using List.find?_some declared⟩

/-- Only classes have layouts. -/
lemma mem_concreteClasses_of_fieldSlot? {field : FieldRef}
    (found : p.fieldSlot? field = some slot) :
    ∃ c ∈ p.concreteClasses, c.name = field.className := by
  obtain ⟨layout, given, _⟩ := Option.bind_eq_some_iff.1 found
  obtain ⟨c, memc, named, _⟩ := exists_of_layout? given
  exact ⟨c, memc, named⟩

/-- What a reference to an instance field finds is declared on the line of descent. -/
lemma Grounded.exists_instanceField (grounded : p.Grounded c)
    (found : p.fieldSlot? ⟨c.name, n⟩ = some slot) :
    ∃ d ∈ p.ancestors c.name, ∃ g ∈ d.instanceFields, g.name = n := by
  rw [fieldSlot?_eq grounded.mem_concreteClasses] at found
  obtain ⟨mem, named⟩ := List.mem_filter.1 (List.mem_of_getLast? found)
  obtain ⟨d, up, own⟩ := List.mem_flatMap.1 (grounded.ownFields_perm.mem_iff.2 mem)
  have some := List.length_pos_of_mem
    (List.mem_filter.2 ⟨own, named⟩ : slot ∈ (p.ownFields d.name).filter (·.name = n))
  rw [(grounded.of_mem_ancestors up).length_filter_ownFields] at some
  obtain ⟨g, mem⟩ := List.exists_mem_of_length_pos some
  obtain ⟨mem, named⟩ := List.mem_filter.1 mem
  exact ⟨d, up, g, mem, by simpa using named⟩

/-- A name that a class of the line of descent declares resolves to a field. -/
lemma exists_resolveField? {g : FieldDef} (up : d ∈ p.ancestors c.name) (mem : g ∈ d.fields) :
    ∃ owner f, p.resolveField? ⟨c.name, g.name⟩ = some (owner, f) := by
  have declared : (d.field? g.name).isSome = true := List.find?_isSome.2 ⟨g, mem, by simp⟩
  have resolves : (p.resolveField? ⟨c.name, g.name⟩).isSome = true := by
    rw [resolveField?, List.findSome?_isSome_iff]
    exact ⟨d, up, by rwa [Option.isSome_map]⟩
  obtain ⟨⟨owner, f⟩, resolved⟩ := Option.isSome_iff_exists.1 resolves
  exact ⟨owner, f, resolved⟩

/-- What a reference to an instance field finds is the field it resolves to just if the class has no
other instance field with the name. -/
lemma Grounded.declaredSlot?_eq_iff (grounded : p.Grounded c)
    (resolved : p.resolveField? ⟨c.name, n⟩ = some (owner, f)) (inst : f.isStatic = false)
    (found : p.fieldSlot? ⟨c.name, n⟩ = some slot) :
    p.declaredSlot? c.name owner.name n = some slot ↔
      (owner.instanceFields.filter (·.name = n)).length = 1 := by
  obtain ⟨above, apart, split⟩ := grounded.filter_slots resolved
  obtain ⟨up, mem, named⟩ := mem_ancestors_of_resolveField? resolved
  have ground := grounded.of_mem_ancestors up
  have length := ground.length_filter_ownFields n
  rw [fieldSlot?_eq grounded.mem_concreteClasses, split] at found
  -- the fields of the class with the name, of which there is at least one
  cases own : (p.ownFields owner.name).filter (·.name = n) with
  | nil =>
    rw [own, List.length_nil] at length
    have mem : f ∈ owner.instanceFields.filter (·.name = n) := by
      simp [ClassDef.instanceFields, mem, inst, named]
    exact absurd length.symm (Nat.ne_of_gt (List.length_pos_of_mem mem))
  | cons first others =>
    have own' : ∀ s ∈ first :: others, s.className = owner.name := fun s mem =>
      ground.className_of_mem_ownFields (List.mem_of_mem_filter (own ▸ mem))
    have declared : p.declaredSlot? c.name owner.name n = some first := by
      have none : above.find? (fun s => s.className = owner.name) = none :=
        List.find?_eq_none.2 fun s mem => by simpa using apart s mem
      have order : p.declaredSlot? c.name owner.name n =
          ((p.slots c.name).filter (·.name = n)).find? fun s => s.className = owner.name := by
        rw [List.find?_filter, declaredSlot?]
        simp only [Bool.decide_and, Bool.decide_eq_true, Bool.and_comm]
      rw [order, split, own, List.find?_append, none, Option.none_or, List.find?_cons_of_pos]
      simpa using own' first (List.mem_cons_self ..)
    have nodup : (first :: others).Nodup := by
      have indices : ((p.slots c.name).map (·.index)).Nodup := nodup_index_place
      have rest := indices.of_map.filter (·.name = n)
      rw [split, own] at rest
      exact (List.nodup_append.1 rest).2.1
    rw [declared, ← length, own, List.length_cons]
    rw [own, List.getLast?_append_of_ne_nil _ (by simp)] at found
    cases others with
    | nil => simpa using found
    | cons second others =>
      refine iff_of_false ?_ (by simp)
      rintro ⟨⟩
      rw [List.getLast?_cons_cons] at found
      exact (List.nodup_cons.1 nodup).1 (List.mem_of_getLast? found)

end Program

namespace Lowering

open Target

variable {p : Program} {settings : Settings} {b : Backend} {c : Context} {field : FieldRef}
  {inst : Option Var} {type declared : ValueType} {emitted : Emit Unit} {place : Emit Value}

/-- An access to a field: a read into the register of a variable, or a write of one. -/
inductive FieldAccess where
  | read (receiver : Var)
  | write (value : Var)

namespace FieldAccess

/-- The code of the access, if it is accepted. -/
def lower (c : Context) (inst : Option Var) (field : FieldRef) (type : ValueType) :
    FieldAccess → Except BackendError (Emit Unit)
  | read receiver => getField c receiver inst field type
  | write value => putField c inst field value type

/-- The code of the access at an address that holds a value of a type. -/
def code (declared : ValueType) (address : Emit Value) : FieldAccess → Emit Unit
  | read receiver => do
    loadInto receiver (.storage declared) (.ofValue declared) (fieldExtension declared) (← address)
  | write value => do
    storeFrom value (.storage declared) (.ofValue declared) (← address)

/-- The place of the field is settled first, and the access is for the declared type. -/
lemma exists_place (a : FieldAccess) (given : a.lower c inst field type = .ok emitted) :
    ∃ place declared, fieldPlace c inst field type = .ok (place, declared) ∧
      emitted = a.code declared place := by
  cases a with
  | read receiver =>
    obtain ⟨⟨place, declared⟩, settled, given⟩ := Except.exists_of_bind_eq_ok given
    obtain ⟨_, _, given⟩ := Except.exists_of_bind_eq_ok given
    cases given
    exact ⟨place, declared, settled, rfl⟩
  | write value =>
    obtain ⟨⟨place, declared⟩, settled, given⟩ := Except.exists_of_bind_eq_ok given
    obtain ⟨_, _, given⟩ := Except.exists_of_bind_eq_ok given
    cases given
    exact ⟨place, declared, settled, rfl⟩

end FieldAccess

/-- What an access touches: a global, or an element of an object that is seen as an instance of a
class. -/
inductive FieldCell where
  | global (owner name : String)
  | element (inst : Var) (className : String) (index : Nat)

namespace FieldCell

/-- The code that gives the address of the cell. -/
def address : FieldCell → Emit Value
  | global owner name => pure (.symbol (.field owner name))
  | element inst className index =>
    .define (.fieldOf (.named (.instances className)) (.ofVar inst) [0, index])

/-- The cell is that of a field which a class declares, the first one there with its name. -/
def IsOf (p : Program) (owner : ClassDef) (f : FieldDef) : FieldCell → Prop
  | global className name => f.isStatic = true ∧ className = owner.name ∧ name = f.name
  | element _ className index =>
    f.isStatic = false ∧ ∃ slot, p.declaredSlot? className owner.name f.name = some slot ∧
      slot.index = index

end FieldCell

/-- The place of a static access is a global, for the type that the field is declared with. -/
lemma fieldPlace_global (settled : fieldPlace c none field type = .ok (place, declared)) :
    ∃ owner f, c.program.resolveField? field = some (owner, f) ∧ f.isStatic = true ∧
      place = (FieldCell.global owner.name f.name).address ∧ declared = f.type := by
  dsimp only [fieldPlace] at settled
  obtain ⟨⟨place', declared'⟩, given, settled⟩ := Except.exists_of_bind_eq_ok settled
  split at settled
  case isFalse => cases settled
  cases settled
  rw [staticField] at given
  split at given
  case h_1 => cases given
  case h_2 owner f resolved =>
    split at given
    case isFalse => cases given
    case isTrue isStatic =>
      cases given
      exact ⟨owner, f, resolved, isStatic, rfl, rfl⟩

/-- A static access is to the field that the reference resolves to. -/
lemma exists_global (settled : fieldPlace c none field type = .ok (place, declared)) :
    ∃ owner f, c.program.resolveField? field = some (owner, f) ∧ f.isStatic = true ∧
      place = (FieldCell.global owner.name f.name).address := by
  obtain ⟨owner, f, resolved, isStatic, eq, _⟩ := fieldPlace_global settled
  exact ⟨owner, f, resolved, isStatic, eq⟩

/-- The place of an access through an object is an element, for the type that its slot has. -/
lemma fieldPlace_element {v : Var}
    (settled : fieldPlace c (some v) field type = .ok (place, declared)) :
    ∃ slot, c.program.fieldSlot? field = some slot ∧
      place = (FieldCell.element v field.className slot.index).address ∧
      declared = slot.type := by
  dsimp only [fieldPlace] at settled
  obtain ⟨⟨place', declared'⟩, given, settled⟩ := Except.exists_of_bind_eq_ok settled
  split at settled
  case isFalse => cases settled
  cases settled
  obtain ⟨_, _, given⟩ := Except.exists_of_bind_eq_ok given
  split at given
  case h_1 => cases given
  case h_2 slot found =>
    cases given
    exact ⟨slot, found, rfl, rfl⟩

/-- An access through an object is to the field that its layout finds. -/
lemma exists_element {v : Var}
    (settled : fieldPlace c (some v) field type = .ok (place, declared)) :
    ∃ slot, c.program.fieldSlot? field = some slot ∧
      place = (FieldCell.element v field.className slot.index).address := by
  obtain ⟨slot, found, eq, _⟩ := fieldPlace_element settled
  exact ⟨slot, found, eq⟩

/-- The element that the layout finds is that of the field which the reference resolves to, just if
this field is not static and its class has no other instance field with the name. -/
lemma FieldCell.element_isOf_iff {C owner : ClassDef} {name : String} {f : FieldDef}
    {slot : FieldSlot} (grounded : p.Grounded C)
    (found : p.fieldSlot? ⟨C.name, name⟩ = some slot)
    (resolved : p.resolveField? ⟨C.name, name⟩ = some (owner, f)) (v : Var) :
    (element v C.name slot.index).IsOf p owner f ↔
      f.isStatic = false ∧ (owner.instanceFields.filter (·.name = name)).length = 1 := by
  refine and_congr_right fun ofObject => ?_
  rw [← grounded.declaredSlot?_eq_iff resolved ofObject found,
    (Program.mem_ancestors_of_resolveField? resolved).2.2]
  constructor
  · rintro ⟨slot', first, index⟩
    have mem := Program.mem_slots_of_fieldSlot? grounded.mem_concreteClasses found
    rwa [← ObjectLayout.eq_of_index_eq (List.mem_of_find?_eq_some first) mem index]
  · exact fun first => ⟨slot, first, rfl⟩

/-- An element is accessed if some class of the line of descent has an instance field with the name,
and then the reference resolves to a field. -/
lemma exists_instanceField_of_fieldSlot? {slot : FieldSlot} {tags : TagMap}
    (tagged : TagMap.ofProgram p = .ok tags) (found : p.fieldSlot? field = some slot) :
    ∃ C, p.Grounded C ∧ C.name = field.className ∧
      ∃ d ∈ p.ancestors field.className, ∃ f ∈ d.instanceFields, f.name = field.name := by
  obtain ⟨C, memC, named⟩ := Program.mem_concreteClasses_of_fieldSlot? found
  obtain ⟨className, name⟩ := field
  obtain rfl : C.name = className := named
  have grounded := TagMap.grounded_of_ofProgram tagged memC
  exact ⟨C, grounded, rfl, grounded.exists_instanceField found⟩

/-- If an access is accepted, its reference resolves to a field. A static access touches it. An
access through an object does just if the field is not static and its class has no other instance
field with the name. A static access to an instance field is rejected, and so is an access through
an object if no class of the line of descent has an instance field with the name. -/
theorem accesses_resolved_iff (built : Backend.ofProgram p settings = .ok b)
    (ofBackend : c.backend = b) (a : FieldAccess) (inst : Option Var) (field : FieldRef)
    (type : ValueType) :
    (∀ emitted, a.lower c inst field type = .ok emitted → ∃ owner f declared cell,
      p.resolveField? field = some (owner, f) ∧
      emitted = a.code declared (FieldCell.address cell) ∧
      (cell.IsOf p owner f ∧ f.isStatic = inst.isNone ↔ inst = none ∨ f.isStatic = false ∧
        (owner.instanceFields.filter (·.name = field.name)).length = 1)) ∧
    (∀ owner f, p.resolveField? field = some (owner, f) → f.isStatic = false →
      ∃ e, a.lower c none field type = .error e) ∧
    ((∀ d ∈ p.ancestors field.className, ∀ f ∈ d.instanceFields, f.name ≠ field.name) →
      ∀ v, ∃ e, a.lower c (some v) field type = .error e) := by
  obtain ⟨program, tagged, _⟩ := Backend.ofProgram_spec built
  obtain rfl := ofBackend
  obtain rfl : c.program = p := program
  refine ⟨fun emitted given => ?touched, fun owner f resolved ofObject => ?ofObject,
    fun none v => ?none⟩
  case touched =>
    obtain ⟨place, declared, settled, rfl⟩ := a.exists_place given
    cases inst with
    | none =>
      obtain ⟨owner, f, resolved, isStatic, rfl⟩ := exists_global settled
      exact ⟨owner, f, declared, _, resolved, rfl,
        iff_of_true ⟨⟨isStatic, rfl, rfl⟩, isStatic⟩ (.inl rfl)⟩
    | some v =>
      -- the slot may belong to another declaration than the one that is resolved
      obtain ⟨slot, found, rfl⟩ := exists_element settled
      obtain ⟨C, grounded, named, d, up, g, mem, name⟩ :=
        exists_instanceField_of_fieldSlot? tagged found
      obtain ⟨className, _⟩ := field
      obtain rfl : C.name = className := named
      obtain rfl := name
      obtain ⟨owner, f, resolved⟩ := Program.exists_resolveField? up (List.mem_of_mem_filter mem)
      refine ⟨owner, f, declared, _, resolved, rfl, ?_⟩
      rw [or_iff_right (Option.some_ne_none v), FieldCell.element_isOf_iff grounded found resolved]
      exact and_iff_left_of_imp And.left
  case ofObject =>
    refine Except.exists_eq_error fun emitted lowered => ?_
    obtain ⟨place, declared, settled, _⟩ := a.exists_place lowered
    obtain ⟨owner', f', resolved', isStatic, _⟩ := exists_global settled
    cases resolved.symm.trans resolved'
    rw [isStatic] at ofObject
    cases ofObject
  case none =>
    refine Except.exists_eq_error fun emitted lowered => ?_
    obtain ⟨place, declared, settled, _⟩ := a.exists_place lowered
    obtain ⟨slot, found, _⟩ := exists_element settled
    obtain ⟨_, _, _, d, up, g, mem, eq⟩ := exists_instanceField_of_fieldSlot? tagged found
    exact none d up g mem eq

/-- A class with a pressure, and one below it with some fields. -/
def boiler (fields : List FieldDef) : Program :=
  { classes :=
      [{ ClassDef.empty "Vessel" with fields := [Program.plainField "pressure" (.primitive .int)] },
        { ClassDef.empty "Boiler" with parent := some "Vessel", fields }]
    entryPoint := none
    nodup := (by decide : ["Vessel", "Boiler"].Nodup) }

/-- A static field with the same name. -/
def allowedPressure : FieldDef :=
  { Program.plainField "pressure" (.primitive .int) with isStatic := true }

/-- The field of the lower class. -/
def pressure : FieldRef := ⟨"Boiler", "pressure"⟩

/-- Read the field of an object. -/
def readBody : Body :=
  { kinds := [.object, .int]
    blocks :=
      [{ BasicBlock.empty with
          instructions := [.getField ⟨1⟩ (some ⟨0⟩) pressure (.primitive .int)]
          terminator := .exit (some ⟨1⟩) }] }

/-- A method with the body. -/
def readMethod : MethodDef :=
  { signature := ⟨"read", [.object "Boiler"], .primitive .int⟩, isStatic := true, isNative := false
    isAbstract := false, access := .anyClass, body := some readBody }

/-- The context of the method. -/
def reading (b : Backend) : Context :=
  .ofBody b (ClassDef.empty "Gauge") readMethod readBody

/-- The read is accepted if it is when computed. -/
lemma exists_reading (fields : List FieldDef) (checked : (boiler fields).check = .ok ())
    (grounded : ∀ c ∈ (boiler fields).concreteClasses, (boiler fields).isGrounded c.name = true)
    (run : ∀ settings tags tables,
      (getField (reading ⟨boiler fields, settings, tags, tables⟩) ⟨1⟩ (some ⟨0⟩) pressure
        (.primitive .int)).toOption.isSome = true) :
    ∃ b emitted, Backend.ofProgram (boiler fields) .default = .ok b ∧
      (FieldAccess.read ⟨1⟩).lower (reading b) (some ⟨0⟩) pressure (.primitive .int) =
        .ok emitted := by
  have none : ∀ c ∈ (boiler fields).classes, c.methods.filter (·.isVirtual) = [] := by
    simp [boiler, ClassDef.empty]
  obtain ⟨⟨p, settings, tags, tables⟩, built⟩ :=
    Backend.exists_ofProgram checked grounded none .default
  obtain rfl : p = boiler fields := (Backend.ofProgram_spec built).1
  obtain ⟨emitted, given⟩ := Option.isSome_iff_exists.1 (run settings tags tables)
  exact ⟨_, emitted, built, Except.eq_ok_of_toOption given⟩

/-- If the lower class declares no field, the one above it is read. -/
theorem boiler_reads_vessel : ∃ b emitted owner f declared cell,
    Backend.ofProgram (boiler []) .default = .ok b ∧
      (FieldAccess.read ⟨1⟩).lower (reading b) (some ⟨0⟩) pressure (.primitive .int) =
        .ok emitted ∧
      emitted = (FieldAccess.read ⟨1⟩).code declared (FieldCell.address cell) ∧
      (boiler []).resolveField? pressure = some (owner, f) ∧ owner.name = "Vessel" ∧
      cell.IsOf (boiler []) owner f := by
  obtain ⟨b, emitted, built, given⟩ :=
    exists_reading [] rfl (by decide +kernel) fun _ _ _ => by cbv
  obtain ⟨owner, f, declared, cell, resolved, eq, reached⟩ :=
    (accesses_resolved_iff built rfl (.read ⟨1⟩) (some ⟨0⟩) pressure (.primitive .int)).1 _ given
  have vessel : (boiler []).resolveField? pressure =
      some ((boiler []).classes[0], Program.plainField "pressure" (.primitive .int)) := by
    decide +kernel
  cases vessel.symm.trans resolved
  exact ⟨b, emitted, _, _, declared, cell, built, given, eq, resolved, rfl,
    (reached.2 (.inr (by decide))).1⟩

/-- If the lower class declares a static field, the read through an object is not rejected: it reads
the field above, which is not the one that the reference resolves to. -/
theorem boiler_passes_static : ∃ b emitted owner f declared slot,
    Backend.ofProgram (boiler [allowedPressure]) .default = .ok b ∧
      (boiler [allowedPressure]).resolveField? pressure = some (owner, f) ∧
      owner.name = "Boiler" ∧ f.isStatic = true ∧
      (FieldAccess.read ⟨1⟩).lower (reading b) (some ⟨0⟩) pressure (.primitive .int) =
        .ok emitted ∧
      emitted = (FieldAccess.read ⟨1⟩).code declared
        (FieldCell.element ⟨0⟩ "Boiler" slot.index).address ∧
      (boiler [allowedPressure]).declaredSlot? "Boiler" "Vessel" "pressure" = some slot := by
  obtain ⟨b, emitted, built, given⟩ :=
    exists_reading [allowedPressure] rfl (by decide +kernel) fun _ _ _ => by cbv
  obtain ⟨place, declared, settled, eq⟩ := FieldAccess.exists_place _ given
  obtain ⟨slot, found, rfl⟩ := exists_element settled
  have program : (reading b).program = boiler [allowedPressure] := (Backend.ofProgram_spec built).1
  have first : (boiler [allowedPressure]).declaredSlot? "Boiler" "Vessel" "pressure" =
      (boiler [allowedPressure]).fieldSlot? pressure := by
    decide +kernel
  have resolved : (boiler [allowedPressure]).resolveField? pressure =
      some ((boiler [allowedPressure]).classes[1], allowedPressure) := by
    decide +kernel
  rw [program] at found
  exact ⟨b, emitted, _, _, declared, slot, built, resolved, rfl, rfl, given, eq,
    first.trans found⟩

end Lowering

end ObjectBackend
