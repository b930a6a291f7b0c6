import ObjectBackend.Source.Hierarchy

/-!
# Dispatch tables

Where a call through an instance's class finds the method to run. A declaration that overrides
nothing owns a slot, and everything that overrides it uses that slot. A class's own slots extend its
parent's table, so a slot number stays valid in all subclasses; the slots of interface declarations
form one table shared by all classes. Constructors, initializers, static and private methods are
never dispatched and have no slots.
-/

namespace ObjectBackend

/-- Where the slot of a declaration is. -/
inductive Slot where
  /-- In the table of a class, and at the same place in the tables of its subclasses. -/
  | ofClass (owner : String) (number : Nat)
  /-- In the shared table of interface methods. -/
  | ofInterface (number : Nat)
deriving DecidableEq

namespace ClassDef

/-- The parent and the interfaces a class names. -/
def supertypeNames (c : ClassDef) : List String := c.parentName.toList ++ c.interfaces

/-- Whether the class declares a method with a signature that its instances inherit. -/
def declares (c : ClassDef) (s : Signature) : Bool :=
  (c.method? s).any fun m => !m.isStatic && !m.isPrivate

end ClassDef

namespace Pool

/-- What a search found, and the classes it has not met. -/
structure Found (pool : List ClassDef) where
  rest : List ClassDef
  classes : List String
  rest_le : rest.length ≤ pool.length

/-- The topmost classes that declare a method, among those that the names lead to: for each named
class what is found above it or, if there is nothing, itself. Every class is met once. -/
def topmost (s : Signature) (pool : List ClassDef) : List String → Found pool
  | [] => { rest := pool, classes := [], rest_le := Nat.le_refl _ }
  | name :: names =>
    match _ : find? pool name with
    | none =>
      let others := topmost s pool names
      { rest := others.rest, classes := others.classes, rest_le := others.rest_le }
    | some c =>
      have shorter := length_without_lt (by assumption : find? pool name = some c)
      let above := topmost s (without pool name) c.supertypeNames
      have fewer : above.rest.length < pool.length := Nat.lt_of_le_of_lt above.rest_le shorter
      let here := if above.classes.isEmpty && c.declares s then [c.name] else above.classes
      let others := topmost s above.rest names
      { rest := others.rest
        classes := here ++ others.classes
        rest_le := Nat.le_trans others.rest_le (Nat.le_of_lt fewer) }
termination_by names => (pool.length, names.length)
decreasing_by
  · exact Prod.Lex.right _ (Nat.lt_succ_self _)
  · exact Prod.Lex.left _ _ shorter
  · exact Prod.Lex.left _ _ fewer

end Pool

/-- The declarations above a class that its own declaration of a method overrides. -/
def Program.topmostDeclarations (p : Program) (c : ClassDef) (s : Signature) : List MethodRef :=
  (Pool.topmost s (Pool.without p.classes c.name) c.supertypeNames).classes.map (⟨·, s⟩)

/-- A declaration and the slot it owns. -/
structure TableEntry where
  method : MethodRef
  slot : Nat

/-- The declarations that own the slots of a table. -/
structure VirtualTable where
  entries : List TableEntry
  /-- Every declaration stands at the place of its slot. -/
  placed : entries.map (·.slot) = List.range entries.length

namespace VirtualTable

/-- No slots. -/
def empty : VirtualTable := { entries := [], placed := rfl }

/-- The declarations without their slots. -/
def methods (t : VirtualTable) : List MethodRef := t.entries.map (·.method)

/-- Give a declaration the next slot. -/
def push (t : VirtualTable) (method : MethodRef) : Nat × VirtualTable :=
  let slot := t.methods.length
  (slot,
    { entries := t.entries ++ [{ method, slot }]
      placed := by simp [slot, methods, t.placed, List.range_succ] })

/-- A declaration gets its slot behind all others. -/
@[simp] theorem methods_push (t : VirtualTable) (m : MethodRef) :
    (t.push m).2.methods = t.methods ++ [m] :=
  List.map_append

/-- The stored slots are the places of the declarations. -/
theorem map_entries (t : VirtualTable) :
    t.entries.map (fun e => (e.method, e.slot)) = t.methods.zipIdx := by
  have slots : t.entries.map (·.slot) = List.range' 0 t.methods.length := by
    rw [t.placed, List.range_eq_range', methods, List.length_map]
  rw [List.zipIdx_eq_zip_range', ← slots, methods, List.zip_map']

/-- A declaration is listed at its slot. -/
theorem getElem?_slot {t : VirtualTable} {e : TableEntry} (mem : e ∈ t.entries) :
    t.methods[e.slot]? = some e.method := by
  have listed := List.mem_map_of_mem (f := fun e : TableEntry => (e.method, e.slot)) mem
  rw [map_entries] at listed
  exact List.mk_mem_zipIdx_iff_getElem?.1 listed

end VirtualTable

/-- The dispatch tables of a program: those of its classes and the one that interfaces share. For
each declaration that owns a slot, `slots` says where it is. -/
structure DispatchTables where
  tables : List (String × VirtualTable)
  shared : VirtualTable
  slots : List (MethodRef × Slot)

namespace DispatchTables

/-- No tables. -/
def empty : DispatchTables := { tables := [], shared := .empty, slots := [] }

/-- The slot a declaration owns. -/
def slot? (t : DispatchTables) (m : MethodRef) : Option Slot := t.slots.lookup m

/-- The table of a class, inherited slots included. -/
def table? (t : DispatchTables) (name : String) : Option VirtualTable := t.tables.lookup name

/-- The declarations that own the slots of a class, those of inherited slots included. -/
def classTable? (t : DispatchTables) (name : String) : Option (List MethodRef) :=
  (t.table? name).map (·.methods)

/-- The declarations that own the slots of interfaces. -/
def interfaceTable (t : DispatchTables) : List MethodRef := t.shared.methods

/-- Give an interface declaration a slot unless it has one. -/
def addInterfaceSlot (t : DispatchTables) (m : MethodRef) : DispatchTables :=
  if (t.slot? m).isSome then t
  else
    let pushed := t.shared.push m
    { t with shared := pushed.2, slots := t.slots ++ [(m, .ofInterface pushed.1)] }

/-- Give those of some declarations that stand in interfaces their slots. -/
def addInterfaceSlots (p : Program) (t : DispatchTables) (ms : List MethodRef) :
    DispatchTables :=
  (ms.filter fun m => (p.lookup? m.className).any (·.isInterface)).foldl addInterfaceSlot t

/-- Enter one method of a class: it either owns a new slot at the end of the class's table, or it
uses the slots of the declarations it overrides. -/
def addClassMethod (p : Program) (c : ClassDef) :
    DispatchTables × VirtualTable → MethodDef → Except MethodRef (DispatchTables × VirtualTable)
  | (t, table), m =>
    let declarations := p.topmostDeclarations c m.signature
    if declarations.isEmpty then
      let method := c.reference m
      let pushed := table.push method
      if (t.slot? method).isSome then .error method
      else .ok ({ t with slots := t.slots ++ [(method, .ofClass c.name pushed.1)] }, pushed.2)
    else .ok (t.addInterfaceSlots p declarations, table)

/-- Enter a class, whose parent has been entered before. -/
def addClass (p : Program) (t : DispatchTables) (c : ClassDef) :
    Except MethodRef DispatchTables := do
  let inherited := (c.parentName.bind t.table?).getD .empty
  let (t, table) ← (c.methods.filter (·.isVirtual)).foldlM (addClassMethod p c) (t, inherited)
  return { t with tables := t.tables ++ [(c.name, table)] }

/-- Enter the methods of an interface. -/
def addInterface (p : Program) (t : DispatchTables) (c : ClassDef) : DispatchTables :=
  (c.methods.filter (·.isVirtual)).foldl (fun t m =>
    let declarations := p.topmostDeclarations c m.signature
    if declarations.isEmpty then t.addInterfaceSlot (c.reference m)
    else t.addInterfaceSlots p declarations) t

/-- The classes of a program, each after its ancestors: by the lengths of their parent chains and
then by name. -/
def classOrder (p : Program) : List ClassDef :=
  (p.classes.filter (!·.isInterface)).mergeSort fun a b =>
    let depth (c : ClassDef) := (p.ancestors c.name).length
    decide (depth a < depth b) || (depth a == depth b && decide (a.name ≤ b.name))

/-- The dispatch tables of a program, or a method that a class declares twice. -/
def ofProgram (p : Program) : Except MethodRef DispatchTables := do
  let t ← (classOrder p).foldlM (addClass p) empty
  return (p.sortedClasses.filter (·.isInterface)).foldl (addInterface p) t

/-- The slot that a call through a method reference uses: that of the nearest declaration which
owns one, on the parent chain and then among the interfaces. -/
def resolve? (t : DispatchTables) (p : Program) (m : MethodRef) : Option Slot :=
  (p.ancestors m.className ++ p.allInterfaces m.className).findSome? fun c =>
    t.slot? ⟨c.name, m.signature⟩

end DispatchTables

end ObjectBackend
