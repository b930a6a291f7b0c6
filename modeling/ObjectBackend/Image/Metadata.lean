import ObjectBackend.Image.Class

/-!
# Metadata

The data that describes classes at run time. The metadata of a class has its size, the range of its
tags, its parent, a table of its reference fields, a slot for every method of an interface, and the
slots of the class's own table. Arrays have the tag of the root class. The collector also needs the
places of all static references.
-/

namespace ObjectBackend

open Target

/-- A reference to a method, if there is one. -/
def slotContents (method : Option MethodRef) : IrType × Constant :=
  Constant.ptr (method.elim .null fun m => .symbol (.method m))

/-- What the metadata of a class starts with. -/
structure Header where
  size : Value
  /-- The range of the tags. -/
  lower : Int
  upper : Int
  parent : Value
  fieldCount : Nat
  fieldTable : Value
  /-- The method in each interface slot. -/
  slots : List (Option MethodRef)

/-- The constant of a header; the flags start as zero. -/
def Header.contents (h : Header) : Constant :=
  .record
    ([Constant.i32 h.size, Constant.i32 (.int 0), Constant.i32 (.int h.lower),
        Constant.i32 (.int h.upper),
        (.runtime .fields,
          .record
            [Constant.ptr h.parent, Constant.i64 (.int h.fieldCount), Constant.ptr h.fieldTable])]
      ++ h.slots.map slotContents)

namespace Backend

/-- The method that a class runs for each interface slot, if the class has to do with it. -/
def interfaceSlots (b : Backend) (name : String) : List (Option MethodRef) :=
  b.tables.interfaceTable.map fun m =>
    if b.program.isSubtype name m.className then b.program.implementation? name m.signature
    else none

/-- The header of an interface, which describes nothing. -/
def interfaceHeader (b : Backend) : Header :=
  { size := .int 0, lower := 0, upper := 0, parent := .null, fieldCount := 0, fieldTable := .null
    slots := b.tables.interfaceTable.map fun _ => none }

/-- The header of a class. -/
def classHeader (b : Backend) (c : ClassDef) (range : TagRange) (layout : ObjectLayout) : Header :=
  let references := layout.ownReferences
  { size := .offset (.named (.instances c.name)) [1]
    lower := range.lower
    upper := range.upper
    parent := c.parentName.elim .null fun name => .symbol (.metadata name)
    fieldCount := references.length
    fieldTable := if references.isEmpty then .null else .symbol (.fieldTable c.name)
    slots := b.interfaceSlots c.name }

/-- The methods that a class runs for the slots of its own table. -/
def ownSlots (b : Backend) (name : String) : List (Option MethodRef) :=
  (b.classSlots name).map fun m => b.program.implementation? name m.signature

/-- The metadata of a class or an interface. -/
def metadata (b : Backend) (c : ClassDef) : Except BackendError (Entry Label) := do
  let entry (h : Header) (slots : List (Option MethodRef)) : Entry Label :=
    .data (.metadata c.name) .data (.named (.metadata c.name))
      (.record ((.runtime .header, h.contents) :: slots.map slotContents))
  if c.isInterface then return entry b.interfaceHeader []
  else
    match b.tags.classRange? c.name, b.program.layout? c.name with
    | none, _ => throw (.noTag c.name)
    | some _, none => throw (.missingClass c.name)
    | some range, some layout => return entry (b.classHeader c range layout) (b.ownSlots c.name)

/-- The metadata of the arrays of each element kind. -/
def arrayMetadata (b : Backend) : List (Entry Label) :=
  let root := b.settings.rootClass
  let tag := (b.tags.tag? root).getD (-1)
  let header : Header :=
    { size := .int 0
      lower := tag
      upper := tag + 1
      parent := if (b.program.lookup? root).isSome then .symbol (.metadata root) else .null
      fieldCount := 0
      fieldTable := .null
      slots := b.tables.interfaceTable.map fun _ => none }
  ElementKind.all.map fun kind =>
    .data (.arrayMetadata kind) .data (.runtime .header) header.contents

/-- The table of the offsets of a class's own reference fields, if it has some. -/
def fieldTable (b : Backend) (c : ClassDef) : List (Entry Label) :=
  let offsets := ((b.program.layout? c.name).elim [] (·.ownReferences)).map fun f =>
    Constant.i32 (.offset (.named (.instances c.name)) [0, f.index])
  if offsets.isEmpty then []
  else
    [.data (.fieldTable c.name) .privateReadOnly (.array offsets.length .i32) (.sequence offsets)]

/-- The static fields that are references, of all classes. -/
def staticReferences (b : Backend) : List (IrType × Constant) :=
  b.program.sortedClasses.flatMap fun c =>
    (c.staticFields.filter (·.type.isReference)).map fun f =>
      Constant.ptr (.symbol (.field c.name f.name))

/-- The table of all static references. -/
def stackRoots (b : Backend) : Entry Label :=
  let roots := b.staticReferences
  let table := IrType.array roots.length .ptr
  .data (.runtime .stackRoots) .readOnly (.struct [.i64, table])
    (.record [Constant.i64 (.int roots.length), (table, .sequence roots)])

end Backend

end ObjectBackend
