import ObjectBackend.Backend.Basic
import ObjectBackend.Image.Pools

/-!
# Classes

The types of a class's instances and of its metadata, and the data of its static fields.
-/

namespace ObjectBackend

open Target

/-- The integer that a type of memory holds of a number: its last bits, signed unless there is only
one. -/
def Target.IrType.wrap : IrType → Int → Int
  | .i1, n => n % 2
  | .i8, n => (Int8.ofInt n).toInt
  | .i16, n => (Int16.ofInt n).toInt
  | .i32, n => (Int32.ofInt n).toInt
  | _, n => n

namespace Backend

/-- The type that the metadata of every class starts with: size, flags, bounds of the tags, fields,
and a slot for every method of an interface. -/
def headerType (b : Backend) : Entry Label :=
  .typeDef (.runtime .header)
    ([.i32, .i32, .i32, .i32, .runtime .fields]
      ++ List.replicate b.tables.interfaceTable.length .ptr)

/-- The methods in the table of a class. -/
def classSlots (b : Backend) (name : String) : List MethodRef :=
  (b.tables.classTable? name).getD []

/-- The fields of the instances of a class. -/
def instanceFields (b : Backend) (name : String) : List FieldSlot :=
  (b.program.layout? name).elim [] (·.fields)

/-- The types of a class. An interface has metadata but no instances. -/
def classTypes (b : Backend) (c : ClassDef) : List (Entry Label) :=
  if c.isInterface then [.typeDef (.metadata c.name) [.runtime .header]]
  else
    [.typeDef (.instances c.name)
        (.runtime .object :: (b.instanceFields c.name).map fun f => .storage f.type),
      .typeDef (.metadata c.name)
        (.runtime .header :: (b.classSlots c.name).map fun _ => .ptr)]

end Backend

/-- What a field of a type starts with. An integer is cut off to the width of the field, and a real
rounded to it. -/
def InitialValue.contents? (type : IrType) : InitialValue → Option (Pools → Value × Pools)
  | int n => if type.isInteger then some (.int (type.wrap n.toInt), ·) else none
  | long n => if type.isInteger then some (.int (type.wrap n.toInt), ·) else none
  | float x => if type.isFloating then some (.real x.widen, ·) else none
  | double x =>
    match type with
    | .float => some (.real x.narrow.widen, ·)
    | .double => some (.real x, ·)
    | _ => none
  | string text =>
    if type = .ptr then
      some fun pools => let (symbol, pools) := pools.intern text; (.symbol symbol, pools)
    else none

namespace ClassDef

/-- The data of a static field; a field without a value of its own starts as zero. -/
def staticField (c : ClassDef) (f : FieldDef) : Pooled (Entry Label) := do
  let type := IrType.storage f.type
  let value ←
    match f.initial with
    | none => pure (.zeroOf type)
    | some initial =>
      match initial.contents? type with
      | some contents => modifyGet contents
      | none => throw (.kind (c.name ++ "." ++ f.name) (.initialValue initial f.type))
  return .data (.field c.name f.name) .data type (.value value)

/-- The data of all static fields of a class. -/
def staticEntries (c : ClassDef) : Pooled (List (Entry Label)) := c.staticFields.mapM c.staticField

end ClassDef

end ObjectBackend
