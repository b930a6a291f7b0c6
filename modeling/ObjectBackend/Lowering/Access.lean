import ObjectBackend.Lowering.Context
import ObjectBackend.Lowering.Emit

/-!
# Objects and arrays

The code that makes objects and arrays and accesses their parts. What is loaded from memory is
extended to the width of a register, and what is stored is cut off to the width of memory.
-/

namespace ObjectBackend.Lowering

open Target

/-- How the memory of a type is extended to a register: `boolean` and `char` have no sign. -/
def fieldExtension : ValueType → CastOp
  | .primitive .boolean | .primitive .char => .zext
  | _ => .sext

/-- How an element of a kind is extended to a register. -/
def elementExtension : ElementKind → CastOp
  | .char => .zext
  | _ => .sext

/-- Load a value of a type into a register that may be wider. -/
def loadInto (receiver : Var) (storage register : IrType) (extension : CastOp) (address : Value) :
    Emit Unit := do
  if storage = register then .assignVar receiver (.load storage address)
  else
    let loaded ← .define (.load storage address)
    .assignVar receiver (.cast extension ⟨storage, loaded⟩ register)

/-- Store a value of a register in memory that may be narrower. -/
def storeFrom (value : Var) (storage register : IrType) (address : Value) : Emit Unit := do
  let stored ←
    if register = storage then pure (Value.ofVar value)
    else .define (.cast .trunc ⟨register, .ofVar value⟩ storage)
  .run (.store ⟨storage, stored⟩ address)

/-- The metadata that describes the values of a reference type. -/
def classSymbol (c : Context) : ValueType → Except BackendError Symbol
  | .object className => do
    c.expectClass className
    return .metadata className
  | .array item => return .arrayMetadata item.elementKind
  | type => .error (.unsupported (.classConstant type))

/-- Code for a reference to the metadata of a type. -/
def classConstant (c : Context) (receiver : Var) (type : ValueType) :
    Except BackendError (Emit Unit) := do
  let symbol ← classSymbol c type
  c.expect receiver .ptr
  return .copyTo receiver .ptr (.symbol symbol)

/-- Code for a new object. -/
def construct (c : Context) (receiver : Var) (className : String) :
    Except BackendError (Emit Unit) := do
  c.expectClass className
  if (c.program.layout? className).isNone then c.mismatch (.notInstantiable className)
  c.expect receiver .ptr
  return .assignVar receiver
    (.call .ptr (.ofRuntime .alloc) [.ptr (.symbol (.metadata className))])

/-- The index of the length in the header of an array. -/
def lengthIndex : Int := 1

/-- The index of the class of the elements in the header of an array. -/
def itemClassIndex : Int := 2

/-- Code for a new array. An array of references is told the class of its elements. -/
def constructArray (c : Context) (receiver : Var) (item : ValueType) (size : Var) :
    Except BackendError (Emit Unit) := do
  if item.isVoid then c.mismatch .voidArray
  c.expect size .i32
  c.expect receiver .ptr
  let kind := item.elementKind
  let allocate : Emit Unit := .assignVar receiver
    (.call .ptr (.ofRuntime .allocArray)
      [.ptr (.symbol (.arrayMetadata kind)), .i32 ((IrType.element kind).scalarSize?.getD 8),
        ⟨.i32, .ofVar size⟩])
  if kind = .object then
    let itemClass ← classSymbol c item
    return do
      allocate
      let slot ← .define (.fieldOf (.runtime .array) (.ofVar receiver) [0, itemClassIndex])
      .run (.store (.ptr (.symbol itemClass)) slot)
  else return allocate

/-- Code for a new array of several dimensions, of which only one is supported. -/
def constructMultiArray (c : Context) (receiver : Var) (item : ValueType) :
    List Var → Except BackendError (Emit Unit)
  | [size] => constructArray c receiver item size
  | dimensions => .error (.unsupported (.arrayDimensions dimensions.length))

/-- Code for a copy of an array. -/
def cloneArray (c : Context) (receiver array : Var) : Except BackendError (Emit Unit) := do
  let _ ← c.elementKindOf array
  c.expect receiver .ptr
  return .assignVar receiver (.call .ptr (.ofRuntime .cloneArray) [.ptr (.ofVar array)])

/-- The address of a static field, with the declared type. -/
def staticField (c : Context) (field : FieldRef) :
    Except BackendError (Emit Value × ValueType) :=
  match c.program.resolveField? field with
  | none => .error (.missingField field)
  | some (owner, f) =>
    if f.isStatic then .ok (pure (.symbol (.field owner.name f.name)), f.type)
    else c.mismatch (.staticAccess ⟨owner.name, field.name⟩)

/-- The address of a field of an object, with the declared type. -/
def instanceField (c : Context) (inst : Var) (field : FieldRef) :
    Except BackendError (Emit Value × ValueType) := do
  c.expectReference inst
  match c.program.fieldSlot? field with
  | none => .error (.missingField field)
  | some slot =>
    return (.define (.fieldOf (.named (.instances field.className)) (.ofVar inst) [0, slot.index]),
      slot.type)

/-- The address of a field, whose declared type fits the one it is accessed by. -/
def fieldPlace (c : Context) (inst : Option Var) (field : FieldRef) (used : ValueType) :
    Except BackendError (Emit Value × ValueType) := do
  let (address, declared) ←
    match inst with
    | none => staticField c field
    | some inst => instanceField c inst field
  unless used.kind = declared.kind || used.isReference && declared.isReference do
    c.mismatch (.fieldType field declared used)
  return (address, declared)

/-- Code that reads a field. -/
def getField (c : Context) (receiver : Var) (inst : Option Var) (field : FieldRef)
    (type : ValueType) : Except BackendError (Emit Unit) := do
  let (address, declared) ← fieldPlace c inst field type
  c.expect receiver (.ofValue declared)
  return do
    loadInto receiver (.storage declared) (.ofValue declared) (fieldExtension declared) (← address)

/-- Code that writes a field. -/
def putField (c : Context) (inst : Option Var) (field : FieldRef) (value : Var)
    (type : ValueType) : Except BackendError (Emit Unit) := do
  let (address, declared) ← fieldPlace c inst field type
  c.expect value (.ofValue declared)
  return do
    storeFrom value (.storage declared) (.ofValue declared) (← address)

/-- Code that reads the length of an array. -/
def arrayLength (c : Context) (receiver array : Var) : Except BackendError (Emit Unit) := do
  let _ ← c.elementKindOf array
  c.expect receiver .i32
  return do
    let length ← .define (.fieldOf (.runtime .array) (.ofVar array) [0, lengthIndex])
    .assignVar receiver (.load .i32 length)

/-- The address of an element; the elements follow the header of the array. -/
def elementAddress (array index : Var) (kind : ElementKind) : Emit Value := do
  let items ← .define (.fieldOf (.runtime .array) (.ofVar array) [1])
  .define (.element (.element kind) items [.ofVar index])

/-- Code that reads an element. -/
def getElement (c : Context) (receiver array index : Var) : Except BackendError (Emit Unit) := do
  let kind ← c.elementKindOf array
  c.expect receiver (.ofKind kind.kind)
  c.expect index .i32
  return do
    let address ← elementAddress array index kind
    loadInto receiver (.element kind) (.ofKind kind.kind) (elementExtension kind) address

/-- Code that writes an element. -/
def putElement (c : Context) (array index value : Var) : Except BackendError (Emit Unit) := do
  let kind ← c.elementKindOf array
  c.expect value (.ofKind kind.kind)
  c.expect index .i32
  return do
    let address ← elementAddress array index kind
    storeFrom value (.element kind) (.ofKind kind.kind) address

end ObjectBackend.Lowering
