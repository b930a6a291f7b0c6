import ObjectBackend.Lowering.Context
import ObjectBackend.Lowering.Emit

/-!
# Calls

A call that needs no object, or one particular method of it, goes to the method that its reference
resolves to. A virtual call loads the method from the metadata of the object's class: a slot that a
class owns stands behind the header in the metadata of that class, a slot that an interface owns
within the header. A virtual call to a method without slot goes to that method.
-/

namespace ObjectBackend.Lowering

open Target

/-- The index of the first interface slot in the header of metadata. -/
def interfaceSlotIndex : Nat := 5

/-- The method that a reference resolves to. -/
def directCallee (c : Context) (method : MethodRef) (isStatic : Bool) :
    Except BackendError Symbol :=
  match c.program.resolveMethod? method with
  | none => .error (.missingMethod .declared method)
  | some (owner, m) =>
    if m.isStatic ≠ isStatic then c.mismatch (.staticness method m.isStatic)
    else if m.isAbstract then .error (.missingMethod .concrete method)
    else .ok (.method (owner.reference m))

/-- Load the method in a slot of an object's class. -/
def loadSlot (inst : Var) (slot : Slot) : Emit Value := do
  let metadata ← .define (.load .ptr (.ofVar inst))
  let address ← .define
    (match slot with
    | .ofClass owner n => .fieldOf (.named (.metadata owner)) metadata [0, 1 + n]
    | .ofInterface n => .fieldOf (.runtime .header) metadata [0, interfaceSlotIndex + n])
  .define (.load .ptr address)

/-- The method that a call goes to. -/
def callee (c : Context) (inst : Option Var) (method : MethodRef) (kind : InvocationKind) :
    Except BackendError (Emit Value) := do
  let direct : Except BackendError (Emit Value) := do
    return pure (.symbol (← directCallee c method (kind = .static)))
  match kind, inst with
  | .virtual, some inst =>
    match c.backend.tables.resolve? c.program method with
    | some slot => return loadSlot inst slot
    | none => direct
  | _, _ => direct

/-- The object and the arguments of a call, of the types that the method declares. -/
def callArguments (c : Context) (inst : Option Var) (method : MethodRef) (arguments : List Var) :
    Except BackendError (List Target.Operand) := do
  inst.forM c.expectReference
  let given ← (arguments.zip method.signature.parameters).mapM fun (argument, parameter) => do
    c.expect argument (.ofValue parameter)
    return Operand.mk (.ofValue parameter) (.ofVar argument)
  return (inst.map fun v => Operand.ptr (.ofVar v)).toList ++ given

/-- Code for a call. -/
def invoke (c : Context) (receiver inst : Option Var) (method : MethodRef) (arguments : List Var)
    (kind : InvocationKind) : Except BackendError (Emit Unit) := do
  if arguments.length ≠ method.signature.parameters.length then
    c.mismatch (.argumentCount method arguments.length)
  if (kind = .static) ≠ inst.isNone then c.malformed (.callInstance kind method inst)
  let operands ← callArguments c inst method arguments
  let result := IrType.ofValue method.signature.result
  receiver.forM fun v => do
    if result = .void then c.mismatch (.noResult method v)
    c.expect v result
  let target ← callee c inst method kind
  return do
    let call := Instr.call result (← target) operands
    match receiver with
    | some v => .assignVar v call
    | none => .run call

end ObjectBackend.Lowering
