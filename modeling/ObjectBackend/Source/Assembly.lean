import ObjectBackend.Source.Program

/-!
# Assembling programs

Bodies, classes and programs put together step by step. A `BodyDraft` is a body with a selected
block, into which instructions go; a step that makes a value allocates a variable of the right kind
for it. The steps on a class add one member each.
-/

namespace ObjectBackend

open Floating

/-- A body under construction, and the block that is being filled. -/
structure BodyDraft where
  body : Body
  current : BlockId

namespace BodyDraft

/-- A body with one empty block, which is selected. -/
def start : BodyDraft := { body := { kinds := [], blocks := [.empty] }, current := .entry }

/-- Allocate a variable. -/
def newVar (d : BodyDraft) (kind : Kind) : Var × BodyDraft :=
  (.ofIndex d.body.kinds.length,
    { d with body := { d.body with kinds := d.body.kinds ++ [kind] } })

/-- Allocate an empty block. -/
def newBlock (d : BodyDraft) : BlockId × BodyDraft :=
  (.ofIndex d.body.blocks.length,
    { d with body := { d.body with blocks := d.body.blocks ++ [.empty] } })

/-- Select a block. -/
def select (d : BodyDraft) (block : BlockId) : BodyDraft := { d with current := block }

/-- Change the selected block. -/
def modify (d : BodyDraft) (change : BasicBlock → BasicBlock) : BodyDraft :=
  { d with body := { d.body with blocks := d.body.blocks.modify d.current.index change } }

/-- Append an instruction. -/
def emit (d : BodyDraft) (i : Instruction) : BodyDraft :=
  d.modify fun b => { b with instructions := b.instructions ++ [i] }

/-- Give the selected block its terminator. -/
def terminate (d : BodyDraft) (t : Terminator) : BodyDraft :=
  d.modify fun b => { b with terminator := t }

/-- Append a phi. -/
def addPhi (d : BodyDraft) (phi : Phi) : BodyDraft :=
  d.modify fun b => { b with phis := b.phis ++ [phi] }

/-- Protect the selected block by a further handler. -/
def protect (d : BodyDraft) (handler : TryCatch) : BodyDraft :=
  d.modify fun b => { b with tryCatches := b.tryCatches ++ [handler] }

/-- Let the selected block receive the caught exception. -/
def catchInto (d : BodyDraft) (v : Var) : BodyDraft :=
  d.modify fun b => { b with exceptionVariable := some v }

/-- Append an instruction that makes a value of a kind. -/
def make (d : BodyDraft) (kind : Kind) (instruction : Var → Instruction) : Var × BodyDraft :=
  let (receiver, d) := d.newVar kind
  (receiver, d.emit (instruction receiver))

/-- Append an operation of two operands. A comparison makes an `int` whatever it compares. -/
def makeBinary (d : BodyDraft) (operator : BinaryOperator) (first second : Var)
    (operand : Numeric) : Var × BodyDraft :=
  let kind := if operator = .compare then .int else operand.kind
  d.make kind fun receiver => .binary operator receiver first second operand

/-- Append the making of an array. -/
def makeArray (d : BodyDraft) (item : ValueType) (size : Var) : Var × BodyDraft :=
  d.make (.array item.elementKind) fun receiver => .constructArray receiver item size

/-- The kind of a variable that stands for a declared value; a void one is held as an `int`. -/
def kindFor (type : ValueType) : Kind := type.kind.getD .int

/-- Append the reading of a field. -/
def makeGetField (d : BodyDraft) (inst : Option Var) (field : FieldRef) (type : ValueType) :
    Var × BodyDraft :=
  d.make (kindFor type) fun receiver => .getField receiver inst field type

/-- Append a call, which makes a value unless the method's result is void. -/
def makeCall (d : BodyDraft) (kind : InvocationKind) (method : MethodRef) (inst : Option Var)
    (arguments : List Var) : Option Var × BodyDraft :=
  match method.signature.result.kind with
  | none => (none, d.emit (.invoke none inst method arguments kind))
  | some resultKind =>
    let (receiver, d) := d.make resultKind fun receiver =>
      .invoke (some receiver) inst method arguments kind
    (some receiver, d)

/-- Allocate a variable for each kind. -/
def newVars (d : BodyDraft) : List Kind → List Var × BodyDraft
  | [] => ([], d)
  | kind :: kinds =>
    let (v, d) := d.newVar kind
    let (vs, d) := d.newVars kinds
    (v :: vs, d)

/-- The start of a static method's body: its parameters are the first variables. -/
def startStatic (parameters : List ValueType) : List Var × BodyDraft :=
  start.newVars (parameters.map kindFor)

/-- The start of an instance method's body: the instance comes before the parameters. -/
def startInstance (parameters : List ValueType) : List Var × BodyDraft :=
  start.newVars (.object :: parameters.map kindFor)

end BodyDraft

namespace FieldDef

/-- A field of instances without initial value. -/
def ofInstance (name : String) (type : ValueType) : FieldDef :=
  { name, isStatic := false, type, initial := none }

/-- A field of the class without initial value. -/
def ofClass (name : String) (type : ValueType) : FieldDef :=
  { name, isStatic := true, type, initial := none }

end FieldDef

namespace MethodDef

/-- A method of instances that everyone may use, with a body if one is given. -/
def ofInstance (signature : Signature) (body : Option Body) : MethodDef :=
  { signature, isStatic := false, isNative := false, isAbstract := false, access := .anyClass
    body }

/-- A method of the class. -/
def ofClass (signature : Signature) (body : Body) : MethodDef :=
  { ofInstance signature body with isStatic := true }

/-- A method that only the class itself may use. -/
def ofPrivate (signature : Signature) (body : Body) : MethodDef :=
  { ofInstance signature body with access := .sameClass }

/-- A method without a body, to be overridden. -/
def ofAbstract (signature : Signature) : MethodDef :=
  { ofInstance signature none with isAbstract := true }

/-- A method whose body is elsewhere. -/
def ofNative (signature : Signature) (isStatic : Bool) : MethodDef :=
  { ofInstance signature none with isNative := true, isStatic }

end MethodDef

namespace ClassDef

/-- An interface without members. -/
def emptyInterface (name : String) : ClassDef :=
  { empty name with isInterface := true, isAbstract := true }

/-- Give the class a parent. -/
def extend (c : ClassDef) (parent : String) : ClassDef := { c with parent := some parent }

/-- Let the class implement a further interface. -/
def implement (c : ClassDef) (name : String) : ClassDef :=
  { c with interfaces := c.interfaces ++ [name] }

/-- Make the class abstract. -/
def makeAbstract (c : ClassDef) : ClassDef := { c with isAbstract := true }

/-- Append a field. -/
def addField (c : ClassDef) (f : FieldDef) : ClassDef := { c with fields := c.fields ++ [f] }

/-- Append a method. -/
def addMethod (c : ClassDef) (m : MethodDef) : ClassDef := { c with methods := c.methods ++ [m] }

end ClassDef

end ObjectBackend
