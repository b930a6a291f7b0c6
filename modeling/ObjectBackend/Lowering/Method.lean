import ObjectBackend.Lowering.Arithmetic
import ObjectBackend.Lowering.Call
import ObjectBackend.Lowering.Control
import ObjectBackend.Lowering.TypeTest

/-!
# Methods

The code of instructions, of blocks and of whole methods. A body is checked completely, in the order
of its blocks, before any code is emitted for it.
-/

namespace ObjectBackend.Lowering

open Target

/-- Code for an instruction that is no call site. -/
def plainInstruction (c : Context) : Instruction → Except BackendError (Emit Unit)
  | .nop | .monitorEnter _ | .monitorExit _ => return pure ()
  | .nullConstant receiver => do
    c.expect receiver .ptr
    return .copyTo receiver .ptr .null
  | .classConstant receiver type => classConstant c receiver type
  | .intConstant receiver value => do
    c.expect receiver .i32
    return .copyTo receiver .i32 (.int value.toInt)
  | .longConstant receiver value => do
    c.expect receiver .i64
    return .copyTo receiver .i64 (.int value.toInt)
  | .floatConstant receiver value => do
    c.expect receiver .float
    return .copyTo receiver .float (.real value.widen)
  | .doubleConstant receiver value => do
    c.expect receiver .double
    return .copyTo receiver .double (.real value)
  | .stringConstant receiver value => do
    c.expect receiver .ptr
    return do .copyTo receiver .ptr (← .literal value)
  | .binary operator receiver first second operand =>
    binary c operator receiver first second operand
  | .negate receiver operand type => negation c receiver operand type
  | .assign receiver assignee => do
    let type ← c.typeOf receiver
    c.expect assignee type
    return .copyTo receiver type (.ofVar assignee)
  | .cast receiver value _ | .nullCheck receiver value | .unwrapArray receiver value => do
    c.expectReference value
    c.expectReference receiver
    return .copyTo receiver .ptr (.ofVar value)
  | .numericCast receiver value source target => numericCast c receiver value source target
  | .integerCast receiver value subword _ => integerCast c receiver value subword
  | .getField receiver inst field type => getField c receiver inst field type
  | .putField inst field value type => putField c inst field value type
  | .arrayLength receiver array => arrayLength c receiver array
  | .getElement receiver array index => getElement c receiver array index
  | .putElement array index value => putElement c array index value
  | .isInstance receiver value type => isInstance c receiver value type
  | .invoke .. | .invokeDynamic .. | .construct .. | .constructArray ..
  | .constructMultiArray .. | .cloneArray .. | .initClass _ => c.malformed .unexpectedSite

/-- Code for an instruction that is a call site. -/
def siteInstruction (c : Context) : Instruction → Except BackendError (Emit Unit)
  | .invoke receiver inst method arguments kind => invoke c receiver inst method arguments kind
  | .invokeDynamic _ name _ => .error (.unsupported (.dynamicCall name))
  | .construct receiver className => construct c receiver className
  | .constructArray receiver item size => constructArray c receiver item size
  | .constructMultiArray receiver item dimensions => constructMultiArray c receiver item dimensions
  | .cloneArray receiver array => cloneArray c receiver array
  | .initClass className => return callInitializer className
  | _ => c.malformed .noSite

/-- Code for the instruction at a position of a block. -/
def instruction (c : Context) (id : BlockId) (b : BasicBlock) (i : Instruction) (position : Nat) :
    Except BackendError (Emit Unit) := do
  if !i.isCallSite then plainInstruction c i
  else if !c.isSite i then return pure ()
  else
    let handled ← handledClasses c b
    let code ← siteInstruction c i
    let live := ((c.liveness.siteAt? id position).map (·.live)).getD []
    return site c (.ofBlock id b) handled live code

/-- A comment that describes an instruction, if comments are wanted. -/
def comment (c : Context) (i : Instruction) : Emit Unit :=
  if c.backend.settings.comments then .line (.comment i.description) else pure ()

/-- Code that receives the exception a handler is entered with. -/
def receiveException (c : Context) (id : BlockId) (b : BasicBlock) :
    Except BackendError (Emit Unit) := do
  if !c.isHandler id then return pure ()
  else
    b.exceptionVariable.forM fun v => c.expect v .ptr
    return do
      let exception ← .call .ptr (.runtime .catchException) []
      match b.exceptionVariable, exception with
      | some v, some exception => .copyTo v .ptr exception
      | _, _ => pure ()

/-- Code for a block. -/
def block (c : Context) (id : BlockId) (b : BasicBlock) : Except BackendError (Emit Unit) := do
  let phis ← b.phis.mapM (phi c id)
  let received ← receiveException c id b
  let instructions ← b.instructions.zipIdx.mapM fun (i, position) => do
    let code ← instruction c id b i position
    return do
      comment c i
      code
  let last ← terminator c id b
  return do
    .continueAt (.block id)
    phis.forM fun code => code
    received
    instructions.forM fun code => code
    last
    .onDraft fun d => ((), d.finishBlock id)
    landingPad id b

/-- What comes before the first block: the frame is made and the owner initialized. -/
def start (c : Context) : Emit Unit := do
  c.frameSize?.forM pushFrame
  if c.initializesOwner then
    site c .start [] c.referenceParameters (callInitializer c.owner.name)
  .leave (.br (.block .entry))

/-- Code for a body. -/
def body (c : Context) : Except BackendError (Emit Unit) := do
  if c.body.blocks.isEmpty then c.malformed .noBlocks
  let blocks ← c.body.numberedBlocks.mapM fun (id, b) => block c id b
  return do
    start c
    c.body.numberedBlocks.forM fun (id, _) => .appendBlock (.block id)
    blocks.forM fun code => code
    exitBlock c
    unwindBlock c

/-- The kinds that a method declares its parameters with, the object itself first. -/
def declaredKinds (m : MethodDef) : List Kind :=
  (if m.isStatic then [] else [.object]) ++ m.signature.parameters.filterMap ValueType.kind

/-- The parameters, which are the first variables of the body. -/
def parameters (c : Context) : Except BackendError (List Target.Operand) := do
  if c.body.kinds.length < c.method.arity then
    c.malformed (.tooFewVariables c.method.arity c.body.kinds.length)
  (c.body.kinds.zip (declaredKinds c.method)).zipIdx.mapM fun ((actual, declared), i) => do
    unless actual = declared || actual.isReference && declared.isReference do
      c.mismatch (.parameter (.ofIndex i) actual declared)
    return Operand.mk (.ofKind actual) (.ofVar (.ofIndex i))

/-- The function of a method with a body. -/
def function (c : Context) : Pooled (Function Label) := do
  let parameters ← parameters c
  let code ← body c
  let ((), finished) := StateT.run code
    { draft := .start (.method c.reference) c.result parameters
      pools := ← get
      landings := []
      exits := []
      unwinds := false }
  set finished.pools
  return finished.draft.finish

/-- The types of a method's parameters, the object itself first. -/
def parameterTypes (m : MethodDef) : List IrType :=
  (if m.isStatic then [] else [.ptr]) ++ m.signature.parameters.map IrType.ofValue

/-- The entry of a method in the module: a declaration if its code is elsewhere, none if it has no
code. -/
def method (b : Backend) (owner : ClassDef) (m : MethodDef) : Pooled (Option (Entry Label)) := do
  let reference := owner.reference m
  if m.isNative then
    return some (.declare (.ofValue m.signature.result) (.method reference) (parameterTypes m))
  else if m.isAbstract then return none
  else
    match m.body with
    | none => throw (.body reference .noBody)
    | some body => return some (.define (← function (.ofBody b owner m body)))

end ObjectBackend.Lowering
