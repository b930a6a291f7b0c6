import ObjectBackend.Backend.Basic
import ObjectBackend.Flow.Liveness
import ObjectBackend.Target.Instr

/-!
# The method that is lowered

What is known of a method while its body is lowered, and the checks of how variables are used. Every
check comes before the code it is for: it finds what the code needs or says what is wrong.
-/

namespace ObjectBackend.Lowering

open Target

/-- A method with its body and what is known about them in advance. -/
structure Context where
  backend : Backend
  owner : ClassDef
  method : MethodDef
  body : Body
  liveness : Liveness

namespace Context

/-- The context of a method with a body. -/
def ofBody (backend : Backend) (owner : ClassDef) (method : MethodDef) (body : Body) : Context :=
  { backend, owner, method, body, liveness := Liveness.analyze body }

/-- The whole program. -/
def program (c : Context) : Program := c.backend.program

/-- The reference to the method. -/
def reference (c : Context) : MethodRef := c.owner.reference c.method

/-- The type of the method's result. -/
def result (c : Context) : IrType := .ofValue c.method.signature.result

/-- The failure of a use that does not fit. -/
def mismatch {α : Type} (c : Context) (fault : KindFault) : Except BackendError α :=
  .error (.kind c.reference.text fault)

/-- The failure of a body that is not well formed. -/
def malformed {α : Type} (c : Context) (fault : BodyFault) : Except BackendError α :=
  .error (.body c.reference fault)

/-- The kind of a variable. -/
def kindOf (c : Context) (v : Var) : Except BackendError Kind :=
  match c.body.kindOf v with
  | some kind => .ok kind
  | none => c.malformed (.unknownVariable v)

/-- The type of a variable's register. -/
def typeOf (c : Context) (v : Var) : Except BackendError IrType := do
  return .ofKind (← c.kindOf v)

/-- Check that a variable's register has a type. -/
def expect (c : Context) (v : Var) (type : IrType) : Except BackendError Unit := do
  let actual ← c.typeOf v
  unless actual = type do c.mismatch (.wrongType v actual type)

/-- Check that a variable is a reference. -/
def expectReference (c : Context) (v : Var) : Except BackendError Unit := do
  unless (← c.kindOf v).isReference do c.mismatch (.notReference v)

/-- The kind of the elements of an array variable. -/
def elementKindOf (c : Context) (v : Var) : Except BackendError ElementKind := do
  match ← c.kindOf v with
  | .array kind => return kind
  | kind => c.mismatch (.notArray v kind)

/-- Check that a class or an interface is declared. -/
def expectClass (c : Context) (name : String) : Except BackendError Unit :=
  if (c.program.lookup? name).isSome then .ok () else .error (.missingClass name)

/-- Whether the owner is initialized when the method is entered: static methods other than the
initializer itself, and constructors, see to that. -/
def initializesOwner (c : Context) : Bool :=
  (c.method.isStatic && !c.method.signature.isInitializer || c.method.signature.isConstructor)
    && c.program.needsInitialization c.owner.name

/-- The parameters that are references. -/
def referenceParameters (c : Context) : List Var :=
  ((List.range c.method.arity).map Var.ofIndex).filter fun v =>
    (c.body.kindOf v).any Kind.isReference

/-- The number of cells in the method's frame, if it has one: enough for every call site, that of
the owner's initialization included. -/
def frameSize? (c : Context) : Option Nat :=
  if c.liveness.sites.isEmpty && !c.initializesOwner then none
  else if c.initializesOwner then
    some (max c.liveness.frameSize c.referenceParameters.length)
  else some c.liveness.frameSize

/-- Whether an instruction is a call site in the emitted code; an initialization is one only if
there is something to initialize. -/
def isSite (c : Context) : Instruction → Bool
  | .initClass className => c.program.needsInitialization className
  | i => i.isCallSite

/-- Whether exceptions of a block are handed to its handlers. -/
def hasLanding (c : Context) (b : BasicBlock) : Bool :=
  b.isProtected && (b.instructions.any c.isSite || b.terminator matches .raise _)

/-- Whether a block handles exceptions of another. -/
def isHandler (c : Context) (id : BlockId) : Bool :=
  c.body.blocks.any fun b => b.tryCatches.any (·.handler = id)

end Context

end ObjectBackend.Lowering
