import ObjectBackend.Lowering.Frame

/-!
# Control flow

The code of phis and terminators. A phi has a value for every edge of the emitted code: the edges of
a block's terminator leave its last part, and those to its handlers leave its landing pad.
-/

namespace ObjectBackend

open Target

/-- The number of edges of a terminator to a block. -/
def Terminator.edgesTo (t : Terminator) (target : BlockId) : Nat :=
  match t with
  | jump next => [next].count target
  | branch _ _ consequent alternative
  | binaryBranch _ _ _ consequent alternative => [consequent, alternative].count target
  | switch _ table otherwise => (otherwise :: table.map (·.2)).count target
  | exit _ | raise _ | unreachable => 0

namespace BranchCondition

/-- The comparison with zero or null that a condition makes. -/
def predicate : BranchCondition → Predicate
  | equal | null => .eq
  | notEqual | notNull => .ne
  | less => .slt
  | lessOrEqual => .sle
  | greater => .sgt
  | greaterOrEqual => .sge

/-- Whether a condition compares with null. -/
def isNullTest : BranchCondition → Bool
  | null | notNull => true
  | _ => false

/-- Whether a condition needs an order. -/
def isOrdered : BranchCondition → Bool
  | less | lessOrEqual | greater | greaterOrEqual => true
  | _ => false

end BranchCondition

namespace BinaryBranchCondition

/-- The comparison that a condition makes. -/
def predicate : BinaryBranchCondition → Predicate
  | equal | referenceEqual => .eq
  | notEqual | referenceNotEqual => .ne

/-- Whether a condition compares references. -/
def isReference : BinaryBranchCondition → Bool
  | referenceEqual | referenceNotEqual => true
  | _ => false

end BinaryBranchCondition

namespace Lowering

/-- The end of what comes before the first block: initializing the owner ends a part of it. -/
def startEnd (c : Context) : Label := if c.initializesOwner then .split .entry 0 else .entry

/-- The values of a phi for the edges from one block to another. -/
def incomingEdges (c : Context) (id : BlockId) (type : IrType) (i : Incoming) :
    Except BackendError (List (Value × Source Label)) := do
  c.expect i.value type
  match c.body.block? i.source with
  | none => c.malformed (.unknownSource i.source)
  | some source =>
    let direct := List.replicate (source.terminator.edgesTo id) (Source.block i.source)
    let caught := if c.hasLanding source then (source.tryCatches.map (·.handler)).count id else 0
    let sources := direct ++ List.replicate caught (.label (.landing i.source))
    return sources.map (Value.ofVar i.value, ·)

/-- Code for a phi. The first block is also entered from outside, without a value. -/
def phi (c : Context) (id : BlockId) (p : Phi) : Except BackendError (Emit Unit) := do
  let type ← c.typeOf p.receiver
  let edges ← p.incomings.mapM (incomingEdges c id type)
  let start := if id = .entry then [(Value.undef, Source.label (startEnd c))] else []
  return .phi (.ofVar p.receiver) type (start ++ edges.flatten)

/-- Code for a comparison with zero or null. -/
def branchTest (c : Context) (condition : BranchCondition) (operand : Var) :
    Except BackendError (Emit Value) := do
  let type ← c.typeOf operand
  if condition.isNullTest && type ≠ .ptr then c.mismatch (.nullTest type operand)
  if type ≠ .ptr && !type.isInteger then c.mismatch (.branch type operand)
  if condition.isOrdered && type = .ptr then c.mismatch (.orderedReference operand)
  return .define (.icmp condition.predicate type (.ofVar operand) (.zeroOf type))

/-- Code for a comparison of two variables. -/
def binaryBranchTest (c : Context) (condition : BinaryBranchCondition) (first second : Var) :
    Except BackendError (Emit Value) := do
  let type ← c.typeOf first
  c.expect second type
  unless if condition.isReference then type = .ptr else type.isInteger do
    c.mismatch (.comparison condition type)
  return .define (.icmp condition.predicate type (.ofVar first) (.ofVar second))

/-- Code that returns from the method, with a value exactly if it has a result. -/
def exit (c : Context) (value : Option Var) : Except BackendError (Emit Unit) := do
  match value with
  | none =>
    unless c.result = .void do c.malformed (.missingResult c.result)
    return returnValue c none
  | some v =>
    if c.result = .void then c.mismatch (.voidReturns v)
    c.expect v c.result
    return returnValue c (some (.ofVar v))

/-- Code that throws an exception: a call site that never goes on. -/
def raise (c : Context) (id : BlockId) (b : BasicBlock) (exception : Var) :
    Except BackendError (Emit Unit) := do
  c.expectReference exception
  let handled ← handledClasses c b
  return do
    let _ ← .call .void (.runtime .throw) [.ptr (.ofVar exception)]
    let site ← beginSite c.frameSize? [] handled
    .leave (.br (← exceptionTarget (.ofBlock id b) site))

/-- Code for the terminator of a block. -/
def terminator (c : Context) (id : BlockId) (b : BasicBlock) :
    Except BackendError (Emit Unit) := do
  match b.terminator with
  | .jump target => return .leave (.br (.block target))
  | .branch condition operand consequent alternative =>
    let test ← branchTest c condition operand
    return do .leave (.condBr (← test) (.block consequent) (.block alternative))
  | .binaryBranch condition first second consequent alternative =>
    let test ← binaryBranchTest c condition first second
    return do .leave (.condBr (← test) (.block consequent) (.block alternative))
  | .switch condition table otherwise =>
    c.expect condition .i32
    return .leave (.switch .i32 (.ofVar condition) (.block otherwise)
      (table.map fun (key, target) => (key.toInt, .block target)))
  | .exit value => exit c value
  | .raise exception => raise c id b exception
  | .unreachable => return .leave .unreachable

end Lowering

end ObjectBackend
