import ObjectBackend.Source.Member
import ObjectBackend.Floating.Word

/-!
# Method bodies

A body is a control-flow graph in single-assignment form: basic blocks that hold phis, straight-line
instructions and one terminator, and the kind of every variable. A block may be protected by
handlers, which count as its successors. For every instruction `defined` and `used` tell which
variables it writes and reads, and `isCallSite` whether it may allocate, run other code or unwind.
-/

namespace ObjectBackend

open Floating (Binary32 Binary64)

/-- A variable of a body, by its number. -/
structure Var where
  number : UInt32
deriving DecidableEq

namespace Var

/-- The position of the variable's kind in the body. -/
def index (v : Var) : Nat := v.number.toNat

/-- The variable at a position. -/
def ofIndex (i : Nat) : Var := ⟨UInt32.ofNat i⟩

/-- The name a variable goes by. -/
def text (v : Var) : String := "v" ++ toString v.index

end Var

/-- A basic block of a body, by its number. -/
structure BlockId where
  number : UInt32
deriving DecidableEq

namespace BlockId

/-- The position of the block in the body. -/
def index (b : BlockId) : Nat := b.number.toNat

/-- The block at a position. -/
def ofIndex (i : Nat) : BlockId := ⟨UInt32.ofNat i⟩

/-- The block where a body is entered. -/
def entry : BlockId := ⟨0⟩

/-- The name a block goes by. -/
def text (b : BlockId) : String := "b" ++ toString b.index

end BlockId

/-- The operators of binary arithmetic; `compare` gives -1, 0 or 1. -/
inductive BinaryOperator where
  | add
  | subtract
  | multiply
  | divide
  | modulo
  | compare
  | and
  | or
  | xor
  | shiftLeft
  | shiftRight
  | shiftRightUnsigned
deriving DecidableEq

namespace BinaryOperator

/-- The name an operator goes by. -/
def name : BinaryOperator → String
  | add => "add"
  | subtract => "subtract"
  | multiply => "multiply"
  | divide => "divide"
  | modulo => "modulo"
  | compare => "compare"
  | and => "and"
  | or => "or"
  | xor => "xor"
  | shiftLeft => "shift_left"
  | shiftRight => "shift_right"
  | shiftRightUnsigned => "shift_right_unsigned"

/-- Every operator. -/
def all : List BinaryOperator :=
  [add, subtract, multiply, divide, modulo, compare, and, or, xor, shiftLeft, shiftRight,
    shiftRightUnsigned]

end BinaryOperator

/-- The direction of a conversion between `int` and a short integer; either way the variable holds
an `int`. -/
inductive CastDirection where
  | toInteger
  | fromInteger
deriving DecidableEq

namespace CastDirection

/-- The name a direction goes by. -/
def name : CastDirection → String
  | toInteger => "to_integer"
  | fromInteger => "from_integer"

/-- Both directions. -/
def all : List CastDirection := [toInteger, fromInteger]

end CastDirection

/-- How a method is called: directly on an instance, without one, or through the instance's class.
-/
inductive InvocationKind where
  | special
  | static
  | virtual
deriving DecidableEq

namespace InvocationKind

/-- The name a kind of call goes by. -/
def name : InvocationKind → String
  | special => "special"
  | static => "static"
  | virtual => "virtual"

/-- Every kind of call. -/
def all : List InvocationKind := [special, static, virtual]

end InvocationKind

/-- The straight-line instructions. -/
inductive Instruction where
  | nop
  | nullConstant (receiver : Var)
  | classConstant (receiver : Var) (type : ValueType)
  | intConstant (receiver : Var) (value : Int32)
  | longConstant (receiver : Var) (value : Int64)
  | floatConstant (receiver : Var) (value : Binary32)
  | doubleConstant (receiver : Var) (value : Binary64)
  | stringConstant (receiver : Var) (value : String)
  | binary (operator : BinaryOperator) (receiver first second : Var) (operand : Numeric)
  | negate (receiver operand : Var) (type : Numeric)
  | assign (receiver assignee : Var)
  | cast (receiver value : Var) (target : ValueType)
  | numericCast (receiver value : Var) (source target : Numeric)
  | integerCast (receiver value : Var) (subword : Subword) (direction : CastDirection)
  | construct (receiver : Var) (className : String)
  | constructArray (receiver : Var) (item : ValueType) (size : Var)
  | constructMultiArray (receiver : Var) (item : ValueType) (dimensions : List Var)
  | getField (receiver : Var) (inst : Option Var) (field : FieldRef) (type : ValueType)
  | putField (inst : Option Var) (field : FieldRef) (value : Var) (type : ValueType)
  | arrayLength (receiver array : Var)
  | cloneArray (receiver array : Var)
  | unwrapArray (receiver array : Var)
  | getElement (receiver array index : Var)
  | putElement (array index value : Var)
  | invoke (receiver inst : Option Var) (method : MethodRef) (arguments : List Var)
      (kind : InvocationKind)
  | invokeDynamic (receiver : Option Var) (name : String) (arguments : List Var)
  | isInstance (receiver value : Var) (type : ValueType)
  | initClass (className : String)
  | nullCheck (receiver value : Var)
  | monitorEnter (object : Var)
  | monitorExit (object : Var)
deriving DecidableEq

namespace Instruction

/-- The variable an instruction writes, if any. -/
def defined : Instruction → Option Var
  | nop | putField .. | putElement .. | initClass _ | monitorEnter _ | monitorExit _ => none
  | nullConstant receiver
  | classConstant receiver _
  | intConstant receiver _
  | longConstant receiver _
  | floatConstant receiver _
  | doubleConstant receiver _
  | stringConstant receiver _
  | binary _ receiver _ _ _
  | negate receiver _ _
  | assign receiver _
  | cast receiver _ _
  | numericCast receiver _ _ _
  | integerCast receiver _ _ _
  | construct receiver _
  | constructArray receiver _ _
  | constructMultiArray receiver _ _
  | getField receiver _ _ _
  | arrayLength receiver _
  | cloneArray receiver _
  | unwrapArray receiver _
  | getElement receiver _ _
  | isInstance receiver _ _
  | nullCheck receiver _ => some receiver
  | invoke receiver _ _ _ _ => receiver
  | invokeDynamic receiver _ _ => receiver

/-- The variables an instruction reads, in operand order. -/
def used : Instruction → List Var
  | nop
  | nullConstant _
  | classConstant _ _
  | intConstant _ _
  | longConstant _ _
  | floatConstant _ _
  | doubleConstant _ _
  | stringConstant _ _
  | construct _ _
  | initClass _ => []
  | binary _ _ first second _ => [first, second]
  | negate _ operand _ => [operand]
  | assign _ assignee => [assignee]
  | cast _ value _
  | numericCast _ value _ _
  | integerCast _ value _ _
  | isInstance _ value _
  | nullCheck _ value => [value]
  | constructArray _ _ size => [size]
  | constructMultiArray _ _ dimensions => dimensions
  | getField _ inst _ _ => inst.toList
  | putField inst _ value _ => inst.toList ++ [value]
  | arrayLength _ array | cloneArray _ array | unwrapArray _ array => [array]
  | getElement _ array index => [array, index]
  | putElement array index value => [array, index, value]
  | invoke _ inst _ arguments _ => inst.toList ++ arguments
  | invokeDynamic _ _ arguments => arguments
  | monitorEnter object | monitorExit object => [object]

/-- Whether an instruction may allocate, run other code or unwind. The live references have to be
known exactly at these places. -/
def isCallSite : Instruction → Bool
  | invoke .. | invokeDynamic .. | construct .. | constructArray .. | constructMultiArray ..
  | cloneArray .. | initClass .. => true
  | _ => false

end Instruction

/-- The tests of one operand against zero or null. -/
inductive BranchCondition where
  | equal
  | notEqual
  | less
  | lessOrEqual
  | greater
  | greaterOrEqual
  | null
  | notNull
deriving DecidableEq

namespace BranchCondition

/-- The name a test goes by. -/
def name : BranchCondition → String
  | equal => "equal"
  | notEqual => "not_equal"
  | less => "less"
  | lessOrEqual => "less_or_equal"
  | greater => "greater"
  | greaterOrEqual => "greater_or_equal"
  | null => "null"
  | notNull => "not_null"

/-- Every test of one operand. -/
def all : List BranchCondition :=
  [equal, notEqual, less, lessOrEqual, greater, greaterOrEqual, null, notNull]

end BranchCondition

/-- The tests of two operands. -/
inductive BinaryBranchCondition where
  | equal
  | notEqual
  | referenceEqual
  | referenceNotEqual
deriving DecidableEq

namespace BinaryBranchCondition

/-- The name a test goes by. -/
def name : BinaryBranchCondition → String
  | equal => "equal"
  | notEqual => "not_equal"
  | referenceEqual => "reference_equal"
  | referenceNotEqual => "reference_not_equal"

/-- Every test of two operands. -/
def all : List BinaryBranchCondition := [equal, notEqual, referenceEqual, referenceNotEqual]

end BinaryBranchCondition

/-- How a block is left; `unreachable` stands for a terminator not yet given. -/
inductive Terminator where
  | jump (target : BlockId)
  | branch (condition : BranchCondition) (operand : Var) (consequent alternative : BlockId)
  | binaryBranch (condition : BinaryBranchCondition) (first second : Var)
      (consequent alternative : BlockId)
  | switch (condition : Var) (table : List (Int32 × BlockId)) (otherwise : BlockId)
  | exit (value : Option Var)
  | raise (exception : Var)
  | unreachable
deriving DecidableEq

/-- Append an element unless the list holds it already. -/
def insertNew {α : Type} [DecidableEq α] (xs : List α) (x : α) : List α :=
  if x ∈ xs then xs else xs ++ [x]

namespace Terminator

/-- The blocks a terminator may go to, each once, in the order they are named. -/
def successors : Terminator → List BlockId
  | jump target => [target]
  | branch _ _ consequent alternative
  | binaryBranch _ _ _ consequent alternative => insertNew [consequent] alternative
  | switch _ table otherwise => insertNew ((table.map (·.2)).foldl insertNew []) otherwise
  | exit _ | raise _ | unreachable => []

/-- The variables a terminator reads. -/
def used : Terminator → List Var
  | branch _ operand _ _ => [operand]
  | binaryBranch _ first second _ _ => [first, second]
  | switch condition _ _ => [condition]
  | exit value => value.toList
  | raise exception => [exception]
  | jump _ | unreachable => []

end Terminator

/-- One value of a phi and the block it comes from. -/
structure Incoming where
  source : BlockId
  value : Var
deriving DecidableEq

/-- A variable whose value depends on the edge by which its block is entered. -/
structure Phi where
  receiver : Var
  incomings : List Incoming
deriving DecidableEq

/-- A handler of exceptions: of one class and its subclasses, or of all. -/
structure TryCatch where
  exceptionType : Option String
  handler : BlockId
deriving DecidableEq

/-- A basic block. The handlers protect every instruction that throws, in the order they are tried;
a handler itself may receive the caught exception in a variable. -/
structure BasicBlock where
  phis : List Phi
  instructions : List Instruction
  terminator : Terminator
  tryCatches : List TryCatch
  exceptionVariable : Option Var
deriving DecidableEq

namespace BasicBlock

/-- A block without contents. -/
def empty : BasicBlock :=
  { phis := [], instructions := [], terminator := .unreachable, tryCatches := []
    exceptionVariable := none }

/-- Whether a terminator has been given. -/
def isTerminated (b : BasicBlock) : Bool := b.terminator ≠ .unreachable

/-- Whether a handler protects the block. -/
def isProtected (b : BasicBlock) : Bool := !b.tryCatches.isEmpty

/-- The targets of the terminator, then the handlers, each once. -/
def successors (b : BasicBlock) : List BlockId :=
  (b.tryCatches.map (·.handler)).foldl insertNew b.terminator.successors

end BasicBlock

/-- A method body: the kind of every variable, and the blocks, the first of which is the entry. -/
structure Body where
  kinds : List Kind
  blocks : List BasicBlock
deriving DecidableEq

namespace Body

/-- The kind of a variable. -/
def kindOf (b : Body) (v : Var) : Option Kind := b.kinds[v.index]?

/-- The block with a number. -/
def block? (b : Body) (id : BlockId) : Option BasicBlock := b.blocks[id.index]?

/-- The successors of a block, handlers included; none for a block that does not exist. -/
def successors (b : Body) (id : BlockId) : List BlockId :=
  match b.block? id with
  | none => []
  | some block => block.successors

/-- The blocks with their numbers, in order. -/
def numberedBlocks (b : Body) : List (BlockId × BasicBlock) :=
  b.blocks.zipIdx.map fun (block, i) => (BlockId.ofIndex i, block)

end Body

end ObjectBackend
