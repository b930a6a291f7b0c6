import ObjectBackend.Lowering.Context
import ObjectBackend.Lowering.Emit

/-!
# Arithmetic

The code of operators and conversions. Shift distances are reduced to the width of the shifted
number, so that a shift is always defined. A conversion to a short integer cuts the number off and
extends it again, since registers hold short integers as `int`.
-/

namespace ObjectBackend

open Target

/-- The operation on reals that an operator stands for. -/
def BinaryOperator.realOp? : BinaryOperator → Option BinaryOp
  | add => some .fadd
  | subtract => some .fsub
  | multiply => some .fmul
  | divide => some .fdiv
  | modulo => some .frem
  | _ => none

/-- The operation on integers that an operator stands for. -/
def BinaryOperator.integerOp? : BinaryOperator → Option BinaryOp
  | add => some .add
  | subtract => some .sub
  | multiply => some .mul
  | divide => some .sdiv
  | modulo => some .srem
  | and => some .and
  | or => some .or
  | xor => some .xor
  | shiftLeft => some .shl
  | shiftRight => some .ashr
  | shiftRightUnsigned => some .lshr
  | compare => none

/-- Whether the second operand of an operator is a distance. -/
def BinaryOperator.isShift : BinaryOperator → Bool
  | shiftLeft | shiftRight | shiftRightUnsigned => true
  | _ => false

/-- The conversion from one numeric type to another one. -/
def Numeric.castOp (source target : Numeric) : CastOp :=
  match source.isFloating, target.isFloating with
  | false, false => if source = .int then .sext else .trunc
  | false, true => .sitofp
  | true, false => .fptosi
  | true, true => if source = .float then .fpext else .fptrunc

/-- The type of the memory of a short integer. -/
def Subword.irType : Subword → IrType
  | byte => .i8
  | short | char => .i16

/-- How a short integer is extended: only `char` has no sign. -/
def Subword.extension : Subword → CastOp
  | byte | short => .sext
  | char => .zext

/-- The type of a register that holds a number. -/
def Numeric.irType (type : Numeric) : IrType := .ofKind type.kind

namespace Lowering

/-- A shift distance of type `int`, reduced to the width of a type. -/
def shiftDistance (distance : Var) (type : IrType) : Emit Value := do
  let widened ←
    if type = .i64 then .define (.cast .sext ⟨.i32, .ofVar distance⟩ .i64)
    else pure (.ofVar distance)
  .define (.binary .and type widened (.int (type.width?.getD 32 - 1 : Nat)))

/-- Code for the three-way comparison of two numbers. -/
def comparison (c : Context) (receiver first second : Var) (operand : Numeric) :
    Except BackendError (Emit Unit) := do
  let type := operand.irType
  c.expect first type
  c.expect second type
  c.expect receiver .i32
  return .assignVar receiver
    (.call .i32 (.ofRuntime (.compare operand)) [⟨type, .ofVar first⟩, ⟨type, .ofVar second⟩])

/-- Code for an operator that is an operation of its own. -/
def arithmetic (c : Context) (operator : BinaryOperator) (receiver first second : Var)
    (operand : Numeric) : Except BackendError (Emit Unit) := do
  let type := operand.irType
  c.expect first type
  c.expect receiver type
  c.expect second (if operator.isShift then .i32 else type)
  let op ←
    match operand.isFloating, operator.realOp?, operator.integerOp? with
    | true, some op, _ | false, _, some op => pure op
    | true, none, _ => c.mismatch (.operator operator type)
    | false, _, none => c.malformed .comparisonAsArithmetic
  return do
    let rhs ← if operator.isShift then shiftDistance second type else pure (.ofVar second)
    .assignVar receiver (.binary op type (.ofVar first) rhs)

/-- Code for an operator. -/
def binary (c : Context) (operator : BinaryOperator) (receiver first second : Var)
    (operand : Numeric) : Except BackendError (Emit Unit) :=
  if operator = .compare then comparison c receiver first second operand
  else arithmetic c operator receiver first second operand

/-- Code for a negation. -/
def negation (c : Context) (receiver operand : Var) (type : Numeric) :
    Except BackendError (Emit Unit) := do
  c.expect operand type.irType
  c.expect receiver type.irType
  return .assignVar receiver
    (if type.isFloating then .fneg type.irType (.ofVar operand)
     else .binary .sub type.irType (.int 0) (.ofVar operand))

/-- Code for a conversion between numeric types. -/
def numericCast (c : Context) (receiver value : Var) (source target : Numeric) :
    Except BackendError (Emit Unit) := do
  c.expect value source.irType
  c.expect receiver target.irType
  return if source = target then .copyTo receiver target.irType (.ofVar value)
    else .assignVar receiver
      (.cast (source.castOp target) ⟨source.irType, .ofVar value⟩ target.irType)

/-- Code for a conversion between `int` and a short integer, in either direction. -/
def integerCast (c : Context) (receiver value : Var) (subword : Subword) :
    Except BackendError (Emit Unit) := do
  c.expect value .i32
  c.expect receiver .i32
  return do
    let narrow ← .define (.cast .trunc ⟨.i32, .ofVar value⟩ subword.irType)
    .assignVar receiver (.cast subword.extension ⟨subword.irType, narrow⟩ .i32)

end Lowering

end ObjectBackend
