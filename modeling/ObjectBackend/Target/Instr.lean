import ObjectBackend.Target.Value

/-!
# Instructions of the emitted code

The operations, with their operands and types, and the ways to leave a block. The labels of blocks
are left open.
-/

namespace ObjectBackend.Target

/-- The operations on two numbers of one type. -/
inductive BinaryOp where
  | add
  | sub
  | mul
  | sdiv
  | srem
  | fadd
  | fsub
  | fmul
  | fdiv
  | frem
  | and
  | or
  | xor
  | shl
  | ashr
  | lshr
deriving DecidableEq

namespace BinaryOp

/-- The spelling of an operation. -/
def name : BinaryOp → String
  | add => "add"
  | sub => "sub"
  | mul => "mul"
  | sdiv => "sdiv"
  | srem => "srem"
  | fadd => "fadd"
  | fsub => "fsub"
  | fmul => "fmul"
  | fdiv => "fdiv"
  | frem => "frem"
  | and => "and"
  | or => "or"
  | xor => "xor"
  | shl => "shl"
  | ashr => "ashr"
  | lshr => "lshr"

/-- Every operation. -/
def all : List BinaryOp :=
  [add, sub, mul, sdiv, srem, fadd, fsub, fmul, fdiv, frem, and, or, xor, shl, ashr, lshr]

end BinaryOp

/-- The comparisons of integers and pointers. -/
inductive Predicate where
  | eq
  | ne
  | slt
  | sle
  | sgt
  | sge
deriving DecidableEq

namespace Predicate

/-- The spelling of a comparison. -/
def name : Predicate → String
  | eq => "eq"
  | ne => "ne"
  | slt => "slt"
  | sle => "sle"
  | sgt => "sgt"
  | sge => "sge"

/-- Every comparison. -/
def all : List Predicate := [eq, ne, slt, sle, sgt, sge]

end Predicate

/-- The comparisons of reals, false if an operand is undefined. -/
inductive RealPredicate where
  | olt
  | ogt
deriving DecidableEq

/-- The spelling of a comparison of reals. -/
def RealPredicate.name : RealPredicate → String
  | olt => "olt"
  | ogt => "ogt"

/-- The conversions between types. -/
inductive CastOp where
  | trunc
  | zext
  | sext
  | fptrunc
  | fpext
  | sitofp
  | fptosi
  | bitcast
  | ptrtoint
deriving DecidableEq

namespace CastOp

/-- The spelling of a conversion. -/
def name : CastOp → String
  | trunc => "trunc"
  | zext => "zext"
  | sext => "sext"
  | fptrunc => "fptrunc"
  | fpext => "fpext"
  | sitofp => "sitofp"
  | fptosi => "fptosi"
  | bitcast => "bitcast"
  | ptrtoint => "ptrtoint"

/-- Every conversion. -/
def all : List CastOp :=
  [trunc, zext, sext, fptrunc, fpext, sitofp, fptosi, bitcast, ptrtoint]

end CastOp

/-- An instruction within a block. -/
inductive Instr where
  | binary (op : BinaryOp) (type : IrType) (lhs rhs : Value)
  | fneg (type : IrType) (value : Value)
  | icmp (predicate : Predicate) (type : IrType) (lhs rhs : Value)
  | fcmp (predicate : RealPredicate) (type : IrType) (lhs rhs : Value)
  | cast (op : CastOp) (operand : Operand) (target : IrType)
  | load (type : IrType) (address : Value)
  | store (operand : Operand) (address : Value)
  /-- The address of a part of what a pointer points to. -/
  | element (base : IrType) (address : Value) (indices : List Value)
  | call (result : IrType) (callee : Value) (arguments : List Operand)
  | alloca (type : IrType)
  | select (condition : Value) (type : IrType) (consequent alternative : Value)
deriving DecidableEq

/-- Operands in parentheses. -/
def operandsText (operands : List Operand) : String :=
  "(" ++ String.intercalate ", " (operands.map Operand.text) ++ ")"

namespace Instr

/-- The text of an instruction. -/
def text : Instr → String
  | binary op type lhs rhs =>
    op.name ++ " " ++ type.text ++ " " ++ lhs.text ++ ", " ++ rhs.text
  | fneg type value => "fneg " ++ type.text ++ " " ++ value.text
  | icmp predicate type lhs rhs =>
    "icmp " ++ predicate.name ++ " " ++ type.text ++ " " ++ lhs.text ++ ", " ++ rhs.text
  | fcmp predicate type lhs rhs =>
    "fcmp " ++ predicate.name ++ " " ++ type.text ++ " " ++ lhs.text ++ ", " ++ rhs.text
  | cast op operand target => op.name ++ " " ++ operand.text ++ " to " ++ target.text
  | load type address => "load " ++ type.text ++ ", ptr " ++ address.text
  | store operand address => "store " ++ operand.text ++ ", ptr " ++ address.text
  | element base address indices =>
    "getelementptr " ++ base.text ++ ", ptr " ++ address.text
      ++ String.join (indices.map fun i => ", i32 " ++ i.text)
  | call result callee arguments =>
    "call " ++ result.text ++ " " ++ callee.text ++ operandsText arguments
  | alloca type => "alloca " ++ type.text
  | select condition type consequent alternative =>
    "select i1 " ++ condition.text ++ ", " ++ type.text ++ " " ++ consequent.text ++ ", "
      ++ type.text ++ " " ++ alternative.text

/-- The part of a structure with an index, as a number. -/
def fieldOf (base : IrType) (address : Value) (indices : List Int) : Instr :=
  element base address (indices.map Value.int)

/-- A copy of a value. -/
def copy (type : IrType) (value : Value) : Instr := cast .bitcast ⟨type, value⟩ type

end Instr

/-- How a block is left. -/
inductive Term (ℓ : Type) where
  | br (target : ℓ)
  | condBr (condition : Value) (consequent alternative : ℓ)
  | switch (type : IrType) (value : Value) (otherwise : ℓ) (cases : List (Int × ℓ))
  | ret (operand : Option Operand)
  | unreachable
deriving DecidableEq

namespace Term

/-- The text of a terminator, given the texts of labels. -/
def text {ℓ : Type} (label : ℓ → String) : Term ℓ → String
  | br target => "br label %" ++ label target
  | condBr condition consequent alternative =>
    "br i1 " ++ condition.text ++ ", label %" ++ label consequent ++ ", label %"
      ++ label alternative
  | switch type value otherwise cases =>
    "switch " ++ type.text ++ " " ++ value.text ++ ", label %" ++ label otherwise ++ " ["
      ++ String.join (cases.map fun (key, target) =>
        " " ++ type.text ++ " " ++ toString key ++ ", label %" ++ label target)
      ++ " ]"
  | ret (some operand) => "ret " ++ operand.text
  | ret none => "ret void"
  | unreachable => "unreachable"

/-- The blocks a terminator goes to, one entry for each edge. -/
def targets {ℓ : Type} : Term ℓ → List ℓ
  | br target => [target]
  | condBr _ consequent alternative => [consequent, alternative]
  | switch _ _ otherwise cases => otherwise :: cases.map (·.2)
  | ret _ | unreachable => []

end Term

end ObjectBackend.Target
