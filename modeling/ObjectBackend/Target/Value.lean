import ObjectBackend.Floating.Word
import ObjectBackend.Source.Code
import ObjectBackend.Target.Type

/-!
# Values of the emitted code

Operands of instructions: registers, symbols, literals and addresses that are known when the module
is linked. A real of either width is written as the bits of the long real it equals.
-/

namespace ObjectBackend.Target

open Floating

/-- A register of a function. -/
inductive Local where
  /-- The register of a variable of the source program. -/
  | var (v : Var)
  /-- An intermediate result. -/
  | temporary (number : Nat)
  /-- The frame of the method. -/
  | frame
  /-- The frame of its caller. -/
  | callerFrame
  /-- The value that is returned. -/
  | result
  /-- The call site from which the handlers of a block are looked for. -/
  | landingSite (block : BlockId)
  | named (name : String)
deriving DecidableEq

/-- The text of a register. -/
def Local.text : Local → String
  | var v => v.text
  | temporary number => "t" ++ toString number
  | frame => "frame"
  | callerFrame => "frame.next"
  | result => "ret"
  | landingSite block => block.text ++ ".lp.site"
  | named name => name

/-- A value that an instruction can use. -/
inductive Value where
  | register (name : Local)
  | symbol (symbol : Symbol)
  | int (value : Int)
  | real (value : Binary64)
  | bool (value : Bool)
  | null
  | zero
  | undef
  /-- The address of a part of a symbol's data. -/
  | part (base : IrType) (symbol : Symbol) (indices : List Nat)
  /-- The offset of a part of a structure, as a 32-bit number. -/
  | offset (base : IrType) (indices : List Nat)
  /-- A constant given as text. -/
  | verbatim (text : String)
deriving DecidableEq

/-- The bits of a real in sixteen hexadecimal capitals. -/
def realText (x : Binary64) : String :=
  "0x" ++ String.ofList ((Text.fixedHex 16 x.bits.toNat).map Char.toUpper)

/-- Constant indices, each with its type. -/
def indicesText (indices : List Nat) : String :=
  String.join (indices.map fun i => ", i32 " ++ toString i)

namespace Value

/-- The text of a value. -/
def text : Value → String
  | register name => "%" ++ name.text
  | symbol s => "@" ++ s.text
  | int value => toString value
  | real value => realText value
  | bool value => if value then "true" else "false"
  | null => "null"
  | zero => "zeroinitializer"
  | undef => "undef"
  | part base s indices =>
    "getelementptr (" ++ base.text ++ ", ptr @" ++ s.text ++ indicesText indices ++ ")"
  | offset base indices =>
    "ptrtoint (ptr getelementptr (" ++ base.text ++ ", ptr null" ++ indicesText indices
      ++ ") to i32)"
  | verbatim text => text

/-- The register of a variable. -/
def ofVar (v : Var) : Value := register (.var v)

/-- A symbol of the run-time environment. -/
def ofRuntime (s : RuntimeSymbol) : Value := symbol (.runtime s)

/-- The zero of a type. -/
def zeroOf : IrType → Value
  | .ptr => null
  | .float | .double => real .zero
  | .i1 => bool false
  | type => if type.isInteger then int 0 else zero

end Value

/-- A value with its type. -/
structure Operand where
  type : IrType
  value : Value
deriving DecidableEq

namespace Operand

/-- The type of an operand and its value. -/
def text (o : Operand) : String := o.type.text ++ " " ++ o.value.text

/-- A reference. -/
def ptr (value : Value) : Operand := ⟨.ptr, value⟩

/-- A 32-bit number. -/
def i32 (value : Int) : Operand := ⟨.i32, .int value⟩

end Operand

end ObjectBackend.Target
