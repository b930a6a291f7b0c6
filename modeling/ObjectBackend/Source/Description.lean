import ObjectBackend.Text.Quoted
import ObjectBackend.Floating.Shortest
import ObjectBackend.Source.Operand

/-!
# Descriptions

How instructions and constants are described in comments and messages: a name in capitals and small
letters followed by its parts, in braces if they have names and in parentheses if not. A description
never spans lines, because the texts inside it are quoted.
-/

namespace ObjectBackend

open Floating Text

namespace Text

/-- The characters of a name with its words run together, each with a capital. -/
def joinWords : Bool → List Char → List Char
  | _, [] => []
  | _, '_' :: rest => joinWords true rest
  | capital, c :: rest => (if capital then c.toUpper else c) :: joinWords false rest

/-- A name whose words are separated by underscores, run together with capitals. -/
def capitalized (name : String) : String := String.ofList (joinWords true name.toList)

/-- A name applied to a value. -/
def applied (name value : String) : String := name ++ "(" ++ value ++ ")"

/-- A name with its parts by name. -/
def withParts (name : String) : List (String × String) → String
  | [] => name
  | parts =>
    name ++ " \x7b " ++ String.intercalate ", " (parts.map fun (key, value) => key ++ ": " ++ value)
      ++ " \x7d"

/-- A list in brackets. -/
def bracketed (items : List String) : String := "[" ++ String.intercalate ", " items ++ "]"

/-- A value that may be missing. -/
def described {α : Type} (describe : α → String) : Option α → String
  | none => "None"
  | some value => applied "Some" (describe value)

end Text

/-- Reals are described positionally from `10 ^ -4` up to `10 ^ 16`. -/
def describedStyle : DecimalStyle := ⟨-3, 16, .up⟩

/-- The description of a datum of a format. -/
def describeDatum (f : Format) : Datum → String
  | .finite negative significand exponent =>
    (describedStyle.numeral f negative significand exponent).text .omitted
  | .infinite negative => if negative then "-inf" else "inf"
  | .undefined => "NaN"

/-- The description of a short real. -/
def Floating.Binary32.description (x : Binary32) : String := describeDatum .single x.datum

/-- The description of a long real. -/
def Floating.Binary64.description (x : Binary64) : String := describeDatum .double x.datum

/-- The description of a variable. -/
def Var.description (v : Var) : String := applied "Var" (toString v.index)

/-- The description of a type. -/
def ValueType.description : ValueType → String
  | .void => "Void"
  | .primitive type => applied "Primitive" (capitalized type.name)
  | .object className => applied "Object" (quote className)
  | .array item => applied "Array" item.description

/-- The description of a signature. -/
def Signature.description (s : Signature) : String :=
  withParts "MethodDescriptor"
    [("name", quote s.name), ("params", bracketed (s.parameters.map ValueType.description)),
      ("ret", s.result.description)]

/-- The description of a method reference. -/
def MethodRef.description (m : MethodRef) : String :=
  withParts "MethodRef" [("class", quote m.className), ("desc", m.signature.description)]

/-- The description of a field reference. -/
def FieldRef.description (f : FieldRef) : String :=
  withParts "FieldRef" [("class", quote f.className), ("name", quote f.name)]

/-- The description of an operand. -/
def Operand.description : Operand → String
  | .var v => v.description
  | .optionalVar v => described Var.description v
  | .vars vs => bracketed (vs.map Var.description)
  | .type t => t.description
  | .int value => toString value.toInt
  | .long value => toString value.toInt
  | .float value => value.description
  | .double value => value.description
  | .text value => quote value
  | .field f => f.description
  | .method m => m.description
  | .choice name => capitalized name

/-- The description of an instruction. -/
def Instruction.description (i : Instruction) : String :=
  let (operation, operands) := i.operands
  withParts (capitalized operation)
    (operands.map fun (name, operand) => (name, operand.description))

/-- The description of an initial value. -/
def InitialValue.description : InitialValue → String
  | .int value => applied "Int" (toString value.toInt)
  | .long value => applied "Long" (toString value.toInt)
  | .float value => applied "Float" value.description
  | .double value => applied "Double" value.description
  | .string value => applied "String" (quote value)

end ObjectBackend
