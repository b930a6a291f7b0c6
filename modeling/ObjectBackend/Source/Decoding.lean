import ObjectBackend.Json.Library
import ObjectBackend.Json.Record
import ObjectBackend.Source.Program

/-!
# Reading programs

How a program and its parts are read from a JSON document. Every reader answers with nothing if the
document does not have the expected form. An instruction and a terminator are told apart by their
part `op`, so their parts are held back and read loosely; the signature of a method stands among the
other members of the method and is read loosely too. An initial value is told by its part `kind`.
-/

namespace ObjectBackend

open Floating
open Json (Manner RecordReader)
open Json.RecordReader (required withDefault optional nullable)

namespace Primitive

/-- The primitive type a document names. -/
def ofJson? (manner : Manner) : Json → Option Primitive := Json.toChoice? manner all name

end Primitive

namespace ElementKind

/-- The element kind a document names. -/
def ofJson? (manner : Manner) : Json → Option ElementKind := Json.toChoice? manner all name

end ElementKind

namespace Numeric

/-- The numeric type a document names. -/
def ofJson? (manner : Manner) : Json → Option Numeric := Json.toChoice? manner all name

end Numeric

namespace ValueType

/-- The type a document describes. -/
def ofJson? (manner : Manner) : Json → Option ValueType
  | .object [("primitive", type)] => (Primitive.ofJson? manner type).map .primitive
  | .object [("object", className)] => className.toText?.map .object
  | .object [("array", item)] => (ofJson? manner item).map .array
  | json => if json.toName? manner = some "void" then some .void else none

end ValueType

namespace Kind

/-- The kinds that are not arrays. -/
def scalars : List Kind := [.int, .long, .float, .double, .object]

/-- The kind a document describes. -/
def ofJson? : Json → Option Kind
  | .object [("array", element)] => (ElementKind.ofJson? .strict element).map .array
  | json => json.toChoice? .strict scalars name

end Kind

namespace Var

/-- The variable a document gives by its number. -/
def ofJson? (json : Json) : Option Var := json.toUInt32?.map Var.mk

end Var

namespace BlockId

/-- The block a document gives by its number. -/
def ofJson? (json : Json) : Option BlockId := json.toUInt32?.map BlockId.mk

end BlockId

namespace Signature

/-- The reader of the parts of a signature. -/
def reader (manner : Manner) : RecordReader Signature := do
  return {
    name := ← required "name" Json.toText?
    parameters := ← withDefault "params" [] (Json.toList? (ValueType.ofJson? manner))
    result := ← withDefault "ret" .void (ValueType.ofJson? manner) }

/-- The signature a document describes. -/
def ofJson? : Json → Option Signature := Json.toRecord? (reader .strict)

end Signature

namespace MethodRef

/-- The method reference a document describes. -/
def ofJson? : Json → Option MethodRef :=
  Json.toMixedRecord? ["class"] do
    return { className := ← required "class" Json.toText?, signature := ← Signature.reader .loose }

end MethodRef

namespace FieldRef

/-- The field reference a document describes. -/
def ofJson? : Json → Option FieldRef :=
  Json.toRecord? do
    return { className := ← required "class" Json.toText?, name := ← required "name" Json.toText? }

end FieldRef

namespace Instruction

/-- The reader of the operands of an operation. -/
def reader : String → RecordReader Instruction
  | "nop" => return .nop
  | "null_constant" => return .nullConstant (← receiver)
  | "class_constant" => return .classConstant (← receiver) (← type "ty")
  | "int_constant" => return .intConstant (← receiver) (← required "value" Json.toInt32?)
  | "long_constant" => return .longConstant (← receiver) (← required "value" Json.toInt64?)
  | "float_constant" => return .floatConstant (← receiver) (← required "value" Json.toBinary32?)
  | "double_constant" => return .doubleConstant (← receiver) (← required "value" Json.toBinary64?)
  | "string_constant" => return .stringConstant (← receiver) (← text "value")
  | "binary" =>
    return .binary (← choice "operator" BinaryOperator.all BinaryOperator.name) (← receiver)
      (← var "first") (← var "second") (← numeric "operand")
  | "negate" => return .negate (← receiver) (← var "operand") (← numeric "ty")
  | "assign" => return .assign (← receiver) (← var "assignee")
  | "cast" => return .cast (← receiver) (← var "value") (← type "target")
  | "numeric_cast" =>
    return .numericCast (← receiver) (← var "value") (← numeric "from") (← numeric "to")
  | "integer_cast" =>
    return .integerCast (← receiver) (← var "value") (← choice "subtype" Subword.all Subword.name)
      (← choice "direction" CastDirection.all CastDirection.name)
  | "construct" => return .construct (← receiver) (← text "class")
  | "construct_array" =>
    return .constructArray (← receiver) (← type "item_type") (← var "size")
  | "construct_multi_array" =>
    return .constructMultiArray (← receiver) (← type "item_type") (← vars "dimensions")
  | "get_field" =>
    return .getField (← receiver) (← var? "instance") (← field) (← type "field_type")
  | "put_field" =>
    return .putField (← var? "instance") (← field) (← var "value") (← type "field_type")
  | "array_length" => return .arrayLength (← receiver) (← var "array")
  | "clone_array" => return .cloneArray (← receiver) (← var "array")
  | "unwrap_array" => return .unwrapArray (← receiver) (← var "array")
  | "get_element" => return .getElement (← receiver) (← var "array") (← var "index")
  | "put_element" => return .putElement (← var "array") (← var "index") (← var "value")
  | "invoke" =>
    return .invoke (← var? "receiver") (← var? "instance") (← required "method" MethodRef.ofJson?)
      (← vars "arguments") (← choice "kind" InvocationKind.all InvocationKind.name)
  | "invoke_dynamic" =>
    return .invokeDynamic (← var? "receiver") (← text "name") (← vars "arguments")
  | "is_instance" => return .isInstance (← receiver) (← var "value") (← type "ty")
  | "init_class" => return .initClass (← text "class")
  | "null_check" => return .nullCheck (← receiver) (← var "value")
  | "monitor_enter" => return .monitorEnter (← var "object")
  | "monitor_exit" => return .monitorExit (← var "object")
  | _ => failure
where
  var (key : String) : RecordReader Var := required key Var.ofJson?
  var? (key : String) : RecordReader (Option Var) := nullable key Var.ofJson?
  vars (key : String) : RecordReader (List Var) := required key (Json.toList? Var.ofJson?)
  receiver : RecordReader Var := var "receiver"
  text (key : String) : RecordReader String := required key Json.toText?
  type (key : String) : RecordReader ValueType := required key (ValueType.ofJson? .loose)
  numeric (key : String) : RecordReader Numeric := required key (Numeric.ofJson? .loose)
  field : RecordReader FieldRef := required "field" FieldRef.ofJson?
  choice {α : Type} (key : String) (choices : List α) (name : α → String) : RecordReader α :=
    required key (Json.toChoice? .loose choices name)

/-- The instruction a document describes. -/
def ofJson? : Json → Option Instruction := Json.toTagged? "op" reader

end Instruction

namespace Terminator

/-- The reader of the operands of an operation. -/
def reader : String → RecordReader Terminator
  | "jump" => return .jump (← block "target")
  | "branch" =>
    return .branch (← choice "condition" BranchCondition.all BranchCondition.name)
      (← var "operand") (← block "consequent") (← block "alternative")
  | "binary_branch" =>
    return .binaryBranch (← choice "condition" BinaryBranchCondition.all BinaryBranchCondition.name)
      (← var "first") (← var "second") (← block "consequent") (← block "alternative")
  | "switch" =>
    return .switch (← var "condition")
      (← required "table" (Json.toList? (Json.toPair? Json.toInt32? BlockId.ofJson?)))
      (← block "default")
  | "exit" => return .exit (← nullable "value" Var.ofJson?)
  | "raise" => return .raise (← var "exception")
  | "unreachable" => return .unreachable
  | _ => failure
where
  var (key : String) : RecordReader Var := required key Var.ofJson?
  block (key : String) : RecordReader BlockId := required key BlockId.ofJson?
  choice {α : Type} (key : String) (choices : List α) (name : α → String) : RecordReader α :=
    required key (Json.toChoice? .loose choices name)

/-- The terminator a document describes. -/
def ofJson? : Json → Option Terminator := Json.toTagged? "op" reader

end Terminator

namespace Incoming

/-- The phi value a document describes. -/
def ofJson? : Json → Option Incoming :=
  Json.toRecord? do
    return {
      source := ← required "source" BlockId.ofJson?
      value := ← required "value" Var.ofJson? }

end Incoming

namespace Phi

/-- The phi a document describes. -/
def ofJson? : Json → Option Phi :=
  Json.toRecord? do
    return {
      receiver := ← required "receiver" Var.ofJson?
      incomings := ← required "incomings" (Json.toList? Incoming.ofJson?) }

end Phi

namespace TryCatch

/-- The handler a document describes. -/
def ofJson? : Json → Option TryCatch :=
  Json.toRecord? do
    return {
      exceptionType := ← nullable "exception_type" Json.toText?
      handler := ← required "handler" BlockId.ofJson? }

end TryCatch

namespace BasicBlock

/-- The block a document describes. -/
def ofJson? : Json → Option BasicBlock :=
  Json.toRecord? do
    return {
      phis := ← withDefault "phis" [] (Json.toList? Phi.ofJson?)
      instructions := ← withDefault "instructions" [] (Json.toList? Instruction.ofJson?)
      terminator := ← required "terminator" Terminator.ofJson?
      tryCatches := ← withDefault "try_catches" [] (Json.toList? TryCatch.ofJson?)
      exceptionVariable := ← optional "exception_variable" Var.ofJson? }

end BasicBlock

namespace Body

/-- The body a document describes. -/
def ofJson? : Json → Option Body :=
  Json.toRecord? do
    return {
      kinds := ← required "variables" (Json.toList? Kind.ofJson?)
      blocks := ← required "blocks" (Json.toList? BasicBlock.ofJson?) }

end Body

namespace InitialValue

/-- The initial value of a kind that a document describes. -/
def ofKind? (json : Json) : String → Option InitialValue
  | "int" => json.toInt32?.map .int
  | "long" => json.toInt64?.map .long
  | "float" => json.toBinary32?.map .float
  | "double" => json.toBinary64?.map .double
  | "string" => json.toText?.map .string
  | _ => none

/-- The initial value a document describes. -/
def ofJson? : Json → Option InitialValue :=
  Json.toRecord? do
    let kind ← required "kind" (Json.toName? .strict)
    required "value" fun json => ofKind? json kind

end InitialValue

namespace FieldDef

/-- The field a document declares. -/
def ofJson? : Json → Option FieldDef :=
  Json.toRecord? do
    return {
      name := ← required "name" Json.toText?
      isStatic := ← withDefault "is_static" false Json.toBool?
      type := ← required "ty" (ValueType.ofJson? .strict)
      initial := ← optional "initial" InitialValue.ofJson? }

end FieldDef

namespace MethodDef

/-- The method a document declares. -/
def ofJson? : Json → Option MethodDef :=
  Json.toMixedRecord? ["is_static", "is_native", "is_abstract", "access", "body"] do
    return {
      signature := ← Signature.reader .loose
      isStatic := ← withDefault "is_static" false Json.toBool?
      isNative := ← withDefault "is_native" false Json.toBool?
      isAbstract := ← withDefault "is_abstract" false Json.toBool?
      access := ← withDefault "access" .anyClass (Json.toChoice? .strict Access.all Access.name)
      body := ← optional "body" Body.ofJson? }

end MethodDef

namespace ClassDef

/-- The class a document declares. -/
def ofJson? : Json → Option ClassDef :=
  Json.toRecord? do
    return {
      name := ← required "name" Json.toText?
      parent := ← optional "parent" Json.toText?
      interfaces := ← withDefault "interfaces" [] (Json.toList? Json.toText?)
      isInterface := ← withDefault "is_interface" false Json.toBool?
      isAbstract := ← withDefault "is_abstract" false Json.toBool?
      fields := ← withDefault "fields" [] (Json.toList? FieldDef.ofJson?)
      methods := ← withDefault "methods" [] (Json.toList? MethodDef.ofJson?) }

end ClassDef

namespace Program

/-- The classes and the entry point of the program a document describes. -/
def partsOfJson? : Json → Option (List ClassDef × Option MethodRef) :=
  Json.toRecord? do
    return (← withDefault "classes" [] (Json.toList? ClassDef.ofJson?),
      ← optional "entry_point" MethodRef.ofJson?)

/-- The program a document describes. -/
def ofJson (json : Json) : Except ProgramError Program :=
  match partsOfJson? json with
  | none => .error .unreadable
  | some (classes, entryPoint) => ofClasses classes entryPoint

/-- The program a library reads of a text. -/
def readWith (library : Json.Library) (text : String) : Except ProgramError Program :=
  match library.read? text with
  | none => .error .unreadable
  | some json => ofJson json

/-- The program a text describes. -/
def read (text : String) : Except ProgramError Program := readWith Json.library text

end Program

end ObjectBackend
