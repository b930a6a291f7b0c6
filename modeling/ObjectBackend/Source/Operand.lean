import ObjectBackend.Source.Class

/-!
# Operands by name

Every instruction seen as an operation with named operands. Both written forms of an instruction,
the one in a document and the one in a comment, are read off this view, so that they agree on the
names and on their order.
-/

namespace ObjectBackend

open Floating

/-- An operand of an instruction. -/
inductive Operand where
  | var (v : Var)
  | optionalVar (v : Option Var)
  | vars (vs : List Var)
  | type (type : ValueType)
  | int (value : Int32)
  | long (value : Int64)
  | float (value : Binary32)
  | double (value : Binary64)
  | text (value : String)
  | field (field : FieldRef)
  | method (method : MethodRef)
  /-- One of a fixed set of names. -/
  | choice (name : String)

/-- The name of an instruction's operation and its operands by name, in order. -/
def Instruction.operands : Instruction → String × List (String × Operand)
  | nop => ("nop", [])
  | nullConstant receiver => ("null_constant", [("receiver", .var receiver)])
  | classConstant receiver type =>
    ("class_constant", [("receiver", .var receiver), ("ty", .type type)])
  | intConstant receiver value =>
    ("int_constant", [("receiver", .var receiver), ("value", .int value)])
  | longConstant receiver value =>
    ("long_constant", [("receiver", .var receiver), ("value", .long value)])
  | floatConstant receiver value =>
    ("float_constant", [("receiver", .var receiver), ("value", .float value)])
  | doubleConstant receiver value =>
    ("double_constant", [("receiver", .var receiver), ("value", .double value)])
  | stringConstant receiver value =>
    ("string_constant", [("receiver", .var receiver), ("value", .text value)])
  | binary operator receiver first second operand =>
    ("binary",
      [("operator", .choice operator.name), ("receiver", .var receiver), ("first", .var first),
        ("second", .var second), ("operand", .choice operand.name)])
  | negate receiver operand type =>
    ("negate",
      [("receiver", .var receiver), ("operand", .var operand), ("ty", .choice type.name)])
  | assign receiver assignee =>
    ("assign", [("receiver", .var receiver), ("assignee", .var assignee)])
  | cast receiver value target =>
    ("cast", [("receiver", .var receiver), ("value", .var value), ("target", .type target)])
  | numericCast receiver value source target =>
    ("numeric_cast",
      [("receiver", .var receiver), ("value", .var value), ("from", .choice source.name),
        ("to", .choice target.name)])
  | integerCast receiver value subword direction =>
    ("integer_cast",
      [("receiver", .var receiver), ("value", .var value), ("subtype", .choice subword.name),
        ("direction", .choice direction.name)])
  | construct receiver className =>
    ("construct", [("receiver", .var receiver), ("class", .text className)])
  | constructArray receiver item size =>
    ("construct_array",
      [("receiver", .var receiver), ("item_type", .type item), ("size", .var size)])
  | constructMultiArray receiver item dimensions =>
    ("construct_multi_array",
      [("receiver", .var receiver), ("item_type", .type item), ("dimensions", .vars dimensions)])
  | getField receiver inst field type =>
    ("get_field",
      [("receiver", .var receiver), ("instance", .optionalVar inst), ("field", .field field),
        ("field_type", .type type)])
  | putField inst field value type =>
    ("put_field",
      [("instance", .optionalVar inst), ("field", .field field), ("value", .var value),
        ("field_type", .type type)])
  | arrayLength receiver array =>
    ("array_length", [("receiver", .var receiver), ("array", .var array)])
  | cloneArray receiver array =>
    ("clone_array", [("receiver", .var receiver), ("array", .var array)])
  | unwrapArray receiver array =>
    ("unwrap_array", [("receiver", .var receiver), ("array", .var array)])
  | getElement receiver array index =>
    ("get_element", [("receiver", .var receiver), ("array", .var array), ("index", .var index)])
  | putElement array index value =>
    ("put_element", [("array", .var array), ("index", .var index), ("value", .var value)])
  | invoke receiver inst method arguments kind =>
    ("invoke",
      [("receiver", .optionalVar receiver), ("instance", .optionalVar inst),
        ("method", .method method), ("arguments", .vars arguments), ("kind", .choice kind.name)])
  | invokeDynamic receiver name arguments =>
    ("invoke_dynamic",
      [("receiver", .optionalVar receiver), ("name", .text name), ("arguments", .vars arguments)])
  | isInstance receiver value type =>
    ("is_instance", [("receiver", .var receiver), ("value", .var value), ("ty", .type type)])
  | initClass className => ("init_class", [("class", .text className)])
  | nullCheck receiver value =>
    ("null_check", [("receiver", .var receiver), ("value", .var value)])
  | monitorEnter object => ("monitor_enter", [("object", .var object)])
  | monitorExit object => ("monitor_exit", [("object", .var object)])

end ObjectBackend
