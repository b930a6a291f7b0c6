/-!
# Types of a program

`ValueType` is what a field, a parameter or a result is declared with; `Kind` is how a variable
holds a value once it is loaded. All integers shorter than `int` are held as `int`, and an array
remembers only the kind of its elements. A value is a reference exactly if its kind is one
(`ValueType.isReference_iff`), so either may be asked when references are traced.
-/

namespace ObjectBackend

/-- The types of numbers and truth values. -/
inductive Primitive where
  | boolean
  | byte
  | short
  | char
  | int
  | long
  | float
  | double
deriving DecidableEq

/-- The declared type of a field, a parameter or a result. -/
inductive ValueType where
  | void
  | primitive (type : Primitive)
  | object (className : String)
  | array (item : ValueType)
deriving DecidableEq

/-- How the elements of an array are represented. -/
inductive ElementKind where
  | byte
  | short
  | char
  | int
  | long
  | float
  | double
  | object
deriving DecidableEq

/-- How a variable holds its value. -/
inductive Kind where
  | int
  | long
  | float
  | double
  | object
  | array (element : ElementKind)
deriving DecidableEq

/-- The operand types of arithmetic. -/
inductive Numeric where
  | int
  | long
  | float
  | double
deriving DecidableEq

/-- The integers shorter than `int` that a narrowing can go to. -/
inductive Subword where
  | byte
  | short
  | char
deriving DecidableEq

namespace Primitive

/-- The name a primitive type goes by. -/
def name : Primitive → String
  | boolean => "boolean"
  | byte => "byte"
  | short => "short"
  | char => "char"
  | int => "int"
  | long => "long"
  | float => "float"
  | double => "double"

/-- Every primitive type. -/
def all : List Primitive := [boolean, byte, short, char, int, long, float, double]

/-- How an array of this type represents its elements. -/
def elementKind : Primitive → ElementKind
  | boolean | byte => .byte
  | short => .short
  | char => .char
  | int => .int
  | long => .long
  | float => .float
  | double => .double

/-- How a variable holds a value of this type. -/
def kind : Primitive → Kind
  | long => .long
  | float => .float
  | double => .double
  | _ => .int

end Primitive

namespace ElementKind

/-- The name an element kind goes by. -/
def name : ElementKind → String
  | byte => "byte"
  | short => "short"
  | char => "char"
  | int => "int"
  | long => "long"
  | float => "float"
  | double => "double"
  | object => "object"

/-- Every element kind, in the order their metadata is laid out. -/
def all : List ElementKind := [byte, short, char, int, long, float, double, object]

/-- How a variable holds an element once it is loaded. -/
def kind : ElementKind → Kind
  | byte | short | char | int => .int
  | long => .long
  | float => .float
  | double => .double
  | object => .object

end ElementKind

namespace Kind

/-- Whether a variable of this kind holds a reference. -/
def isReference : Kind → Bool
  | object | array _ => true
  | _ => false

/-- The name a kind goes by. -/
def name : Kind → String
  | int => "int"
  | long => "long"
  | float => "float"
  | double => "double"
  | object => "object"
  | array element => element.name ++ "[]"

end Kind

namespace Numeric

/-- The name a numeric type goes by. -/
def name : Numeric → String
  | int => "int"
  | long => "long"
  | float => "float"
  | double => "double"

/-- Every numeric type. -/
def all : List Numeric := [int, long, float, double]

/-- Whether the type has a fraction. -/
def isFloating : Numeric → Bool
  | float | double => true
  | _ => false

/-- How a variable holds a value of this type. -/
def kind : Numeric → Kind
  | int => .int
  | long => .long
  | float => .float
  | double => .double

end Numeric

namespace Subword

/-- The name a short integer type goes by. -/
def name : Subword → String
  | byte => "byte"
  | short => "short"
  | char => "char"

/-- Every short integer type. -/
def all : List Subword := [byte, short, char]

end Subword

namespace ValueType

/-- Whether values of this type are references. -/
def isReference : ValueType → Bool
  | object _ | array _ => true
  | _ => false

/-- Whether there are no values of this type. -/
def isVoid : ValueType → Bool
  | void => true
  | _ => false

/-- How an array of this type represents its elements. -/
def elementKind : ValueType → ElementKind
  | primitive type => type.elementKind
  | _ => .object

/-- How a variable holds a value of this type, if there are any. -/
def kind : ValueType → Option Kind
  | void => none
  | primitive type => some type.kind
  | object _ => some .object
  | array item => some (.array item.elementKind)

/-- The name a type goes by. -/
def name : ValueType → String
  | void => "void"
  | primitive type => type.name
  | object className => className
  | array item => item.name ++ "[]"

/-- A type is a reference type exactly if variables hold its values as references. -/
theorem isReference_iff (type : ValueType) :
    type.isReference = true ↔ ∃ kind, type.kind = some kind ∧ kind.isReference = true := by
  cases type with
  | void => simp [isReference, kind]
  | primitive type => cases type <;> simp [isReference, kind, Primitive.kind, Kind.isReference]
  | object className => simp [isReference, kind, Kind.isReference]
  | array item => simp [isReference, kind, Kind.isReference]

end ValueType

end ObjectBackend
