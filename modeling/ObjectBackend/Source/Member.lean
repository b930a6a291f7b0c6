import ObjectBackend.Source.Type

/-!
# Members and references to them

A `Signature` identifies a method within its class by name, parameters and result; `MethodRef` and
`FieldRef` add the class through which the member is named. Two names are reserved: the one of
constructors and the one of class initializers.
-/

namespace ObjectBackend

/-- The name of every constructor. -/
def constructorName : String := "<init>"

/-- The name of every class initializer. -/
def initializerName : String := "<clinit>"

/-- What identifies a method within its class. -/
structure Signature where
  name : String
  parameters : List ValueType
  result : ValueType
deriving DecidableEq

namespace Signature

/-- Whether this is the signature of a constructor. -/
def isConstructor (s : Signature) : Bool := s.name == constructorName

/-- Whether this is the signature of a class initializer. -/
def isInitializer (s : Signature) : Bool := s.name == initializerName

/-- The name, the parameter types in parentheses and the result type. -/
def text (s : Signature) : String :=
  s.name ++ "(" ++ String.intercalate ", " (s.parameters.map ValueType.name) ++ "): "
    ++ s.result.name

end Signature

/-- A method named through a class. -/
structure MethodRef where
  className : String
  signature : Signature
deriving DecidableEq

/-- The class and the signature of the method, joined by a point. -/
def MethodRef.text (m : MethodRef) : String := m.className ++ "." ++ m.signature.text

/-- A field named through a class. -/
structure FieldRef where
  className : String
  name : String
deriving DecidableEq

/-- The class and the name of the field, joined by a point. -/
def FieldRef.text (f : FieldRef) : String := f.className ++ "." ++ f.name

end ObjectBackend
