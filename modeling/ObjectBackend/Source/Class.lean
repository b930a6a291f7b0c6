import ObjectBackend.Source.Code

/-!
# Classes and their members

The declarations a program consists of. A class names its parent and its interfaces; a class without
a parent, or naming itself, starts a hierarchy, so `parentName` never gives the class itself
(`ClassDef.parentName_ne`).
-/

namespace ObjectBackend

open Floating (Binary32 Binary64)

/-- Who may use a member. -/
inductive Access where
  | anyClass
  | subclasses
  | samePackage
  | sameClass
deriving DecidableEq

namespace Access

/-- The name an access goes by. -/
def name : Access → String
  | anyClass => "public"
  | subclasses => "protected"
  | samePackage => "package"
  | sameClass => "private"

/-- Every access. -/
def all : List Access := [anyClass, subclasses, samePackage, sameClass]

end Access

/-- A constant that a static field starts with. -/
inductive InitialValue where
  | int (value : Int32)
  | long (value : Int64)
  | float (value : Binary32)
  | double (value : Binary64)
  | string (value : String)
deriving DecidableEq

/-- The declaration of a field. -/
structure FieldDef where
  name : String
  isStatic : Bool
  type : ValueType
  initial : Option InitialValue
deriving DecidableEq

/-- The declaration of a method; it has a body unless it is abstract or native. -/
structure MethodDef where
  signature : Signature
  isStatic : Bool
  isNative : Bool
  isAbstract : Bool
  access : Access
  body : Option Body
deriving DecidableEq

namespace MethodDef

/-- Whether only the declaring class may use the method. -/
def isPrivate (m : MethodDef) : Bool := m.access = .sameClass

/-- Whether calls of the method may be dispatched through the instance's class. -/
def isVirtual (m : MethodDef) : Bool :=
  !m.isStatic && !m.isPrivate && !m.signature.isConstructor && !m.signature.isInitializer

/-- How many values a call passes, the instance included. -/
def arity (m : MethodDef) : Nat :=
  m.signature.parameters.length + if m.isStatic then 0 else 1

end MethodDef

/-- The declaration of a class or an interface. -/
structure ClassDef where
  name : String
  parent : Option String
  interfaces : List String
  isInterface : Bool
  isAbstract : Bool
  fields : List FieldDef
  methods : List MethodDef
deriving DecidableEq

namespace ClassDef

/-- A class without parent, interfaces and members. -/
def empty (name : String) : ClassDef :=
  { name, parent := none, interfaces := [], isInterface := false, isAbstract := false
    fields := [], methods := [] }

/-- The parent, unless the class names itself. -/
def parentName (c : ClassDef) : Option String := c.parent.filter (· ≠ c.name)

/-- Whether the class starts a hierarchy. -/
def isRoot (c : ClassDef) : Bool := c.parentName.isNone

/-- The first field with a name. -/
def field? (c : ClassDef) (name : String) : Option FieldDef := c.fields.find? (·.name = name)

/-- The first method with a signature. -/
def method? (c : ClassDef) (s : Signature) : Option MethodDef :=
  c.methods.find? (·.signature = s)

/-- The fields every instance has, in order. -/
def instanceFields (c : ClassDef) : List FieldDef := c.fields.filter (!·.isStatic)

/-- The fields the class itself has, in order. -/
def staticFields (c : ClassDef) : List FieldDef := c.fields.filter (·.isStatic)

/-- The method that initializes the class. -/
def initializer? (c : ClassDef) : Option MethodDef :=
  c.methods.find? fun m => m.isStatic && m.signature.isInitializer

/-- A method of the class, named through it. -/
def reference (c : ClassDef) (m : MethodDef) : MethodRef := ⟨c.name, m.signature⟩

/-- No class is its own parent. -/
theorem parentName_ne {c : ClassDef} {p : String} (h : c.parentName = some p) : p ≠ c.name := by
  simp only [parentName, Option.filter_eq_some_iff] at h
  simpa using h.2

end ClassDef

end ObjectBackend
