import ObjectBackend.Objects.TypeTag
import ObjectBackend.Source.Description
import ObjectBackend.Target.Type

/-!
# What can go wrong

The causes for which no module can be made of a program, and the messages that report them. Each
cause carries the parts of the program it is about; the wording stands in one function per type.
-/

namespace ObjectBackend

open Target (IrType)

/-- What is asked of a method that is looked for. -/
inductive MethodNeed where
  | declared
  /-- It must not be abstract. -/
  | concrete
  /-- It must not need an instance. -/
  | static
deriving DecidableEq

/-- How a use does not fit what is used. -/
inductive KindFault where
  | wrongType (v : Var) (actual expected : IrType)
  | notReference (v : Var)
  | parameter (v : Var) (actual declared : Kind)
  /-- An operator that does not apply to operands of a type. -/
  | operator (operator : BinaryOperator) (type : IrType)
  | comparison (condition : BinaryBranchCondition) (type : IrType)
  | nullTest (type : IrType) (v : Var)
  | branch (type : IrType) (v : Var)
  | orderedReference (v : Var)
  | voidReturns (v : Var)
  | argumentCount (method : MethodRef) (given : Nat)
  | noResult (method : MethodRef) (receiver : Var)
  | staticness (method : MethodRef) (isStatic : Bool)
  | notInstantiable (className : String)
  | voidArray
  | staticAccess (field : FieldRef)
  | fieldType (field : FieldRef) (declared used : ValueType)
  | notArray (v : Var) (kind : Kind)
  | typeTest (type : ValueType)
  | arrayTest (item : ValueType)
  | initialValue (value : InitialValue) (type : ValueType)
deriving DecidableEq

/-- The message of a fault. -/
def KindFault.message : KindFault → String
  | wrongType v actual expected =>
    v.text ++ " is " ++ actual.text ++ " where " ++ expected.text ++ " is expected"
  | notReference v => v.text ++ " is not a reference"
  | parameter v actual declared =>
    "parameter " ++ v.text ++ " is " ++ actual.name ++ " but declared " ++ declared.name
  | operator op type =>
    Text.capitalized op.name ++ " on " ++ type.text ++ " operands"
  | comparison condition type =>
    Text.capitalized condition.name ++ " on " ++ type.text ++ " operands"
  | nullTest type v => "null test on " ++ type.text ++ " operand " ++ v.text
  | branch type v => "branch on " ++ type.text ++ " operand " ++ v.text
  | orderedReference v => "ordered comparison of reference " ++ v.text
  | voidReturns v => "void method returns " ++ v.text
  | argumentCount method given =>
    method.text ++ " takes " ++ toString method.signature.parameters.length ++ " arguments, "
      ++ toString given ++ " given"
  | noResult method receiver => method.text ++ " returns nothing into " ++ receiver.text
  | staticness method isStatic =>
    method.text ++ " is " ++ (if isStatic then "" else "not ") ++ "static"
  | notInstantiable className => "cannot instantiate " ++ className
  | voidArray => "array of void"
  | staticAccess field => "static access to instance field " ++ field.text
  | fieldType field declared used =>
    "field " ++ field.text ++ " is " ++ declared.name ++ " but accessed as " ++ used.name
  | notArray v kind => v.text ++ " is " ++ kind.name ++ ", not an array"
  | typeTest type => "type test against " ++ type.name
  | arrayTest item => "array of " ++ item.name
  | initialValue value type =>
    "initializer " ++ value.description ++ " does not fit a " ++ type.name ++ " field"

/-- What is missing or misplaced in a body. -/
inductive BodyFault where
  /-- A method that is neither native nor abstract has no body. -/
  | noBody
  | tooFewVariables (parameters count : Nat)
  | noBlocks
  | unknownVariable (v : Var)
  /-- An instruction that may collect stands where none is expected. -/
  | unexpectedSite
  /-- An instruction stands where only those that may collect are expected. -/
  | noSite
  | comparisonAsArithmetic
  | unknownSource (block : BlockId)
  | missingResult (type : IrType)
  /-- A call has an instance though it needs none, or has none though it needs one. -/
  | callInstance (kind : InvocationKind) (method : MethodRef) (given : Option Var)
deriving DecidableEq

/-- The message of a fault. -/
def BodyFault.message : BodyFault → String
  | noBody => "concrete method has no body"
  | tooFewVariables parameters count =>
    toString parameters ++ " parameters but " ++ toString count ++ " variables"
  | noBlocks => "body has no blocks"
  | unknownVariable v => "unknown variable " ++ v.text
  | unexpectedSite => "call site outside a site bracket"
  | noSite => "not a call site"
  | comparisonAsArithmetic => "three-way compare lowered as arithmetic"
  | unknownSource block => "phi source " ++ block.text ++ " does not exist"
  | missingResult type => "missing " ++ type.text ++ " return value"
  | callInstance kind method given =>
    Text.capitalized kind.name ++ " call to " ++ method.text ++ " with instance "
      ++ Text.described Var.description given

/-- What the back end does not support. -/
inductive Feature where
  | dynamicCall (name : String)
  | arrayDimensions (count : Nat)
  | classConstant (type : ValueType)
deriving DecidableEq

/-- The name of a feature. -/
def Feature.name : Feature → String
  | dynamicCall name => "invokedynamic " ++ name
  | arrayDimensions count => toString count ++ "-dimensional array construction"
  | classConstant type => "class constant of " ++ type.name

/-- Why no module can be made. -/
inductive BackendError where
  /-- The settings are not valid. -/
  | settings
  | program (error : ProgramError)
  | missingClass (name : String)
  | missingMethod (need : MethodNeed) (method : MethodRef)
  | missingField (field : FieldRef)
  | hierarchy (className : String) (fault : HierarchyFault)
  /-- A class has no tag though tags have been given. -/
  | noTag (className : String)
  | duplicateSlot (method : MethodRef)
  | kind (place : String) (fault : KindFault)
  | body (method : MethodRef) (fault : BodyFault)
  | unsupported (feature : Feature)
deriving DecidableEq

/-- The message of an error. -/
def BackendError.message : BackendError → String
  | settings => "Invalid configuration"
  | program error => "Invalid program: " ++ error.message
  | missingClass name => "Class not found: " ++ name
  | missingMethod .declared method => "Method not found: " ++ method.text
  | missingMethod .concrete method => "Method not found: concrete " ++ method.text
  | missingMethod .static method => "Method not found: static " ++ method.text
  | missingField field => "Field not found: " ++ field.text
  | hierarchy className fault =>
    "Inconsistent class hierarchy at " ++ className ++ ": " ++ fault.message
  | noTag className =>
    "Inconsistent class hierarchy at " ++ className ++ ": class has no type tag"
  | duplicateSlot method => "Method " ++ method.text ++ " already has a virtual table entry"
  | kind place fault => "Kind mismatch in " ++ place ++ ": " ++ fault.message
  | body method fault => "Malformed body of " ++ method.text ++ ": " ++ fault.message
  | unsupported feature => "Unsupported feature: " ++ feature.name

end ObjectBackend
