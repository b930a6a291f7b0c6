import ObjectBackend.Json.Library
import ObjectBackend.Source.Operand
import ObjectBackend.Source.Program

/-!
# Writing programs

The JSON document of a program and of its parts. Every member is written, whether it has its default
or not, and always in the same order. Reals are written with the fewest digits that read back;
infinite and undefined ones have no JSON form and become null.
-/

namespace ObjectBackend

open Floating

/-- Whether short reals are spelled by the digits of their own width or as long reals. -/
inductive SingleForm where
  | own
  | widened
deriving DecidableEq

namespace Json

/-- Short reals are positional while their point lies between -5 and 13. -/
def singleStyle : DecimalStyle := ⟨-5, 13, .even⟩

/-- Long reals are positional while their point lies between -4 and 16. -/
def doubleStyle : DecimalStyle := ⟨-4, 16, .even⟩

/-- The number of an integer. -/
def ofInt (n : Int) : Json := .number (.ofInt n)

/-- The number of a long real, or null if it is not finite. -/
def ofBinary64 (x : Binary64) : Json :=
  match x.datum with
  | .finite negative significand exponent =>
    .number (doubleStyle.numeral .double negative significand exponent)
  | _ => .null

/-- The number of a short real, or null if it is not finite. -/
def ofBinary32 (form : SingleForm) (x : Binary32) : Json :=
  match form with
  | .widened => ofBinary64 x.widen
  | .own =>
    match x.datum with
    | .finite negative significand exponent =>
      .number (singleStyle.numeral .single negative significand exponent)
    | _ => .null

/-- The array of a list. -/
def ofList {α : Type} (item : α → Json) (items : List α) : Json := .array (items.map item)

/-- What is there, or null. -/
def ofOption {α : Type} (item : α → Json) : Option α → Json
  | none => .null
  | some value => item value

end Json

/-- The document of a type. -/
def ValueType.toJson : ValueType → Json
  | .void => .string "void"
  | .primitive type => .object [("primitive", .string type.name)]
  | .object className => .object [("object", .string className)]
  | .array item => .object [("array", item.toJson)]

/-- The document of a kind. -/
def Kind.toJson : Kind → Json
  | .array element => .object [("array", .string element.name)]
  | kind => .string kind.name

/-- The document of a variable. -/
def Var.toJson (v : Var) : Json := .ofInt v.index

/-- The document of a block number. -/
def BlockId.toJson (b : BlockId) : Json := .ofInt b.index

/-- The members that spell a signature. -/
def Signature.members (s : Signature) : List (String × Json) :=
  [("name", .string s.name), ("params", .ofList ValueType.toJson s.parameters),
    ("ret", s.result.toJson)]

/-- The document of a method reference. -/
def MethodRef.toJson (m : MethodRef) : Json :=
  .object (("class", .string m.className) :: m.signature.members)

/-- The document of a field reference. -/
def FieldRef.toJson (f : FieldRef) : Json :=
  .object [("class", .string f.className), ("name", .string f.name)]

/-- The document of an operand. -/
def Operand.toJson (form : SingleForm) : Operand → Json
  | .var v => v.toJson
  | .optionalVar v => .ofOption Var.toJson v
  | .vars vs => .ofList Var.toJson vs
  | .type t => t.toJson
  | .int value => .ofInt value.toInt
  | .long value => .ofInt value.toInt
  | .float value => .ofBinary32 form value
  | .double value => .ofBinary64 value
  | .text value => .string value
  | .field f => f.toJson
  | .method m => m.toJson
  | .choice name => .string name

/-- The document of an instruction. -/
def Instruction.toJson (form : SingleForm) (i : Instruction) : Json :=
  let (operation, operands) := i.operands
  .object (("op", .string operation) ::
    operands.map fun (name, operand) => (name, operand.toJson form))

namespace Terminator

/-- The operation of a terminator and its operands. -/
def members : Terminator → String × List (String × Json)
  | jump target => ("jump", [("target", target.toJson)])
  | branch condition operand consequent alternative =>
    ("branch",
      [("condition", .string condition.name), ("operand", operand.toJson),
        ("consequent", consequent.toJson), ("alternative", alternative.toJson)])
  | binaryBranch condition first second consequent alternative =>
    ("binary_branch",
      [("condition", .string condition.name), ("first", first.toJson), ("second", second.toJson),
        ("consequent", consequent.toJson), ("alternative", alternative.toJson)])
  | switch condition table otherwise =>
    ("switch",
      [("condition", condition.toJson),
        ("table", .ofList (fun (key, target) => .array [.ofInt key.toInt, target.toJson]) table),
        ("default", otherwise.toJson)])
  | exit value => ("exit", [("value", .ofOption Var.toJson value)])
  | raise exception => ("raise", [("exception", exception.toJson)])
  | unreachable => ("unreachable", [])

/-- The document of a terminator. -/
def toJson (t : Terminator) : Json := .object (("op", .string t.members.1) :: t.members.2)

end Terminator

/-- The document of a phi value. -/
def Incoming.toJson (i : Incoming) : Json :=
  .object [("source", i.source.toJson), ("value", i.value.toJson)]

/-- The document of a phi. -/
def Phi.toJson (phi : Phi) : Json :=
  .object [("receiver", phi.receiver.toJson), ("incomings", .ofList Incoming.toJson phi.incomings)]

/-- The document of a handler. -/
def TryCatch.toJson (t : TryCatch) : Json :=
  .object
    [("exception_type", .ofOption .string t.exceptionType), ("handler", t.handler.toJson)]

/-- The document of a block. -/
def BasicBlock.toJson (form : SingleForm) (b : BasicBlock) : Json :=
  .object
    [("phis", .ofList Phi.toJson b.phis),
      ("instructions", .ofList (Instruction.toJson form) b.instructions),
      ("terminator", b.terminator.toJson),
      ("try_catches", .ofList TryCatch.toJson b.tryCatches),
      ("exception_variable", .ofOption Var.toJson b.exceptionVariable)]

/-- The document of a body. -/
def Body.toJson (form : SingleForm) (b : Body) : Json :=
  .object
    [("variables", .ofList Kind.toJson b.kinds),
      ("blocks", .ofList (BasicBlock.toJson form) b.blocks)]

/-- The document of an initial value. -/
def InitialValue.toJson : InitialValue → Json
  | .int value => .object [("kind", .string "int"), ("value", .ofInt value.toInt)]
  | .long value => .object [("kind", .string "long"), ("value", .ofInt value.toInt)]
  | .float value => .object [("kind", .string "float"), ("value", .ofBinary32 .own value)]
  | .double value => .object [("kind", .string "double"), ("value", .ofBinary64 value)]
  | .string value => .object [("kind", .string "string"), ("value", .string value)]

/-- The document of a field. -/
def FieldDef.toJson (f : FieldDef) : Json :=
  .object
    [("name", .string f.name), ("is_static", .bool f.isStatic), ("ty", f.type.toJson),
      ("initial", .ofOption InitialValue.toJson f.initial)]

/-- The document of a method. -/
def MethodDef.toJson (m : MethodDef) : Json :=
  .object
    (m.signature.members ++
      [("is_static", .bool m.isStatic), ("is_native", .bool m.isNative),
        ("is_abstract", .bool m.isAbstract), ("access", .string m.access.name),
        ("body", .ofOption (Body.toJson .own) m.body)])

/-- The document of a class. -/
def ClassDef.toJson (c : ClassDef) : Json :=
  .object
    [("name", .string c.name), ("parent", .ofOption .string c.parent),
      ("interfaces", .ofList .string c.interfaces), ("is_interface", .bool c.isInterface),
      ("is_abstract", .bool c.isAbstract), ("fields", .ofList FieldDef.toJson c.fields),
      ("methods", .ofList MethodDef.toJson c.methods)]

/-- The document of a program. -/
def Program.toJson (p : Program) : Json :=
  .object
    [("classes", .ofList ClassDef.toJson p.classes),
      ("entry_point", .ofOption MethodRef.toJson p.entryPoint)]

/-- The text a library writes of a program. -/
def Program.writeWith (library : Json.Library) (p : Program) : String := library.write p.toJson

/-- The text of a program. -/
def Program.write (p : Program) : String := p.writeWith Json.library

end ObjectBackend
