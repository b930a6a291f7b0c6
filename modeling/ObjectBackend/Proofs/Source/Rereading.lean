import ObjectBackend.Proofs.Source.Values

/-!
# Programs read back

What is read of the document of a program. Every part of a program is read as it was written, with
the exception of its reals: `reread?` of a part replaces them by what is read of them, and there is
nothing to read if one of them cannot be read.
-/

namespace ObjectBackend

open Floating
open Json (Manner RecordReader part? orNull?)
open Json.RecordReader (required)
open Json (toList?_ofList toList?_ofList_self orNull?_ofOption orNull?_ofOption_self)

section Types

variable (manner : Manner)

/-- A primitive type is read by its name. -/
@[simp] lemma Primitive.ofJson?_string (p : Primitive) :
    ofJson? manner (.string p.name) = some p := by
  cases p <;> rfl

/-- An element kind is read by its name. -/
@[simp] lemma ElementKind.ofJson?_string (k : ElementKind) :
    ofJson? manner (.string k.name) = some k := by
  cases k <;> rfl

/-- A numeric type is read by its name. -/
@[simp] lemma Numeric.ofJson?_string (n : Numeric) :
    ofJson? manner (.string n.name) = some n := by
  cases n <;> rfl

/-- A type is read as it was. -/
@[simp] lemma ValueType.ofJson?_toJson (type : ValueType) :
    ofJson? manner type.toJson = some type := by
  induction type with
  | void => rfl
  | primitive p =>
    rw [toJson, ofJson?, Primitive.ofJson?_string]
    rfl
  | object className => rfl
  | array item ih =>
    rw [toJson, ofJson?, ih]
    rfl

/-- Parameters are read as they were. -/
@[simp] lemma toList?_parameters (parameters : List ValueType) :
    (Json.ofList ValueType.toJson parameters).toList? (ValueType.ofJson? manner) =
      some parameters :=
  toList?_ofList_self (ValueType.ofJson?_toJson manner) parameters

/-- A signature is read from the members it stands among. -/
lemma Signature.run_reader (s : Signature) (members : List (String × Json))
    (name : part? "name" members = some (some (.string s.name)))
    (params : part? "params" members = some (some (.ofList ValueType.toJson s.parameters)))
    (ret : part? "ret" members = some (some s.result.toJson)) :
    (reader manner).run (.named members) = some (s, .named members) := by
  simp [reader, name, params, ret]

end Types

section Parts

/-- A kind is read as it was. -/
@[simp] lemma Kind.ofJson?_toJson (k : Kind) : ofJson? k.toJson = some k := by
  cases k with
  | array element =>
    rw [toJson, ofJson?, ElementKind.ofJson?_string]
    rfl
  | _ => rfl

/-- A variable is read as it was. -/
@[simp] lemma Var.ofJson?_toJson (v : Var) : ofJson? v.toJson = some v := by
  rw [ofJson?, toJson, index, Json.toUInt32?_ofInt]
  rfl

/-- A block number is read as it was. -/
@[simp] lemma BlockId.ofJson?_toJson (b : BlockId) : ofJson? b.toJson = some b := by
  rw [ofJson?, toJson, index, Json.toUInt32?_ofInt]
  rfl

/-- A variable that may be missing is read as it was. -/
@[simp] lemma orNull?_var (v : Option Var) :
    orNull? Var.ofJson? (.ofOption Var.toJson v) = some v :=
  orNull?_ofOption_self Var.ofJson?_toJson (by simp [Var.toJson, Json.ofInt]) v

/-- A text that may be missing is read as it was. -/
@[simp] lemma orNull?_text (text : Option String) :
    orNull? Json.toText? (.ofOption .string text) = some text :=
  orNull?_ofOption_self Json.toText?_string (by simp) text

/-- Variables are read as they were. -/
@[simp] lemma toList?_vars (vs : List Var) :
    (Json.ofList Var.toJson vs).toList? Var.ofJson? = some vs :=
  toList?_ofList_self Var.ofJson?_toJson vs

/-- A reference to a field is read as it was. -/
@[simp] lemma FieldRef.ofJson?_toJson (f : FieldRef) : ofJson? f.toJson = some f := rfl

/-- A reference to a method is read as it was. -/
@[simp] lemma MethodRef.ofJson?_toJson (m : MethodRef) : ofJson? m.toJson = some m := by
  have signed := m.signature.run_reader .loose
    (("class", .string m.className) :: m.signature.members) rfl rfl rfl
  have classPart : part? "class" (("class", .string m.className) :: m.signature.members) =
      some (some (.string m.className)) := rfl
  rw [ofJson?, toJson, Json.toMixedRecord?_object m.isWritable_toJson]
  simp [classPart, signed]

end Parts

section Choices

/-- An operator is read by its name. -/
@[simp] lemma BinaryOperator.toChoice?_name (o : BinaryOperator) :
    (Json.string o.name).toChoice? .loose all name = some o := by
  cases o <;> rfl

/-- A subword is read by its name. -/
@[simp] lemma Subword.toChoice?_name (s : Subword) :
    (Json.string s.name).toChoice? .loose all name = some s := by
  cases s <;> rfl

/-- A direction is read by its name. -/
@[simp] lemma CastDirection.toChoice?_name (d : CastDirection) :
    (Json.string d.name).toChoice? .loose all name = some d := by
  cases d <;> rfl

/-- A manner of invocation is read by its name. -/
@[simp] lemma InvocationKind.toChoice?_name (k : InvocationKind) :
    (Json.string k.name).toChoice? .loose all name = some k := by
  cases k <;> rfl

/-- A condition is read by its name. -/
@[simp] lemma BranchCondition.toChoice?_name (c : BranchCondition) :
    (Json.string c.name).toChoice? .loose all name = some c := by
  cases c <;> rfl

/-- A condition on two operands is read by its name. -/
@[simp] lemma BinaryBranchCondition.toChoice?_name (c : BinaryBranchCondition) :
    (Json.string c.name).toChoice? .loose all name = some c := by
  cases c <;> rfl

/-- An access is read by its name. -/
@[simp] lemma Access.toChoice?_name (a : Access) :
    (Json.string a.name).toChoice? .strict all name = some a := by
  cases a <;> rfl

end Choices

/-- What is read of an instruction that has been written. -/
def Instruction.reread? : Instruction → Option Instruction
  | floatConstant receiver value => value.reread?.map (floatConstant receiver)
  | doubleConstant receiver value => value.reread?.map (doubleConstant receiver)
  | i => some i

open Instruction in
/-- The operands of an operation are read from the members they stand among. -/
lemma Instruction.run_reader (i : Instruction) :
    ((reader i.operands.1).run (.named (("op", .string i.operands.1) ::
      i.operands.2.map fun operand => (operand.1, operand.2.toJson .own)))).map (·.1) =
      i.reread? := by
  cases i <;> simp [operands, part?, reader, reader.receiver, reader.var, reader.var?, reader.vars,
    reader.text, reader.type, reader.numeric, reader.field, reader.choice, Operand.toJson, reread?,
    Binary32.reread?, Binary64.reread?, Function.comp_def]

/-- What is read of an instruction that has been written. -/
lemma Instruction.ofJson?_toJson (i : Instruction) : ofJson? (i.toJson .own) = i.reread? := by
  have new : part? "op" (("op", .string i.operands.1) ::
      i.operands.2.map fun operand => (operand.1, operand.2.toJson .own)) =
        some (some (.string i.operands.1)) := by
    cases i <;> rfl
  exact (Json.toTagged?_object i.isWritable_toJson new).trans i.run_reader

/-- The table of a switch is read as it was. -/
@[simp] lemma toList?_table (table : List (Int32 × BlockId)) :
    (Json.ofList (fun entry => .array [.ofInt entry.1.toInt, entry.2.toJson]) table).toList?
      (Json.toPair? Json.toInt32? BlockId.ofJson?) = some table :=
  toList?_ofList_self (fun entry => by simp [Json.toPair?]) table

/-- A terminator is read as it was. -/
@[simp] lemma Terminator.ofJson?_toJson (t : Terminator) : ofJson? t.toJson = some t := by
  have new : part? "op" (("op", .string t.members.1) :: t.members.2) =
        some (some (.string t.members.1)) := by
    cases t <;> rfl
  rw [ofJson?, toJson, Json.toTagged?_object t.isWritable_toJson new]
  cases t <;> simp [members, part?, reader, reader.var, reader.block, reader.choice]

/-- An incoming value is read as it was. -/
lemma Incoming.ofJson?_toJson (i : Incoming) : ofJson? i.toJson = some i := by
  rw [ofJson?, toJson, Json.toRecord?_object]
  simp [part?]

/-- Incoming values are read as they were. -/
@[simp] lemma toList?_incomings (incomings : List Incoming) :
    (Json.ofList Incoming.toJson incomings).toList? Incoming.ofJson? = some incomings :=
  toList?_ofList_self Incoming.ofJson?_toJson incomings

/-- A phi is read as it was. -/
lemma Phi.ofJson?_toJson (phi : Phi) : ofJson? phi.toJson = some phi := by
  rw [ofJson?, toJson, Json.toRecord?_object]
  simp [part?]

/-- Phis are read as they were. -/
@[simp] lemma toList?_phis (phis : List Phi) :
    (Json.ofList Phi.toJson phis).toList? Phi.ofJson? = some phis :=
  toList?_ofList_self Phi.ofJson?_toJson phis

/-- A protected range is read as it was. -/
lemma TryCatch.ofJson?_toJson (t : TryCatch) : ofJson? t.toJson = some t := by
  rw [ofJson?, toJson, Json.toRecord?_object]
  simp [part?]

/-- Protected ranges are read as they were. -/
@[simp] lemma toList?_tryCatches (tryCatches : List TryCatch) :
    (Json.ofList TryCatch.toJson tryCatches).toList? TryCatch.ofJson? = some tryCatches :=
  toList?_ofList_self TryCatch.ofJson?_toJson tryCatches

/-- What is read of a block that has been written. -/
def BasicBlock.reread? (b : BasicBlock) : Option BasicBlock :=
  (b.instructions.mapM Instruction.reread?).map fun instructions => { b with instructions }

/-- What is read of a block that has been written. -/
lemma BasicBlock.ofJson?_toJson (b : BasicBlock) : ofJson? (b.toJson .own) = b.reread? := by
  have bound : b.reread? = (b.instructions.mapM Instruction.reread?).bind fun instructions =>
      some { b with instructions } := Option.map_eq_bind
  rw [ofJson?, toJson, Json.toRecord?_object, bound]
  simp [part?, toList?_ofList Instruction.ofJson?_toJson, Option.bind_map]

/-- What is read of a body that has been written. -/
def Body.reread? (b : Body) : Option Body :=
  (b.blocks.mapM BasicBlock.reread?).map fun blocks => { b with blocks }

/-- What is read of a body that has been written. -/
lemma Body.ofJson?_toJson (b : Body) : ofJson? (b.toJson .own) = b.reread? := by
  rw [ofJson?, toJson, Json.toRecord?_object]
  simp [part?, reread?, toList?_ofList_self Kind.ofJson?_toJson,
    toList?_ofList BasicBlock.ofJson?_toJson, Function.comp_def]

/-- What is read of an initial value that has been written. -/
def InitialValue.reread? : InitialValue → Option InitialValue
  | float value => value.reread?.map float
  | double value => value.reread?.map double
  | v => some v

/-- What is read of an initial value that has been written. -/
lemma InitialValue.ofJson?_toJson (v : InitialValue) : ofJson? v.toJson = v.reread? := by
  cases v <;> simp [ofJson?, toJson, Json.toRecord?_object, part?, Json.toName?, ofKind?, reread?,
    Binary32.reread?, Binary64.reread?, Function.comp_def]

/-- What is read of a field that has been written. -/
def FieldDef.reread? (f : FieldDef) : Option FieldDef :=
  (f.initial.mapM InitialValue.reread?).map fun initial => { f with initial }

/-- What is read of a field that has been written. -/
lemma FieldDef.ofJson?_toJson (f : FieldDef) : ofJson? f.toJson = f.reread? := by
  have notNull : ∀ v : InitialValue, v.toJson ≠ .null := by
    intro v
    cases v <;> simp [InitialValue.toJson]
  rw [ofJson?, toJson, Json.toRecord?_object]
  simp [part?, reread?, orNull?_ofOption InitialValue.ofJson?_toJson notNull, Function.comp_def]

/-- What is read of a method that has been written. -/
def MethodDef.reread? (m : MethodDef) : Option MethodDef :=
  (m.body.mapM Body.reread?).map fun body => { m with body }

/-- What is read of a method that has been written. -/
lemma MethodDef.ofJson?_toJson (m : MethodDef) : ofJson? m.toJson = m.reread? := by
  have notNull : ∀ b : Body, b.toJson .own ≠ .null := by simp [Body.toJson]
  have signed := m.signature.run_reader .loose
    (m.signature.members ++
      [("is_static", Json.bool m.isStatic), ("is_native", .bool m.isNative),
        ("is_abstract", .bool m.isAbstract), ("access", .string m.access.name),
        ("body", .ofOption (Body.toJson .own) m.body)]) rfl rfl rfl
  rw [ofJson?, toJson, Json.toMixedRecord?_object m.isWritable_toJson, StateT.run_bind, signed]
  simp [part?, Signature.members, reread?, orNull?_ofOption Body.ofJson?_toJson notNull,
    Function.comp_def]

/-- What is read of a class that has been written. -/
def ClassDef.reread? (c : ClassDef) : Option ClassDef :=
  (c.fields.mapM FieldDef.reread?).bind fun fields =>
    (c.methods.mapM MethodDef.reread?).map fun methods => { c with fields, methods }

/-- What is read of a class that has been written. -/
lemma ClassDef.ofJson?_toJson (c : ClassDef) : ofJson? c.toJson = c.reread? := by
  rw [ofJson?, toJson, Json.toRecord?_object]
  simp [part?, reread?, toList?_ofList_self Json.toText?_string,
    toList?_ofList FieldDef.ofJson?_toJson, toList?_ofList MethodDef.ofJson?_toJson,
    Function.comp_def, Option.bind_map]

/-- What is read of the parts of a program that has been written. -/
lemma Program.partsOfJson?_toJson (p : Program) : partsOfJson? p.toJson =
    (p.classes.mapM ClassDef.reread?).bind fun classes => some (classes, p.entryPoint) := by
  rw [partsOfJson?, toJson, Json.toRecord?_object]
  simp [part?, toList?_ofList ClassDef.ofJson?_toJson,
    orNull?_ofOption_self MethodRef.ofJson?_toJson (by simp [MethodRef.toJson]), Option.bind_map]

end ObjectBackend
