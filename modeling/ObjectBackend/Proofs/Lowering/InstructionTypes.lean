import ObjectBackend.Proofs.Lowering.Parameters
import ObjectBackend.Proofs.Lowering.Typing

/-!
# Types in the code of instructions

The code of an instruction is well typed (`plainInstruction_typed`, `siteInstruction_typed`). What
it does with a variable goes by a type that has been checked, and each check gives the type of the
variable's register.
-/

namespace ObjectBackend

open Target

/-- The operation on reals that an operator stands for supports reals. -/
lemma BinaryOperator.supports_of_realOp? {operator : BinaryOperator} {op : BinaryOp} {type : IrType}
    (found : operator.realOp? = some op) (floating : type.isFloating = true) :
    op.Supports type := by
  cases operator <;> cases found <;> exact floating

/-- The operation of an operator on integers supports the integer types. -/
lemma BinaryOperator.supports_of_integerOp? {operator : BinaryOperator} {op : BinaryOp}
    {type : IrType} (found : operator.integerOp? = some op) (integer : type.isInteger = true) :
    op.Supports type := by
  cases operator <;> cases found <;> exact integer

/-- Distances are for integers only. -/
lemma BinaryOperator.isShift_eq_false_of_realOp? {operator : BinaryOperator} {op : BinaryOp}
    (found : operator.realOp? = some op) : operator.isShift = false := by
  cases operator <;> first | rfl | cases found

namespace Lowering

variable {c : Context} {Δ : List (Local × IrType)}

/-- Code that is well typed wherever it stands. -/
abbrev AlwaysTyped (c : Context) (e : Emit Unit) : Prop := ∀ Δ, e.Typed c Δ

section Checks

/-- A variable that is expected to hold a reference holds an address. -/
lemma expectReference_spec {v : Var} :
    Except.Ensures (fun _ => c.typeOf v = .ok .ptr) (c.expectReference v) := by
  refine .bind fun kind given => ?_
  split
  case isTrue reference =>
    rw [Context.typeOf, given]
    exact .pure (congrArg Except.ok (IrType.ofKind_of_isReference reference))
  case isFalse => exact .error _

/-- A variable that has an element kind holds an address. -/
lemma elementKindOf_spec {v : Var} :
    Except.Ensures (fun _ => c.typeOf v = .ok .ptr) (c.elementKindOf v) := by
  refine .bind fun kind given => ?_
  split
  case h_1 =>
    rw [Context.typeOf, given]
    exact .pure rfl
  case h_2 => exact .error _

end Checks

section Arithmetic

/-- The registers of a numeric type are floating just if it is. -/
lemma isFloating_irType (type : Numeric) : type.irType.isFloating = type.isFloating := by
  cases type <;> rfl

/-- The registers of a numeric type are integers just if it is not floating. -/
lemma isInteger_irType (type : Numeric) : type.irType.isInteger = !type.isFloating := by
  cases type <;> rfl

/-- A conversion between different numeric types is between types that it is for. -/
lemma castOp_allows {source target : Numeric} (ne : source ≠ target) :
    (source.castOp target).Allows source.irType target.irType := by
  cases source <;> cases target <;> first | exact absurd rfl ne | decide

/-- The distance of a shift is of the type of the shifted number. -/
lemma shiftDistance_typed {distance : Var} (ofDistance : c.typeOf distance = .ok .i32)
    {type : IrType} (integer : type = .i32 ∨ type = .i64) :
    (shiftDistance distance type).Yields c Δ type := by
  have widens : CastOp.sext.Allows .i32 .i64 := by decide
  dsimp only [shiftDistance]
  rcases integer with rfl | rfl
  · exact .define rfl (.binary rfl (.ofVar ofDistance) (.int rfl))
  · exact (Emit.Types.define rfl (.cast widens (.ofVar ofDistance))).bind
      fun widened Δ' _ typed => .define rfl (.binary rfl typed (.int rfl))

/-- A comparison is well typed. -/
lemma comparison_typed (receiver first second : Var) (operand : Numeric) :
    Except.Ensures (AlwaysTyped c) (comparison c receiver first second operand) :=
  .bind fun _ ofFirst => .bind fun _ ofSecond => .bind fun _ ofReceiver => .pure fun _ =>
    .assignVar (expect_spec _ ofReceiver) rfl <| .call .symbol <| List.forall_mem_cons.2
      ⟨.ofVar (expect_spec _ ofFirst),
        List.forall_mem_singleton.2 (.ofVar (expect_spec _ ofSecond))⟩

/-- Arithmetic is well typed. -/
lemma arithmetic_typed (operator : BinaryOperator) (receiver first second : Var)
    (operand : Numeric) :
    Except.Ensures (AlwaysTyped c) (arithmetic c operator receiver first second operand) := by
  intro code given
  obtain ⟨op, found, ofFirst, ofReceiver, ofSecond, rfl⟩ := arithmetic_spec code given
  have supports : op.Supports operand.irType := by
    rcases found with ⟨floating, found⟩ | ⟨integer, found⟩
    · exact BinaryOperator.supports_of_realOp? found ((isFloating_irType _).trans floating)
    · refine BinaryOperator.supports_of_integerOp? found ?_
      rw [isInteger_irType, integer]
      rfl
  intro Δ
  rw [operationCode]
  split
  case isTrue shift =>
    rw [if_pos shift] at ofSecond
    have integer : operand.isFloating = false := by
      refine (found.resolve_left fun real => ?_).1
      rw [BinaryOperator.isShift_eq_false_of_realOp? real.2] at shift
      cases shift
    have integer : operand.irType = .i32 ∨ operand.irType = .i64 := by
      cases operand with
      | int => exact .inl rfl
      | long => exact .inr rfl
      | float | double => cases integer
    exact (shiftDistance_typed ofSecond integer).bind fun rhs Δ' _ typed =>
      .assignVar ofReceiver rfl (.binary supports (.ofVar ofFirst) typed)
  case isFalse plain =>
    rw [if_neg plain] at ofSecond
    exact .assignVar ofReceiver rfl (.binary supports (.ofVar ofFirst) (.ofVar ofSecond))

/-- A binary operation is well typed. -/
lemma binary_typed (operator : BinaryOperator) (receiver first second : Var) (operand : Numeric) :
    Except.Ensures (AlwaysTyped c) (binary c operator receiver first second operand) := by
  rw [binary]
  split
  · exact comparison_typed _ _ _ _
  · exact arithmetic_typed _ _ _ _ _

/-- A negation is well typed. -/
lemma negation_typed (receiver operand : Var) (type : Numeric) :
    Except.Ensures (AlwaysTyped c) (negation c receiver operand type) := by
  refine .bind fun _ ofOperand => .bind fun _ ofReceiver => .pure fun _ => ?_
  have ofReceiver := expect_spec _ ofReceiver
  have ofOperand := expect_spec _ ofOperand
  split
  case isTrue floating =>
    rw [← isFloating_irType] at floating
    exact .assignVar ofReceiver rfl (.fneg floating (.ofVar ofOperand))
  case isFalse integral =>
    have integer : type.irType.isInteger = true := by
      rw [isInteger_irType, Bool.eq_false_iff.2 integral]
      rfl
    exact .assignVar ofReceiver rfl (.binary integer (.int integer) (.ofVar ofOperand))

/-- A numeric cast is well typed. -/
lemma numericCast_typed (receiver value : Var) (source target : Numeric) :
    Except.Ensures (AlwaysTyped c) (numericCast c receiver value source target) := by
  refine .bind fun _ ofValue => .bind fun _ ofReceiver => .pure fun _ => ?_
  have ofReceiver := expect_spec _ ofReceiver
  have ofValue := expect_spec _ ofValue
  split
  case isTrue same =>
    subst same
    exact .copyTo ofReceiver (.ofVar ofValue)
  case isFalse ne => exact .assignVar ofReceiver rfl (.cast (castOp_allows ne) (.ofVar ofValue))

/-- A cast of integers is well typed. -/
lemma integerCast_typed (receiver value : Var) (subword : Subword) :
    Except.Ensures (AlwaysTyped c) (integerCast c receiver value subword) := by
  refine .bind fun _ ofValue => .bind fun _ ofReceiver => .pure fun _ => ?_
  have narrows : CastOp.trunc.Allows .i32 subword.irType ∧
      subword.extension.Allows subword.irType .i32 := by
    cases subword <;> decide
  exact (Emit.Types.define rfl (.cast narrows.1 (.ofVar (expect_spec _ ofValue)))).bind
    fun narrow Δ' _ typed => .assignVar (expect_spec _ ofReceiver) rfl (.cast narrows.2 typed)

end Arithmetic

section Access

variable {storage register : IrType} {address : Value}

/-- What is loaded from memory can be extended to a register, and what is in the register cut off to
be stored, unless both are of the same type. -/
structure Stores (storage register : IrType) (extension : CastOp) : Prop where
  scalar : storage.IsScalar
  loads : storage ≠ register → extension.Allows storage register
  stores : register ≠ storage → CastOp.trunc.Allows register storage

/-- Elements are stored as they are extended. -/
lemma stores_element (kind : ElementKind) :
    Stores (.element kind) (.ofKind kind.kind) (elementExtension kind) := by
  cases kind <;> exact ⟨by decide, by decide, by decide⟩

/-- Fields are stored as they are extended. -/
lemma stores_field {type : ValueType} (proper : (IrType.ofValue type).IsScalar) :
    Stores (.storage type) (.ofValue type) (fieldExtension type) := by
  cases type with
  | void => cases proper
  | primitive type => cases type <;> exact ⟨by decide, by decide, by decide⟩
  | object | array => exact ⟨rfl, fun ne => absurd rfl ne, fun ne => absurd rfl ne⟩

/-- A load into a variable is well typed if its address is. -/
lemma loadInto_typed {receiver : Var} {extension : CastOp}
    (stores : Stores storage register extension) (ofReceiver : c.typeOf receiver = .ok register)
    (typed : address.HasType (c.Assigns Δ) .ptr) :
    (loadInto receiver storage register extension address).Typed c Δ := by
  rw [loadInto]
  split
  case isTrue same =>
    subst same
    exact .assignVar ofReceiver rfl (.load stores.scalar typed)
  case isFalse ne =>
    exact (Emit.Types.define rfl (.load stores.scalar typed)).bind fun loaded Δ' _ typed' =>
      .assignVar ofReceiver rfl (.cast (stores.loads ne) typed')

/-- A store of a variable is well typed if its address is. -/
lemma storeFrom_typed {value : Var} {extension : CastOp}
    (stores : Stores storage register extension) (ofValue : c.typeOf value = .ok register)
    (typed : address.HasType (c.Assigns Δ) .ptr) :
    (storeFrom value storage register address).Typed c Δ := by
  dsimp only [storeFrom]
  split
  case isTrue same =>
    subst same
    exact .run (.store stores.scalar (.ofVar ofValue) typed)
  case isFalse ne =>
    exact (Emit.Types.define rfl (.cast (stores.stores ne) (.ofVar ofValue))).bind
      fun stored Δ' more typed' =>
        .run (.store stores.scalar typed' (typed.mono (Context.Assigns.mono more)))

/-- A class constant is well typed. -/
lemma classConstant_typed (receiver : Var) (type : ValueType) :
    Except.Ensures (AlwaysTyped c) (classConstant c receiver type) :=
  .bind fun _ _ => .bind fun _ ofReceiver => .pure fun _ =>
    .copyTo (expect_spec _ ofReceiver) .symbol

/-- Making an object is well typed. -/
lemma construct_typed (receiver : Var) (className : String) :
    Except.Ensures (AlwaysTyped c) (construct c receiver className) := by
  refine .bind fun _ _ => ?_
  split
  · exact .error _
  · exact .bind fun _ ofReceiver => .pure fun _ =>
      .assignVar (expect_spec _ ofReceiver) rfl
        (.call .symbol (List.forall_mem_singleton.2 Value.HasType.symbol))

/-- Making an array is well typed. -/
lemma constructArray_typed (receiver : Var) (item : ValueType) (size : Var) :
    Except.Ensures (AlwaysTyped c) (constructArray c receiver item size) := by
  dsimp only [constructArray]
  split
  · exact .error _
  refine .bind fun _ ofSize => .bind fun _ ofReceiver => ?_
  have ofReceiver := expect_spec _ ofReceiver
  have allocate : AlwaysTyped c (.assignVar receiver
      (.call .ptr (.ofRuntime .allocArray)
        [.ptr (.symbol (.arrayMetadata item.elementKind)),
          .i32 ((IrType.element item.elementKind).scalarSize?.getD 8), ⟨.i32, .ofVar size⟩])) := by
    refine fun _ => .assignVar ofReceiver rfl (.call .symbol ?_)
    refine List.forall_mem_cons.2 ⟨.symbol, List.forall_mem_cons.2 ⟨.int rfl, ?_⟩⟩
    exact List.forall_mem_singleton.2 (.ofVar (expect_spec _ ofSize))
  split
  · refine .bind fun itemClass _ => .pure fun Δ => (allocate Δ).andThen ?_
    exact (Emit.Types.define rfl (.fieldOf (.ofVar ofReceiver))).bind fun slot Δ' _ typed =>
      .run (.store rfl .symbol typed)
  · exact .pure allocate

/-- Making an array of arrays is well typed. -/
lemma constructMultiArray_typed (receiver : Var) (item : ValueType) (dimensions : List Var) :
    Except.Ensures (AlwaysTyped c) (constructMultiArray c receiver item dimensions) := by
  rw [constructMultiArray.eq_def]
  split
  · exact constructArray_typed _ _ _
  · exact .error _

/-- Copying an array is well typed. -/
lemma cloneArray_typed (receiver array : Var) :
    Except.Ensures (AlwaysTyped c) (cloneArray c receiver array) :=
  .bind fun _ ofArray => .bind fun _ ofReceiver => .pure fun _ =>
    .assignVar (expect_spec _ ofReceiver) rfl (.call .symbol
      (List.forall_mem_singleton.2 (.ofVar (elementKindOf_spec _ ofArray))))

/-- The address of a static field is an address. -/
lemma staticField_typed (field : FieldRef) :
    Except.Ensures (fun place => ∀ Δ, place.1.Yields c Δ .ptr) (staticField c field) := by
  rw [staticField]
  split
  case h_1 => exact .error _
  case h_2 =>
    split
    case isTrue => exact .pure fun _ => .value .symbol
    case isFalse => exact .error _

/-- The address of an instance field is an address. -/
lemma instanceField_typed (inst : Var) (field : FieldRef) :
    Except.Ensures (fun place => ∀ Δ, place.1.Yields c Δ .ptr) (instanceField c inst field) := by
  refine .bind fun _ ofInst => ?_
  split
  case h_1 => exact .error _
  case h_2 =>
    exact .pure fun _ => .define rfl (.fieldOf (.ofVar (expectReference_spec _ ofInst)))

/-- The address of a field is an address. -/
lemma fieldPlace_typed (inst : Option Var) (field : FieldRef) (used : ValueType) :
    Except.Ensures (fun place => ∀ Δ, place.1.Yields c Δ .ptr) (fieldPlace c inst field used) := by
  dsimp only [fieldPlace]
  cases inst with
  | none =>
    refine .bind fun place given => ?_
    split
    · exact .pure (staticField_typed field place given)
    · exact .error _
  | some inst =>
    refine .bind fun place given => ?_
    split
    · exact .pure (instanceField_typed inst field place given)
    · exact .error _

/-- Reading a field is well typed. -/
lemma getField_typed (receiver : Var) (inst : Option Var) (field : FieldRef) (type : ValueType) :
    Except.Ensures (AlwaysTyped c) (getField c receiver inst field type) := by
  refine .bind fun place given => .bind fun _ ofReceiver => .pure fun Δ => ?_
  have ofReceiver := expect_spec _ ofReceiver
  exact (fieldPlace_typed inst field type place given Δ).bind fun _ _ _ typed =>
    loadInto_typed (stores_field (c.isScalar ofReceiver)) ofReceiver typed

/-- Writing a field is well typed. -/
lemma putField_typed (inst : Option Var) (field : FieldRef) (value : Var) (type : ValueType) :
    Except.Ensures (AlwaysTyped c) (putField c inst field value type) := by
  refine .bind fun place given => .bind fun _ ofValue => .pure fun Δ => ?_
  have ofValue := expect_spec _ ofValue
  exact (fieldPlace_typed inst field type place given Δ).bind fun _ _ _ typed =>
    storeFrom_typed (stores_field (c.isScalar ofValue)) ofValue typed

/-- Reading the length of an array is well typed. -/
lemma arrayLength_typed (receiver array : Var) :
    Except.Ensures (AlwaysTyped c) (arrayLength c receiver array) :=
  .bind fun _ ofArray => .bind fun _ ofReceiver => .pure fun _ =>
    (Emit.Types.define rfl (.fieldOf (.ofVar (elementKindOf_spec _ ofArray)))).bind
      fun _ _ _ typed => .assignVar (expect_spec _ ofReceiver) rfl (.load rfl typed)

/-- The address of an element is an address. -/
lemma elementAddress_typed {array index : Var} (kind : ElementKind)
    (ofArray : c.typeOf array = .ok .ptr) (ofIndex : c.typeOf index = .ok .i32) :
    (elementAddress array index kind).Yields c Δ .ptr :=
  (Emit.Types.define rfl (.fieldOf (.ofVar ofArray))).bind fun _ _ _ typed =>
    .define rfl (.element typed (List.forall_mem_singleton.2 (.ofVar ofIndex)))

/-- Reading an element is well typed. -/
lemma getElement_typed (receiver array index : Var) :
    Except.Ensures (AlwaysTyped c) (getElement c receiver array index) :=
  .bind fun kind ofArray => .bind fun _ ofReceiver => .bind fun _ ofIndex => .pure fun _ =>
    (elementAddress_typed kind (elementKindOf_spec _ ofArray) (expect_spec _ ofIndex)).bind
      fun _ _ _ typed => loadInto_typed (stores_element kind) (expect_spec _ ofReceiver) typed

/-- Writing an element is well typed. -/
lemma putElement_typed (array index value : Var) :
    Except.Ensures (AlwaysTyped c) (putElement c array index value) :=
  .bind fun kind ofArray => .bind fun _ ofValue => .bind fun _ ofIndex => .pure fun _ =>
    (elementAddress_typed kind (elementKindOf_spec _ ofArray) (expect_spec _ ofIndex)).bind
      fun _ _ _ typed => storeFrom_typed (stores_element kind) (expect_spec _ ofValue) typed

end Access

section Calls

/-- The method in a slot is an address. -/
lemma loadSlot_typed {inst : Var} (ofInst : c.typeOf inst = .ok .ptr) (slot : Slot) :
    (loadSlot inst slot).Yields c Δ .ptr := by
  refine (Emit.Types.load .ptr rfl (.ofVar ofInst)).bind fun metadata Δ₁ _ typed => ?_
  refine .bind (P := fun Δ' v => v.HasType (c.Assigns Δ') .ptr) ?_ fun address Δ₂ _ typed' =>
    .load .ptr rfl typed'
  cases slot with
  | ofClass | ofInterface => exact .define rfl (.fieldOf typed)

/-- The callee of an invocation is an address. -/
lemma callee_typed {inst : Option Var} (ofInst : ∀ v, inst = some v → c.typeOf v = .ok .ptr)
    (method : MethodRef) (kind : InvocationKind) :
    Except.Ensures (fun code => ∀ Δ, code.Yields c Δ .ptr) (callee c inst method kind) := by
  have direct : Except.Ensures (fun code : Emit Value => ∀ Δ, code.Yields c Δ .ptr)
      (do return pure (.symbol (← directCallee c method (kind = .static)))) :=
    .bind fun _ _ => .pure fun _ => .value .symbol
  dsimp only [callee]
  split
  · split
    case h_1 slot _ => exact .pure fun _ => loadSlot_typed (ofInst _ rfl) slot
    case h_2 => exact direct
  · exact direct

/-- The arguments of an invocation are well typed. -/
lemma callArguments_typed {inst : Option Var} {method : MethodRef} {arguments : List Var} :
    Except.Ensures (fun operands => (∀ v, inst = some v → c.typeOf v = .ok .ptr) ∧
        ∀ o ∈ operands, ∀ Δ, o.WellTyped (c.Assigns Δ))
      (callArguments c inst method arguments) := by
  refine .bind fun _ checked => .bind fun operands given => .pure ?_
  have ofInst : ∀ v, inst = some v → c.typeOf v = .ok .ptr := by
    rintro v rfl
    exact expectReference_spec _ checked
  refine ⟨ofInst, List.forall_mem_append.2 ⟨fun o mem Δ => ?_, fun o mem Δ => ?_⟩⟩
  · obtain ⟨v, isInst, rfl⟩ := Option.map_eq_some_iff.1 (Option.mem_toList.1 mem)
    exact .ofVar (ofInst v isInst)
  · obtain ⟨⟨argument, parameter⟩, _, given⟩ := Except.exists_of_mem_of_mapM_eq_ok given mem
    obtain ⟨_, checked, eq⟩ := Except.exists_of_bind_eq_ok given
    rw [← Except.ok.inj eq]
    exact .ofVar (expect_spec _ checked)

/-- An invocation is well typed. -/
lemma invoke_typed (receiver inst : Option Var) (method : MethodRef) (arguments : List Var)
    (kind : InvocationKind) :
    Except.Ensures (AlwaysTyped c) (invoke c receiver inst method arguments kind) := by
  dsimp only [invoke]
  split
  · exact .error _
  split
  · exact .error _
  refine .bind fun operands given => .bind fun _ checked => .bind fun target given' =>
    .pure fun Δ => ?_
  obtain ⟨ofInst, typed⟩ := callArguments_typed operands given
  refine (callee_typed ofInst method kind target given' Δ).bind fun callee Δ' _ typed' => ?_
  have call : (Instr.call (.ofValue method.signature.result) callee operands).WellTyped
      (c.Assigns Δ') := .call typed' fun o mem => typed o mem Δ'
  cases receiver with
  | none => exact .run call
  | some v =>
    dsimp only [Option.forM] at checked
    split at checked
    case isTrue => cases checked
    case isFalse proper => exact .assignVar (expect_spec _ checked) (if_neg proper) call

end Calls

section Tests

variable {test : Value → Emit Value}

/-- Copying a flag is well typed. -/
lemma copyFlag_typed {receiver : Var} (ofReceiver : c.typeOf receiver = .ok .i32) {flag : Value}
    (typed : flag.HasType (c.Assigns Δ) .i1) : (copyFlag receiver flag).Typed c Δ := by
  have widens : CastOp.zext.Allows .i1 .i32 := by decide
  exact .assignVar ofReceiver rfl (.cast widens typed)

/-- A test that fails is well typed. -/
lemma failTest_typed {receiver : Var} (ofReceiver : c.typeOf receiver = .ok .i32) :
    AlwaysTyped c (failTest receiver) := fun _ => .copyTo ofReceiver (.int rfl)

/-- A test against null is well typed. -/
lemma nullTest_typed {receiver value : Var} (ofReceiver : c.typeOf receiver = .ok .i32)
    (ofValue : c.typeOf value = .ok .ptr) : AlwaysTyped c (nullTest receiver value) := by
  have compares : Predicate.ne.Supports .ptr := .inr rfl
  exact fun _ => (Emit.Types.define rfl (.icmp compares (.ofVar ofValue) .null)).bind
    fun _ _ _ typed => copyFlag_typed ofReceiver typed

/-- A test that may be skipped yields a flag. -/
lemma testOrSkip_typed {branch : Label → Label → Term Label} {test : Emit Value}
    (branches : ∀ done check, (branch done check).WellTyped (c.Assigns Δ) c.result)
    (types : test.Yields c Δ .i1) : (testOrSkip branch test).Yields c Δ .i1 :=
  Emit.Types.here.bind fun source _ more _ =>
  (Emit.Types.split source).bind fun done _ more₁ _ =>
  (Emit.Types.split source).bind fun check _ more₂ _ =>
  have more := List.Subset.trans more (List.Subset.trans more₁ more₂)
  (Emit.Types.leave ((branches done check).mono (Context.Assigns.mono more))).andThen <|
  (Emit.Types.continueAt check).andThen <|
  (types.weaken more).bind fun _ _ _ typed =>
  Emit.Types.here.bind fun _ _ more₃ _ =>
  (Emit.Types.leave .br).andThen <|
  (Emit.Types.continueAt done).andThen <|
  Emit.Types.freshPhi <| List.forall_mem_cons.2 ⟨.bool,
    List.forall_mem_singleton.2 (typed.mono (Context.Assigns.mono more₃))⟩

/-- A test of an object is well typed if the test of its metadata yields a flag. -/
lemma objectTest_typed {receiver value : Var} (ofReceiver : c.typeOf receiver = .ok .i32)
    (ofValue : c.typeOf value = .ok .ptr)
    (types : ∀ Δ v, v.HasType (c.Assigns Δ) .ptr → (test v).Yields c Δ .i1) :
    AlwaysTyped c (objectTest receiver value test) := by
  intro Δ
  have compares : Predicate.eq.Supports .ptr := .inr rfl
  refine (Emit.Types.define rfl (.icmp compares (.ofVar ofValue) .null)).bind
    fun isNull Δ' _ typed => ?_
  refine (testOrSkip_typed (fun _ _ => .condBr typed) ?_).bind fun flag _ _ typed' =>
    copyFlag_typed ofReceiver typed'
  exact (Emit.Types.load .ptr rfl (.ofVar ofValue)).bind fun v Δ'' _ => types Δ'' v

/-- Comparing metadata with a symbol yields a flag. -/
lemma isMetadata_typed {symbol : Symbol} {metadata : Value}
    (typed : metadata.HasType (c.Assigns Δ) .ptr) :
    (isMetadata symbol metadata).Yields c Δ .i1 := by
  have compares : Predicate.eq.Supports .ptr := .inr rfl
  exact .define rfl (.icmp compares typed .symbol)

/-- A test of a tag against a range yields a flag. -/
lemma tagInRange_typed {tag : Value} (typed : tag.HasType (c.Assigns Δ) .i32) (r : TagRange) :
    (tagInRange tag r).Yields c Δ .i1 := by
  have compares : Predicate.sge.Supports .i32 ∧ Predicate.slt.Supports .i32 := ⟨rfl, rfl⟩
  refine (Emit.Types.define rfl (.icmp compares.1 typed (.int rfl))).bind
    fun above Δ₁ more typed₁ => ?_
  have typed := typed.mono (Context.Assigns.mono more)
  refine (Emit.Types.define rfl (.icmp compares.2 typed (.int rfl))).bind
    fun below Δ₂ more₁ typed₂ => ?_
  exact .define rfl (.binary rfl (typed₁.mono (Context.Assigns.mono more₁)) typed₂)

/-- A test of the tag in metadata against ranges yields a flag. -/
lemma tagInRanges_typed (ranges : List TagRange) {metadata : Value}
    (typed : metadata.HasType (c.Assigns Δ) .ptr) :
    (tagInRanges ranges metadata).Yields c Δ .i1 := by
  refine (Emit.Types.define rfl (.fieldOf typed)).bind fun address Δ₁ _ typed₁ => ?_
  refine (Emit.Types.load .i32 rfl typed₁).bind fun tag Δ₂ _ typed₂ => ?_
  cases ranges with
  | nil => exact .value .bool
  | cons r rest =>
    refine (tagInRange_typed typed₂ r).bind fun first Δ₃ more₃ typed₃ => .foldlM ?_ rest typed₃
    intro found r Δ₄ more₄ typed₄
    have typed₂ := typed₂.mono (Context.Assigns.mono (List.Subset.trans more₃ more₄))
    exact (tagInRange_typed typed₂ r).bind fun next Δ₅ more₅ typed₅ =>
      .define rfl (.binary rfl (typed₄.mono (Context.Assigns.mono more₅)) typed₅)

/-- A test of the kind of an array is well typed. -/
lemma arrayTest_typed {receiver value : Var} (ofReceiver : c.typeOf receiver = .ok .i32)
    (ofValue : c.typeOf value = .ok .ptr) (kind : ElementKind) :
    AlwaysTyped c (arrayTest receiver value kind) :=
  objectTest_typed ofReceiver ofValue fun _ _ => isMetadata_typed

/-- A test of the element class of an array is well typed if the test of its metadata yields a flag.
-/
lemma itemClassTest_typed {receiver value : Var} (ofReceiver : c.typeOf receiver = .ok .i32)
    (ofValue : c.typeOf value = .ok .ptr)
    (types : ∀ Δ v, v.HasType (c.Assigns Δ) .ptr → (test v).Yields c Δ .i1) :
    AlwaysTyped c (itemClassTest receiver value test) := by
  refine objectTest_typed ofReceiver ofValue fun Δ metadata typed => ?_
  refine (isMetadata_typed typed).bind fun isArray Δ₁ _ typed₁ =>
    testOrSkip_typed (fun _ _ => .condBr typed₁) ?_
  refine (Emit.Types.define rfl (.fieldOf (.ofVar ofValue))).bind fun slot Δ₂ _ typed₂ => ?_
  exact (Emit.Types.load .ptr rfl typed₂).bind fun v Δ₃ _ => types Δ₃ v

/-- A test against a class is well typed. -/
lemma classTest_typed {receiver value : Var} (ofReceiver : c.typeOf receiver = .ok .i32)
    (ofValue : c.typeOf value = .ok .ptr) (className : String) :
    Except.Ensures (AlwaysTyped c) (classTest c receiver value className) := by
  refine .bind fun _ _ => .bind fun _ _ => .pure ?_
  split
  · exact nullTest_typed ofReceiver ofValue
  split
  · exact failTest_typed ofReceiver
  · exact objectTest_typed ofReceiver ofValue fun _ _ => tagInRanges_typed _

/-- A test against an array of references is well typed. -/
lemma referenceArrayTest_typed {receiver value : Var} (ofReceiver : c.typeOf receiver = .ok .i32)
    (ofValue : c.typeOf value = .ok .ptr) (item : ValueType) :
    Except.Ensures (AlwaysTyped c) (referenceArrayTest c receiver value item) := by
  cases item with
  | object className =>
    rw [referenceArrayTest]
    split
    · exact .pure (arrayTest_typed ofReceiver ofValue _)
    refine .bind fun _ _ => .pure ?_
    split
    · exact failTest_typed ofReceiver
    · exact itemClassTest_typed ofReceiver ofValue fun _ _ => tagInRanges_typed _
  | array inner =>
    exact .pure (itemClassTest_typed ofReceiver ofValue fun _ _ => isMetadata_typed)
  | _ => exact .error _

/-- A test against a type is well typed. -/
lemma isInstance_typed (receiver value : Var) (type : ValueType) :
    Except.Ensures (AlwaysTyped c) (isInstance c receiver value type) := by
  refine .bind fun _ ofValue => .bind fun _ ofReceiver => ?_
  have ofValue := expectReference_spec _ ofValue
  have ofReceiver := expect_spec _ ofReceiver
  cases type with
  | object className => exact classTest_typed ofReceiver ofValue _
  | array item =>
    dsimp only
    split
    · exact referenceArrayTest_typed ofReceiver ofValue _
    refine .bind fun kind _ => ?_
    split
    · exact .pure (nullTest_typed ofReceiver ofValue)
    · exact .pure (arrayTest_typed ofReceiver ofValue _)
  | _ => exact .error _

end Tests

section Instructions

/-- The code of an instruction that is no call site is well typed. -/
lemma plainInstruction_typed (i : Instruction) :
    Except.Ensures (AlwaysTyped c) (plainInstruction c i) := by
  cases i with
  | nop | monitorEnter | monitorExit => exact .pure fun _ => .pure fun _ _ => trivial
  | nullConstant =>
    exact .bind fun _ ofReceiver => .pure fun _ => .copyTo (expect_spec _ ofReceiver) .null
  | classConstant => exact classConstant_typed _ _
  | intConstant | longConstant =>
    exact .bind fun _ ofReceiver => .pure fun _ => .copyTo (expect_spec _ ofReceiver) (.int rfl)
  | floatConstant | doubleConstant =>
    exact .bind fun _ ofReceiver => .pure fun _ => .copyTo (expect_spec _ ofReceiver) (.real rfl)
  | stringConstant =>
    exact .bind fun _ ofReceiver => .pure fun _ => (Emit.Types.literal _).bind fun _ _ _ typed =>
      .copyTo (expect_spec _ ofReceiver) typed
  | binary => exact binary_typed _ _ _ _ _
  | negate => exact negation_typed _ _ _
  | assign =>
    exact .bind fun _ ofReceiver => .bind fun _ ofAssignee => .pure fun _ =>
      .copyTo ofReceiver (.ofVar (expect_spec _ ofAssignee))
  | cast | nullCheck | unwrapArray =>
    exact .bind fun _ ofValue => .bind fun _ ofReceiver => .pure fun _ =>
      .copyTo (expectReference_spec _ ofReceiver) (.ofVar (expectReference_spec _ ofValue))
  | numericCast => exact numericCast_typed _ _ _ _
  | integerCast => exact integerCast_typed _ _ _
  | getField => exact getField_typed _ _ _ _
  | putField => exact putField_typed _ _ _ _
  | arrayLength => exact arrayLength_typed _ _
  | getElement => exact getElement_typed _ _ _
  | putElement => exact putElement_typed _ _ _
  | isInstance => exact isInstance_typed _ _ _
  | invoke | invokeDynamic | construct | constructArray | constructMultiArray | cloneArray
  | initClass => exact .error _

/-- Calling an initializer is well typed. -/
lemma callInitializer_typed (className : String) : AlwaysTyped c (callInitializer className) :=
  fun _ => (Emit.Types.call .void (List.forall_mem_nil _)).bind fun _ _ _ _ =>
    .pure fun _ _ => trivial

/-- The code of an instruction that is a call site is well typed. -/
lemma siteInstruction_typed (i : Instruction) :
    Except.Ensures (AlwaysTyped c) (siteInstruction c i) := by
  cases i with
  | invoke => exact invoke_typed _ _ _ _ _
  | construct => exact construct_typed _ _
  | constructArray => exact constructArray_typed _ _ _
  | constructMultiArray => exact constructMultiArray_typed _ _ _
  | cloneArray => exact cloneArray_typed _ _
  | initClass => exact .pure (callInitializer_typed _)
  | _ => exact .error _

end Instructions

end Lowering

end ObjectBackend
