import ObjectBackend.Proofs.Lowering.Sites
import ObjectBackend.Proofs.Success

/-!
# The code of instructions

The code of every instruction stays in one region: that of plain instructions without call sites
(`plainInstruction_emits`), and that of a call site as the code of one call
(`siteInstruction_straight`), put between stores and a test.
-/

namespace ObjectBackend.Lowering

open Target Emit

variable {c : Context} {p : Place}

/-- A variable whose type has been checked has that type. -/
lemma expect_spec {v : Var} {type : IrType} :
    Except.Ensures (fun _ => c.typeOf v = .ok type) (c.expect v type) := by
  refine .bind fun actual given => ?_
  split
  case isTrue eq =>
    rw [given, eq]
    exact fun _ _ => rfl
  case isFalse => exact .error _

/-- A copy appends its line, without a call. -/
lemma copyTo_straight (receiver : Var) (type : IrType) (value : Value) :
    Straight 0 (Emit.copyTo receiver type value) := .assign _ (.cast ..) rfl

section Arithmetic

/-- The code of an operator that is an operation of its own. -/
def operationCode (operator : BinaryOperator) (receiver first second : Var) (operand : Numeric)
    (op : BinaryOp) : Emit Unit := do
  let rhs ← if operator.isShift then shiftDistance second operand.irType else pure (.ofVar second)
  Emit.assignVar receiver (.binary op operand.irType (.ofVar first) rhs)

/-- The operands of an operator and its receiver have the type that it is for, apart from a
distance, and its code is an operation on numbers of that type. -/
lemma arithmetic_spec {operator : BinaryOperator} {receiver first second : Var}
    {operand : Numeric} :
    Except.Ensures (fun code => ∃ op,
        (operand.isFloating = true ∧ operator.realOp? = some op ∨
          operand.isFloating = false ∧ operator.integerOp? = some op) ∧
        c.typeOf first = .ok operand.irType ∧ c.typeOf receiver = .ok operand.irType ∧
        c.typeOf second = .ok (if operator.isShift then .i32 else operand.irType) ∧
        code = operationCode operator receiver first second operand op)
      (arithmetic c operator receiver first second operand) := by
  intro code given
  obtain ⟨_, ofFirst, given⟩ := Except.exists_of_bind_eq_ok given
  obtain ⟨_, ofReceiver, given⟩ := Except.exists_of_bind_eq_ok given
  obtain ⟨_, ofSecond, given⟩ := Except.exists_of_bind_eq_ok given
  have ofFirst := expect_spec _ ofFirst
  have ofReceiver := expect_spec _ ofReceiver
  have ofSecond := expect_spec _ ofSecond
  dsimp only at given
  split at given
  case h_1 op floating found =>
    cases given
    exact ⟨op, .inl ⟨floating, found⟩, ofFirst, ofReceiver, ofSecond, rfl⟩
  case h_2 op integer found =>
    cases given
    exact ⟨op, .inr ⟨integer, found⟩, ofFirst, ofReceiver, ofSecond, rfl⟩
  case h_3 => cases given
  case h_4 => cases given

/-- The distance of a shift appends its lines, without a call. -/
lemma shiftDistance_straight (distance : Var) (type : IrType) :
    Straight 0 (shiftDistance distance type) := by
  dsimp only [shiftDistance]
  split
  · exact (Straight.define (.cast ..) rfl).zero_bind fun _ => .define (.binary ..) rfl
  · exact (Straight.pure _).zero_bind fun _ => .define (.binary ..) rfl

/-- A comparison is one call. -/
lemma comparison_straight (receiver first second : Var) (operand : Numeric) :
    Except.Ensures (Straight 1) (comparison c receiver first second operand) :=
  .bind fun _ _ => .bind fun _ _ => .bind fun _ _ => .pure (.assign _ (.call ..) rfl)

/-- Arithmetic appends its lines, without a call. -/
lemma arithmetic_straight (operator : BinaryOperator) (receiver first second : Var)
    (operand : Numeric) :
    Except.Ensures (Straight 0) (arithmetic c operator receiver first second operand) := by
  intro code given
  obtain ⟨op, _, _, _, _, rfl⟩ := arithmetic_spec code given
  rw [operationCode]
  split
  · exact (shiftDistance_straight _ _).zero_bind fun _ => .assign _ (.binary ..) rfl
  · exact (Straight.pure _).zero_bind fun _ => .assign _ (.binary ..) rfl

/-- A binary operation adds a region without call sites. -/
lemma binary_emits (operator : BinaryOperator) (receiver first second : Var) (operand : Numeric) :
    Except.Ensures (Emits c p []) (binary c operator receiver first second operand) := by
  intro code given
  rw [binary] at given
  split at given
  · exact (comparison_straight _ _ _ _ code given).emits
  · exact (arithmetic_straight _ _ _ _ _ code given).emits

/-- A negation appends its lines, without a call. -/
lemma negation_straight (receiver operand : Var) (type : Numeric) :
    Except.Ensures (Straight 0) (negation c receiver operand type) := by
  refine .bind fun _ _ => .bind fun _ _ => .pure ?_
  split
  · exact .assign _ (.fneg ..) rfl
  · exact .assign _ (.binary ..) rfl

/-- A numeric cast appends its lines, without a call. -/
lemma numericCast_straight (receiver value : Var) (source target : Numeric) :
    Except.Ensures (Straight 0) (numericCast c receiver value source target) := by
  refine .bind fun _ _ => .bind fun _ _ => .pure ?_
  split
  · exact .assign _ (.cast ..) rfl
  · exact .assign _ (.cast ..) rfl

/-- A cast of integers appends its lines, without a call. -/
lemma integerCast_straight (receiver value : Var) (subword : Subword) :
    Except.Ensures (Straight 0) (integerCast c receiver value subword) :=
  .bind fun _ _ => .bind fun _ _ => .pure
    ((Straight.define (.cast ..) rfl).zero_bind fun _ => .assign _ (.cast ..) rfl)

end Arithmetic

section Access

/-- A load into a variable appends its lines, without a call. -/
lemma loadInto_straight (receiver : Var) (storage register : IrType) (extension : CastOp)
    (address : Value) : Straight 0 (loadInto receiver storage register extension address) := by
  rw [loadInto]
  split
  · exact .assign _ (.load ..) rfl
  · exact (Straight.define (.load ..) rfl).zero_bind fun _ => .assign _ (.cast ..) rfl

/-- A store to a place that leaves the stack alone is tidy, also behind the temporary that a value
is shortened in. -/
lemma storeFrom_spec (value : Var) (storage register : IrType) (address : Value)
    (known : List Local) (s : Progress)
    (place : ∀ (o : Target.Operand) (later : List Local),
      (∀ r ∈ known, r ≠ .temporary s.draft.nextTemporary → r ∈ later) →
      Line.IsTidy later (.run (.store o address) : DraftLine)) :
    ∃ lines, (∀ l ∈ lines, l.isPlain = true) ∧ lines.countP Line.isCall = 0 ∧
      Line.Tidy known lines ∧
      s.Writes lines ((storeFrom value storage register address).next s) := by
  dsimp only [storeFrom]
  split
  · refine ⟨[.run (.store ⟨storage, .ofVar value⟩ address)], List.forall_mem_singleton.2 rfl, rfl,
      ⟨place _ _ fun r mem _ => mem, trivial⟩, .line (l := .run _) s rfl⟩
  · let shortened : Value := .register (.temporary s.draft.nextTemporary)
    let shorten : Instr := .cast .trunc ⟨register, .ofVar value⟩ storage
    refine ⟨[.define shortened shorten, .run (.store ⟨storage, shortened⟩ address)], ?_, rfl,
      ⟨⟨temporary_ne_callerFrame, rfl⟩, place _ _ ?_, trivial⟩,
      (Progress.Writes.define s shorten).trans (.line (l := .run _) _ rfl)⟩
    · exact List.forall_mem_cons.2 ⟨rfl, List.forall_mem_singleton.2 rfl⟩
    · intro r mem other
      exact List.mem_filter.2 ⟨mem, decide_eq_true other⟩

/-- A store to another symbol than the top of the stack leaves the stack alone. -/
lemma storeFrom_straight (value : Var) (storage register : IrType) {symbol : Symbol}
    (other : symbol ≠ .runtime .stackTop) :
    Straight 0 (storeFrom value storage register (.symbol symbol)) := fun s =>
  storeFrom_spec value storage register _ _ s fun _ _ _ => other

/-- The address of a part and a store to it. -/
lemma storeFromPart_straight (value : Var) (storage register : IrType) (base : IrType)
    (whole : Value) (indices : List Value) :
    Straight 0 (Emit.define (.element base whole indices) >>= fun address =>
      storeFrom value storage register address) := by
  intro s
  let part : Local := .temporary s.draft.nextTemporary
  let s₁ := (Emit.define (.element base whole indices)).next s
  have fresh : part ≠ .temporary s₁.draft.nextTemporary := by
    intro eq
    exact absurd (Local.temporary.inj eq) (Nat.ne_of_lt (Nat.lt_succ_self _))
  obtain ⟨lines, plain, calls, tidy, writes⟩ :=
    storeFrom_spec value storage register (.register part) [part] s₁ fun _ later kept =>
      kept part (List.mem_singleton_self _) fresh
  refine ⟨.define (.register part) (.element base whole indices) :: lines,
    List.forall_mem_cons.2 ⟨rfl, plain⟩, calls, ⟨⟨temporary_ne_callerFrame, rfl⟩, tidy⟩, ?_⟩
  exact (Progress.Writes.define s _).trans writes

/-- The address of a part and a store to it, of a value as it is. -/
lemma storePart_straight (value : Target.Operand) (base : IrType) (whole : Value)
    (indices : List Value) :
    Straight 0 (Emit.define (.element base whole indices) >>= fun address =>
      Emit.run (.store value address)) := by
  intro s
  let part : Value := .register (.temporary s.draft.nextTemporary)
  refine ⟨[.define part (.element base whole indices), .run (.store value part)], ?_, rfl,
    ⟨⟨temporary_ne_callerFrame, rfl⟩, List.mem_cons_self .., trivial⟩,
    (Progress.Writes.define s _).trans (.line (l := .run _) _ rfl)⟩
  exact List.forall_mem_cons.2 ⟨rfl, List.forall_mem_singleton.2 rfl⟩

/-- The place of a field: a part of an object, or a symbol of its own. -/
def IsPlace (e : Emit Value) : Prop :=
  (∃ s : Symbol, s ≠ .runtime .stackTop ∧ e = pure (.symbol s)) ∨
    ∃ base whole indices, e = Emit.define (.element base whole indices)

/-- Finding a place appends its lines, without a call. -/
lemma IsPlace.straight {e : Emit Value} (place : IsPlace e) : Straight 0 e := by
  rcases place with ⟨_, _, rfl⟩ | ⟨_, _, _, rfl⟩
  · exact .pure _
  · exact .define (.element ..) rfl

/-- A store to a place leaves the stack alone. -/
lemma IsPlace.storeFrom_straight {e : Emit Value} (place : IsPlace e) (value : Var)
    (storage register : IrType) :
    Straight 0 (e >>= fun address => storeFrom value storage register address) := by
  rcases place with ⟨s, other, rfl⟩ | ⟨base, whole, indices, rfl⟩
  · exact Lowering.storeFrom_straight value storage register other
  · exact storeFromPart_straight value storage register base whole indices

/-- A class constant appends its line, without a call. -/
lemma classConstant_straight (receiver : Var) (type : ValueType) :
    Except.Ensures (Straight 0) (classConstant c receiver type) :=
  .bind fun _ _ => .bind fun _ _ => .pure (.assign _ (.cast ..) rfl)

/-- Making an object is one call. -/
lemma construct_straight (receiver : Var) (className : String) :
    Except.Ensures (Straight 1) (construct c receiver className) := by
  refine .bind fun _ _ => ?_
  dsimp only
  split
  · exact .error _
  · exact .bind fun _ _ => .pure (.assign _ (.call ..) rfl)

/-- Making an array is one call. -/
lemma constructArray_straight (receiver : Var) (item : ValueType) (size : Var) :
    Except.Ensures (Straight 1) (constructArray c receiver item size) := by
  dsimp only [constructArray]
  split
  · exact .error _
  · refine .bind fun _ _ => .bind fun _ _ => ?_
    split
    · exact .bind fun _ _ => .pure ((Straight.assign _ (.call ..) rfl).bind_zero fun _ =>
        storePart_straight _ _ _ _)
    · exact .pure (.assign _ (.call ..) rfl)

/-- Making an array of arrays is one call. -/
lemma constructMultiArray_straight (receiver : Var) (item : ValueType) (dimensions : List Var) :
    Except.Ensures (Straight 1) (constructMultiArray c receiver item dimensions) := by
  rw [constructMultiArray.eq_def]
  split
  · exact constructArray_straight _ _ _
  · exact .error _

/-- Copying an array is one call. -/
lemma cloneArray_straight (receiver array : Var) :
    Except.Ensures (Straight 1) (cloneArray c receiver array) :=
  .bind fun _ _ => .bind fun _ _ => .pure (.assign _ (.call ..) rfl)

/-- The address of a static field is a place. -/
lemma staticField_place (field : FieldRef) :
    Except.Ensures (fun place => IsPlace place.1) (staticField c field) := by
  rw [staticField]
  split
  · exact .error _
  · split
    · exact .pure (.inl ⟨.field _ _, by rintro ⟨⟩, rfl⟩)
    · exact .error _

/-- The address of an instance field is a place. -/
lemma instanceField_place (inst : Var) (field : FieldRef) :
    Except.Ensures (fun place => IsPlace place.1) (instanceField c inst field) := by
  refine .bind fun _ _ => ?_
  split
  · exact .error _
  · exact .pure (.inr ⟨_, _, _, rfl⟩)

/-- The address of a field is a place. -/
lemma fieldPlace_place (inst : Option Var) (field : FieldRef) (used : ValueType) :
    Except.Ensures (fun place => IsPlace place.1) (fieldPlace c inst field used) := by
  dsimp only [fieldPlace]
  cases inst with
  | none =>
    refine .bind fun place given => ?_
    split
    · exact .pure (staticField_place _ place given)
    · exact .error _
  | some inst =>
    refine .bind fun place given => ?_
    split
    · exact .pure (instanceField_place _ _ place given)
    · exact .error _

/-- Reading a field appends its lines, without a call. -/
lemma getField_straight (receiver : Var) (inst : Option Var) (field : FieldRef)
    (type : ValueType) : Except.Ensures (Straight 0) (getField c receiver inst field type) :=
  .bind fun _ given => .bind fun _ _ => .pure
    ((fieldPlace_place _ _ _ _ given).straight.zero_bind fun _ => loadInto_straight _ _ _ _ _)

/-- Writing a field appends its lines, without a call. -/
lemma putField_straight (inst : Option Var) (field : FieldRef) (value : Var) (type : ValueType) :
    Except.Ensures (Straight 0) (putField c inst field value type) :=
  .bind fun _ given => .bind fun _ _ => .pure
    ((fieldPlace_place _ _ _ _ given).storeFrom_straight _ _ _)

/-- Reading the length of an array appends its lines, without a call. -/
lemma arrayLength_straight (receiver array : Var) :
    Except.Ensures (Straight 0) (arrayLength c receiver array) :=
  .bind fun _ _ => .bind fun _ _ => .pure
    ((Straight.define (.element ..) rfl).zero_bind fun _ => .assign _ (.load ..) rfl)

/-- The address of an element appends its line, without a call. -/
lemma elementAddress_straight (array index : Var) (kind : ElementKind) :
    Straight 0 (elementAddress array index kind) :=
  (Straight.define (.element ..) rfl).zero_bind fun _ => .define (.element ..) rfl

/-- Reading an element appends its lines, without a call. -/
lemma getElement_straight (receiver array index : Var) :
    Except.Ensures (Straight 0) (getElement c receiver array index) :=
  .bind fun _ _ => .bind fun _ _ => .bind fun _ _ => .pure
    ((elementAddress_straight _ _ _).zero_bind fun _ => loadInto_straight _ _ _ _ _)

/-- Writing an element appends its lines, without a call. -/
lemma putElement_straight (array index value : Var) :
    Except.Ensures (Straight 0) (putElement c array index value) := by
  refine .bind fun _ _ => .bind fun _ _ => .bind fun _ _ => .pure ?_
  rw [elementAddress, bind_assoc]
  exact (Straight.define (.element ..) rfl).zero_bind fun _ => storeFromPart_straight _ _ _ _ _ _

end Access

section Call

/-- The method in a slot appends its lines, without a call. -/
lemma loadSlot_straight (inst : Var) (slot : Slot) : Straight 0 (loadSlot inst slot) := by
  refine (Straight.define (.load ..) rfl).zero_bind fun _ => ?_
  cases slot with
  | ofClass owner n =>
    exact (Straight.define (.element ..) rfl).zero_bind fun _ => .define (.load ..) rfl
  | ofInterface n =>
    exact (Straight.define (.element ..) rfl).zero_bind fun _ => .define (.load ..) rfl

/-- The callee of an invocation appends its lines, without a call. -/
lemma callee_straight (inst : Option Var) (method : MethodRef) (kind : InvocationKind) :
    Except.Ensures (Straight 0) (callee c inst method kind) := by
  have direct : Except.Ensures (Straight 0) (do
      return (pure (.symbol (← directCallee c method (kind = .static))) : Emit Value)) :=
    .bind fun _ _ => .pure (.pure _)
  dsimp only [callee]
  split
  · split
    · exact .pure (loadSlot_straight _ _)
    · exact direct
  · exact direct

/-- An invocation is one call. -/
lemma invoke_straight (receiver inst : Option Var) (method : MethodRef) (arguments : List Var)
    (kind : InvocationKind) :
    Except.Ensures (Straight 1) (invoke c receiver inst method arguments kind) := by
  dsimp only [invoke]
  split
  · exact .error _
  · split
    · exact .error _
    · refine .bind fun _ _ => .bind fun _ _ => .bind fun _ given => .pure ?_
      refine (callee_straight _ _ _ _ given).zero_bind fun _ => ?_
      cases receiver with
      | some v => exact .assign _ (.call ..) rfl
      | none => exact .run (.call ..) rfl

end Call

section TypeTest

/-- Copying a flag appends its line, without a call. -/
lemma copyFlag_straight (receiver : Var) (flag : Value) : Straight 0 (copyFlag receiver flag) :=
  .assign _ (.cast ..) rfl

/-- A test against null appends its lines, without a call. -/
lemma nullTest_straight (receiver value : Var) : Straight 0 (nullTest receiver value) :=
  (Straight.define (.icmp ..) rfl).zero_bind fun _ => copyFlag_straight _ _

/-- Comparing metadata with a symbol appends its line, without a call. -/
lemma isMetadata_straight (symbol : Symbol) (metadata : Value) :
    Straight 0 (isMetadata symbol metadata) := .define (.icmp ..) rfl

/-- A test of a tag against a range appends its lines, without a call. -/
lemma tagInRange_straight (tag : Value) (r : TagRange) : Straight 0 (tagInRange tag r) :=
  (Straight.define (.icmp ..) rfl).zero_bind fun _ =>
    (Straight.define (.icmp ..) rfl).zero_bind fun _ => .define (.binary ..) rfl

/-- A test of the tag in metadata against ranges appends its lines, without a call. -/
lemma tagInRanges_straight (ranges : List TagRange) (metadata : Value) :
    Straight 0 (tagInRanges ranges metadata) := by
  refine (Straight.define (.element ..) rfl).zero_bind fun _ =>
    (Straight.define (.load ..) rfl).zero_bind fun tag => ?_
  cases ranges with
  | nil => exact .pure _
  | cons r rest =>
    refine (tagInRange_straight tag r).zero_bind fun _ => .foldlM (fun _ r => ?_) rest _
    exact (tagInRange_straight tag r).zero_bind fun _ => .define (.binary ..) rfl

/-- A test of an object adds a region without call sites if the test of its metadata does. -/
lemma objectTest_emits (receiver value : Var) {test : Value → Emit Value}
    (h : ∀ metadata, Emits c p [] (test metadata)) :
    Emits c p [] (objectTest receiver value test) := by
  refine (Straight.define (.icmp ..) rfl).emits.nil_bind fun _ => Emits.nil_bind ?_ fun flag =>
    (copyFlag_straight receiver flag).emits
  refine .testOrSkip (fun _ _ => .refl _) ?_
  exact (Straight.define (.load ..) rfl).emits.nil_bind h

/-- A test of the kind of an array adds a region without call sites. -/
lemma arrayTest_emits (receiver value : Var) (kind : ElementKind) :
    Emits c p [] (arrayTest receiver value kind) :=
  objectTest_emits _ _ fun _ => (isMetadata_straight _ _).emits

/-- A test of the element class of an array adds a region without call sites. -/
lemma itemClassTest_emits (receiver value : Var) {test : Value → Emit Value}
    (h : ∀ metadata, Straight 0 (test metadata)) :
    Emits c p [] (itemClassTest receiver value test) := by
  refine objectTest_emits _ _ fun metadata =>
    (isMetadata_straight _ metadata).emits.nil_bind fun _ => ?_
  refine .testOrSkip (fun _ _ => .swap ..) ?_
  exact ((Straight.define (.element ..) rfl).zero_bind fun _ =>
    (Straight.define (.load ..) rfl).zero_bind h).emits

/-- A test against a class adds a region without call sites. -/
lemma classTest_emits (receiver value : Var) (className : String) :
    Except.Ensures (Emits c p []) (classTest c receiver value className) := by
  refine .bind fun _ _ => .bind fun _ _ => .pure ?_
  split
  · exact (nullTest_straight _ _).emits
  · split
    · exact (copyTo_straight _ _ _).emits
    · exact objectTest_emits _ _ fun _ => (tagInRanges_straight _ _).emits

/-- A test against an array of references adds a region without call sites. -/
lemma referenceArrayTest_emits (receiver value : Var) (item : ValueType) :
    Except.Ensures (Emits c p []) (referenceArrayTest c receiver value item) := by
  rw [referenceArrayTest.eq_def]
  split
  · split
    · exact .pure (arrayTest_emits _ _ _)
    · refine .bind fun _ _ => .pure ?_
      split
      · exact (copyTo_straight _ _ _).emits
      · exact itemClassTest_emits _ _ fun _ => tagInRanges_straight _ _
  · exact .pure (itemClassTest_emits _ _ fun _ => isMetadata_straight _ _)
  · exact .error _

/-- A test against a type adds a region without call sites. -/
lemma isInstance_emits (receiver value : Var) (type : ValueType) :
    Except.Ensures (Emits c p []) (isInstance c receiver value type) := by
  refine .bind fun _ _ => .bind fun _ _ => ?_
  split
  · exact classTest_emits _ _ _
  · split
    · exact referenceArrayTest_emits _ _ _
    · refine .bind fun _ _ => ?_
      split
      · exact .pure (nullTest_straight _ _).emits
      · exact .pure (arrayTest_emits _ _ _)
  · exact .error _

end TypeTest

/-- The code of an instruction that is no call site stays in one region. -/
lemma plainInstruction_emits (i : Instruction) :
    Except.Ensures (Emits c p []) (plainInstruction c i) := by
  cases i with
  | nop | monitorEnter _ | monitorExit _ => exact .pure (Straight.pure ()).emits
  | nullConstant _ | intConstant _ _ | longConstant _ _ | floatConstant _ _
  | doubleConstant _ _ => exact .bind fun _ _ => .pure (copyTo_straight _ _ _).emits
  | classConstant receiver type => exact fun _ given => (classConstant_straight _ _ _ given).emits
  | stringConstant receiver value =>
    exact .bind fun _ _ => .pure
      ((Straight.literal value).zero_bind fun _ => copyTo_straight _ _ _).emits
  | binary operator receiver first second operand => exact binary_emits _ _ _ _ _
  | negate receiver operand type => exact fun _ given => (negation_straight _ _ _ _ given).emits
  | assign _ _ | cast _ _ _ | nullCheck _ _ | unwrapArray _ _ =>
    exact .bind fun _ _ => .bind fun _ _ => .pure (copyTo_straight _ _ _).emits
  | numericCast receiver value source target =>
    exact fun _ given => (numericCast_straight _ _ _ _ _ given).emits
  | integerCast receiver value subword direction =>
    exact fun _ given => (integerCast_straight _ _ _ _ given).emits
  | getField receiver inst field type =>
    exact fun _ given => (getField_straight _ _ _ _ _ given).emits
  | putField inst field value type =>
    exact fun _ given => (putField_straight _ _ _ _ _ given).emits
  | arrayLength receiver array => exact fun _ given => (arrayLength_straight _ _ _ given).emits
  | getElement receiver array index =>
    exact fun _ given => (getElement_straight _ _ _ _ given).emits
  | putElement array index value =>
    exact fun _ given => (putElement_straight _ _ _ _ given).emits
  | isInstance receiver value type => exact isInstance_emits _ _ _
  | invoke _ _ _ _ _ | invokeDynamic _ _ _ | construct _ _ | constructArray _ _ _
  | constructMultiArray _ _ _ | cloneArray _ _ | initClass _ => exact .error _

/-- The code of a call site is straight and makes one call. -/
lemma siteInstruction_straight (i : Instruction) :
    Except.Ensures (Straight 1) (siteInstruction c i) := by
  cases i with
  | invoke receiver inst method arguments kind => exact invoke_straight _ _ _ _ _
  | invokeDynamic receiver name arguments => exact .error _
  | construct receiver className => exact construct_straight _ _
  | constructArray receiver item size => exact constructArray_straight _ _ _
  | constructMultiArray receiver item dimensions => exact constructMultiArray_straight _ _ _
  | cloneArray receiver array => exact cloneArray_straight _ _
  | initClass className => exact .pure ((Straight.call _ _ _).bind_zero fun _ => .pure _)
  | _ => exact .error _

section InBlock

variable {id : BlockId} {b : BasicBlock} {i : Instruction} {position : Nat}

/-- What is lowered to a call site is a call site of the body. -/
lemma isCallSite_of_isSite (site : c.isSite i = true) : i.isCallSite = true := by
  cases i with
  | initClass className => rfl
  | _ => exact site

/-- The handled classes are those of the protected ranges, if they are declared. -/
lemma handledClasses_eq :
    Except.Ensures (· = b.tryCatches.map (·.exceptionType)) (handledClasses c b) := by
  intro handled given
  have each : ∀ h ∈ b.tryCatches, Except.Ensures (h.exceptionType = ·)
      (do h.exceptionType.forM c.expectClass; return h.exceptionType) :=
    fun h _ => .bind fun _ _ => .pure rfl
  have all : List.Forall₂ (· = ·) (b.tryCatches.map (·.exceptionType)) handled :=
    List.forall₂_map_left_iff.2 (Except.Ensures.mapM each handled given)
  rw [List.forall₂_eq_eq_eq] at all
  exact all.symm

/-- An instruction adds a region with its call site, if it is one. -/
lemma instruction_emits (found : c.body.block? id = some b) :
    Except.Ensures (Emits c (.ofBlock id b) (c.instructionPoints id i position))
      (instruction c id b i position) := by
  dsimp only [instruction]
  split
  case isTrue plain =>
    rw [Context.instructionPoints, if_neg]
    · exact plainInstruction_emits i
    · intro site
      rw [isCallSite_of_isSite site] at plain
      cases plain
  case isFalse =>
    split
    case isTrue none =>
      rw [Context.instructionPoints, if_neg (by simpa using none)]
      exact .pure (Straight.pure ()).emits
    case isFalse site =>
      rw [Context.instructionPoints, if_pos (by simpa using site)]
      refine .bind fun handled given => .bind fun code straight => .pure ?_
      have eq : handled = c.handledAt (.instruction id position) := by
        rw [handledClasses_eq handled given, Context.handledAt, found]
        rfl
      rw [eq]
      refine .site (siteInstruction_straight i code straight) (by rintro _ ⟨⟩) ?_
      rw [Place.target, Place.ofBlock]
      cases b.isProtected <;> rfl

end InBlock

end ObjectBackend.Lowering
