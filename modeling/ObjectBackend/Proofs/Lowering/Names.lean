import ObjectBackend.Proofs.Lowering.Instructions
import ObjectBackend.Proofs.Lowering.Resolving

/-!
# Names in the code of instructions

The code of an instruction refers to names of the module only (`plainInstruction_resolves`,
`siteInstruction_resolves`). What it refers to is either part of every module, or it has been
checked or looked up before, and each check makes the name a known one.
-/

namespace ObjectBackend.Lowering

open Target

variable {c : Context}

/-- Code that refers to names of the module only. -/
abbrev Resolved (c : Context) (e : Emit Unit) : Prop := e.Resolves c.backend fun _ => True

section Checks

/-- The types of variables refer to nothing. -/
lemma typeOf_spec {v : Var} : Except.Ensures (fun type => type.names = []) (c.typeOf v) :=
  .bind fun kind _ => .pure (IrType.names_ofKind kind)

/-- A class that is expected to be declared is. -/
lemma expectClass_spec {name : String} :
    Except.Ensures (fun _ => c.backend.Declares name) (c.expectClass name) := by
  rw [Context.expectClass]
  split
  case isTrue found => exact fun _ _ => Backend.declares_of_lookup? found
  case isFalse => exact .error _

/-- The class symbol of a type is declared. -/
lemma classSymbol_spec {type : ValueType} :
    Except.Ensures (fun s => c.backend.Knows (.symbol s)) (classSymbol c type) := by
  cases type with
  | object name =>
    exact .bind fun _ given => .pure (Backend.Knows.metadata (expectClass_spec _ given))
  | array item => exact .pure (Backend.Knows.arrayMetadata _)
  | _ => exact .error _

/-- The handled classes are declared. -/
lemma handledClasses_spec {b : BasicBlock} :
    Except.Ensures (fun handled => ∀ name, some name ∈ handled → c.backend.Declares name)
      (handledClasses c b) := by
  intro handled given name mem
  obtain ⟨h, _, given⟩ := Except.exists_of_mem_of_mapM_eq_ok given mem
  obtain ⟨_, checked, eq⟩ := Except.exists_of_bind_eq_ok given
  rw [Except.ok.inj eq] at checked
  exact expectClass_spec _ checked

end Checks

section Arithmetic

/-- Numeric types refer to nothing. -/
lemma names_irType (type : Numeric) : type.irType.names = [] := IrType.names_ofKind _

/-- Subwords refer to nothing. -/
lemma names_subword (subword : Subword) : subword.irType.names = [] := by cases subword <;> rfl

/-- The distance of a shift refers to declared names only. -/
lemma shiftDistance_resolves (distance : Var) {type : IrType} (plain : type.names = []) :
    Emit.Resolves c.backend (KnownValue c.backend) (shiftDistance distance type) := by
  dsimp only [shiftDistance]
  split
  · refine (Emit.Resolves.define (by simp)).bind fun widened known => .define ?_
    simpa [plain] using known
  · exact .define (by simp [plain])

/-- A comparison refers to declared names only. -/
lemma comparison_resolves (receiver first second : Var) (operand : Numeric) :
    Except.Ensures (Resolved c) (comparison c receiver first second operand) :=
  .bind fun _ _ => .bind fun _ _ => .bind fun _ _ => .pure (.assignVar (by simp [names_irType]))

/-- Arithmetic refers to declared names only. -/
lemma arithmetic_resolves (operator : BinaryOperator) (receiver first second : Var)
    (operand : Numeric) :
    Except.Ensures (Resolved c) (arithmetic c operator receiver first second operand) := by
  intro code given
  obtain ⟨op, _, _, _, _, rfl⟩ := arithmetic_spec code given
  rw [operationCode]
  split
  · exact (shiftDistance_resolves second (names_irType operand)).bind fun rhs known =>
      .assignVar (by simpa [names_irType] using known)
  · exact .assignVar (by simp [names_irType])

/-- A binary operation refers to declared names only. -/
lemma binary_resolves (operator : BinaryOperator) (receiver first second : Var)
    (operand : Numeric) :
    Except.Ensures (Resolved c) (binary c operator receiver first second operand) := by
  rw [binary]
  split
  · exact comparison_resolves _ _ _ _
  · exact arithmetic_resolves _ _ _ _ _

/-- A negation refers to declared names only. -/
lemma negation_resolves (receiver operand : Var) (type : Numeric) :
    Except.Ensures (Resolved c) (negation c receiver operand type) := by
  refine .bind fun _ _ => .bind fun _ _ => .pure (.assignVar ?_)
  split <;> simp [names_irType]

/-- A numeric cast refers to declared names only. -/
lemma numericCast_resolves (receiver value : Var) (source target : Numeric) :
    Except.Ensures (Resolved c) (numericCast c receiver value source target) := by
  refine .bind fun _ _ => .bind fun _ _ => .pure ?_
  split
  · exact .copyTo (by simp [names_irType]) fun _ => nofun
  · exact .assignVar (by simp [names_irType])

/-- A cast of integers refers to declared names only. -/
lemma integerCast_resolves (receiver value : Var) (subword : Subword) :
    Except.Ensures (Resolved c) (integerCast c receiver value subword) :=
  .bind fun _ _ => .bind fun _ _ => .pure <|
    (Emit.Resolves.define (by simp [names_subword])).bind fun narrow known =>
      .assignVar (by simpa [names_subword] using known)

end Arithmetic

section Access

/-- A load into a variable refers to declared names only if its address does. -/
lemma loadInto_resolves (receiver : Var) (extension : CastOp) {storage register : IrType}
    {address : Value} (plain : storage.names = []) (plain' : register.names = [])
    (known : KnownValue c.backend address) :
    Resolved c (loadInto receiver storage register extension address) := by
  rw [loadInto]
  split
  · exact .assignVar (by simpa [plain] using known)
  · refine (Emit.Resolves.define (by simpa [plain] using known)).bind fun loaded known' => ?_
    exact .assignVar (by simpa [plain, plain'] using known')

/-- A store of a variable refers to declared names only if its address does. -/
lemma storeFrom_resolves (value : Var) {storage register : IrType} {address : Value}
    (plain : storage.names = []) (plain' : register.names = [])
    (known : KnownValue c.backend address) :
    Resolved c (storeFrom value storage register address) := by
  dsimp only [storeFrom]
  split
  · exact .run (by simpa [plain] using known)
  · refine (Emit.Resolves.define (by simp [plain, plain'])).bind fun stored known' => .run ?_
    simp only [Instr.names, Target.Operand.names_mk, plain, List.nil_append]
    exact List.forall_mem_append.2 ⟨known', known⟩

/-- A class constant refers to declared names only. -/
lemma classConstant_resolves (receiver : Var) (type : ValueType) :
    Except.Ensures (Resolved c) (classConstant c receiver type) :=
  .bind fun symbol given => .bind fun _ _ => .pure
    (.copyTo (by simp) (by simpa [KnownValue] using classSymbol_spec symbol given))

/-- Making an object refers to declared names only. -/
lemma construct_resolves (receiver : Var) (className : String) :
    Except.Ensures (Resolved c) (construct c receiver className) := by
  refine .bind fun _ declared => ?_
  have known := Backend.Knows.metadata (expectClass_spec _ declared)
  split
  · exact .error _
  · exact .bind fun _ _ => .pure (.assignVar (by simpa using known))

/-- Making an array refers to declared names only. -/
lemma constructArray_resolves (receiver : Var) (item : ValueType) (size : Var) :
    Except.Ensures (Resolved c) (constructArray c receiver item size) := by
  have allocate : Resolved c (.assignVar receiver
      (.call .ptr (.ofRuntime .allocArray)
        [.ptr (.symbol (.arrayMetadata item.elementKind)),
          .i32 ((IrType.element item.elementKind).scalarSize?.getD 8), ⟨.i32, .ofVar size⟩])) :=
    .assignVar (by simp)
  dsimp only [constructArray]
  split
  · exact .error _
  refine .bind fun _ _ => .bind fun _ _ => ?_
  split
  · refine .bind fun itemClass given => .pure (allocate.bind fun _ _ => ?_)
    refine (Emit.Resolves.define (by simp)).bind fun slot known => .run ?_
    simpa using ⟨classSymbol_spec itemClass given, known⟩
  · exact .pure allocate

/-- Making an array of arrays refers to declared names only. -/
lemma constructMultiArray_resolves (receiver : Var) (item : ValueType) (dimensions : List Var) :
    Except.Ensures (Resolved c) (constructMultiArray c receiver item dimensions) := by
  rw [constructMultiArray.eq_def]
  split
  · exact constructArray_resolves _ _ _
  · exact .error _

/-- Copying an array refers to declared names only. -/
lemma cloneArray_resolves (receiver array : Var) :
    Except.Ensures (Resolved c) (cloneArray c receiver array) :=
  .bind fun _ _ => .bind fun _ _ => .pure (.assignVar (by simp))

/-- The address of a static field, which is declared where it is found. -/
lemma staticField_resolves (field : FieldRef) :
    Except.Ensures (fun place => place.1.Resolves c.backend (KnownValue c.backend))
      (staticField c field) := by
  rw [staticField]
  split
  case h_1 => exact .error _
  case h_2 owner f found =>
    split
    case isTrue static =>
      obtain ⟨mem, memf⟩ := Program.mem_of_resolveField? found
      have known : c.backend.Knows (.symbol (.field owner.name f.name)) :=
        .field mem (List.mem_filter.2 ⟨memf, static⟩)
      exact .pure (.pure (by simpa [KnownValue] using known))
    case isFalse => exact .error _

/-- The address of a field of an object, whose class has a layout. -/
lemma instanceField_resolves (inst : Var) (field : FieldRef) :
    Except.Ensures (fun place => place.1.Resolves c.backend (KnownValue c.backend))
      (instanceField c inst field) := by
  refine .bind fun _ _ => ?_
  split
  case h_1 => exact .error _
  case h_2 slot found =>
    obtain ⟨layout, found, _⟩ := Option.bind_eq_some_iff.1 found
    exact .pure (.define (by simpa using Backend.Knows.instances found))

/-- The address of a field refers to declared names only. -/
lemma fieldPlace_resolves (inst : Option Var) (field : FieldRef) (used : ValueType) :
    Except.Ensures (fun place => place.1.Resolves c.backend (KnownValue c.backend))
      (fieldPlace c inst field used) := by
  dsimp only [fieldPlace]
  cases inst with
  | none =>
    refine .bind fun place given => ?_
    split
    · exact .pure (staticField_resolves field place given)
    · exact .error _
  | some inst =>
    refine .bind fun place given => ?_
    split
    · exact .pure (instanceField_resolves inst field place given)
    · exact .error _

/-- Reading a field refers to declared names only. -/
lemma getField_resolves (receiver : Var) (inst : Option Var) (field : FieldRef)
    (type : ValueType) : Except.Ensures (Resolved c) (getField c receiver inst field type) :=
  .bind fun place given => .bind fun _ _ => .pure <|
    (fieldPlace_resolves inst field type place given).bind fun _ known =>
      loadInto_resolves receiver _ (by simp) (by simp) known

/-- Writing a field refers to declared names only. -/
lemma putField_resolves (inst : Option Var) (field : FieldRef) (value : Var) (type : ValueType) :
    Except.Ensures (Resolved c) (putField c inst field value type) :=
  .bind fun place given => .bind fun _ _ => .pure <|
    (fieldPlace_resolves inst field type place given).bind fun _ known =>
      storeFrom_resolves value (by simp) (by simp) known

/-- Reading the length of an array refers to declared names only. -/
lemma arrayLength_resolves (receiver array : Var) :
    Except.Ensures (Resolved c) (arrayLength c receiver array) :=
  .bind fun _ _ => .bind fun _ _ => .pure <|
    (Emit.Resolves.define (by simp)).bind fun length known => .assignVar (by simpa using known)

/-- The address of an element refers to declared names only. -/
lemma elementAddress_resolves (array index : Var) (kind : ElementKind) :
    Emit.Resolves c.backend (KnownValue c.backend) (elementAddress array index kind) :=
  (Emit.Resolves.define (by simp)).bind fun items known => .define (by simpa using known)

/-- Reading an element refers to declared names only. -/
lemma getElement_resolves (receiver array index : Var) :
    Except.Ensures (Resolved c) (getElement c receiver array index) :=
  .bind fun _ _ => .bind fun _ _ => .bind fun _ _ => .pure <|
    (elementAddress_resolves array index _).bind fun _ known =>
      loadInto_resolves receiver _ (by simp) (by simp) known

/-- Writing an element refers to declared names only. -/
lemma putElement_resolves (array index value : Var) :
    Except.Ensures (Resolved c) (putElement c array index value) :=
  .bind fun _ _ => .bind fun _ _ => .bind fun _ _ => .pure <|
    (elementAddress_resolves array index _).bind fun _ known =>
      storeFrom_resolves value (by simp) (by simp) known

end Access

section Calls

/-- A method that is called directly has an entry. -/
lemma directCallee_spec {method : MethodRef} {isStatic : Bool} :
    Except.Ensures (fun s => c.backend.Knows (.symbol s)) (directCallee c method isStatic) := by
  rw [directCallee]
  split
  case h_1 => exact .error _
  case h_2 owner m found =>
    split
    · exact .error _
    split
    case isTrue => exact .error _
    case isFalse concrete =>
      obtain ⟨mem, memm⟩ := Program.mem_of_resolveMethod? found
      exact .pure (.method mem memm (by simp [MethodDef.hasEntry, concrete]))

/-- Code for a slot, which is in the metadata of a class that is declared. -/
lemma loadSlot_resolves (inst : Var) {slot : Slot}
    (owner : ∀ owner n, slot = .ofClass owner n → c.backend.Declares owner) :
    Emit.Resolves c.backend (KnownValue c.backend) (loadSlot inst slot) := by
  refine (Emit.Resolves.define (by simp)).bind fun metadata known => ?_
  refine .bind (P := KnownValue c.backend) ?_ fun address known' => .define (by simpa using known')
  cases slot with
  | ofClass name n =>
    refine .define ?_
    simp only [Instr.names_fieldOf, IrType.names, List.cons_append, List.nil_append]
    exact List.forall_mem_cons.2 ⟨.metadataType (owner name n rfl), known⟩
  | ofInterface n => exact .define (by simpa using known)

/-- Whether the slots of classes belong to classes that are declared. -/
def OwnersDeclared (b : Backend) : Prop :=
  ∀ m owner n, b.tables.slot? m = some (.ofClass owner n) → b.Declares owner

/-- The callee of an invocation refers to declared names only. -/
lemma callee_resolves (owners : OwnersDeclared c.backend) (inst : Option Var) (method : MethodRef)
    (kind : InvocationKind) :
    Except.Ensures (Emit.Resolves c.backend (KnownValue c.backend))
      (callee c inst method kind) := by
  have direct (isStatic : Bool) : Except.Ensures (Emit.Resolves c.backend (KnownValue c.backend))
      (do return pure (.symbol (← directCallee c method isStatic))) :=
    .bind fun symbol given =>
      .pure (.pure (by simpa [KnownValue] using directCallee_spec symbol given))
  dsimp only [callee]
  split
  · split
    case h_1 slot resolved =>
      obtain ⟨d, _, owned⟩ := List.exists_of_findSome?_eq_some resolved
      exact .pure (loadSlot_resolves _ fun owner n eq => owners _ owner n (eq ▸ owned))
    case h_2 => exact direct _
  · exact direct _

/-- The arguments of an invocation refer to nothing. -/
lemma callArguments_spec {inst : Option Var} {method : MethodRef} {arguments : List Var} :
    Except.Ensures (fun operands => ∀ o ∈ operands, o.names = [])
      (callArguments c inst method arguments) := by
  refine .bind fun _ _ => .bind fun operands given => .pure ?_
  refine List.forall_mem_append.2 ⟨?_, fun o mem => ?_⟩
  · cases inst <;> simp
  · obtain ⟨⟨argument, parameter⟩, _, given⟩ := Except.exists_of_mem_of_mapM_eq_ok given mem
    obtain ⟨_, _, eq⟩ := Except.exists_of_bind_eq_ok given
    rw [← Except.ok.inj eq]
    simp

/-- An invocation refers to declared names only. -/
lemma invoke_resolves (owners : OwnersDeclared c.backend) (receiver inst : Option Var)
    (method : MethodRef) (arguments : List Var) (kind : InvocationKind) :
    Except.Ensures (Resolved c) (invoke c receiver inst method arguments kind) := by
  dsimp only [invoke]
  split
  · exact .error _
  split
  · exact .error _
  refine .bind fun operands plain => .bind fun _ _ => .bind fun target resolves => .pure ?_
  have none : operands.flatMap Target.Operand.names = [] :=
    List.flatMap_eq_nil_iff.2 (callArguments_spec operands plain)
  refine (callee_resolves owners inst method kind target resolves).bind fun callee known => ?_
  split
  · exact .assignVar (by simpa [none] using known)
  · exact .run (by simpa [none] using known)

end Calls

section Tests

variable {test : Value → Emit Value}

/-- Copying a flag refers to declared names only if the flag does. -/
lemma copyFlag_resolves (receiver : Var) {flag : Value} (known : KnownValue c.backend flag) :
    Resolved c (copyFlag receiver flag) := .assignVar (by simpa using known)

/-- A test that fails refers to declared names only. -/
lemma failTest_resolves (receiver : Var) : Resolved c (failTest receiver) :=
  .copyTo (by simp) fun _ => nofun

/-- A test against null refers to declared names only. -/
lemma nullTest_resolves (receiver value : Var) : Resolved c (nullTest receiver value) :=
  (Emit.Resolves.define (by simp)).bind fun _ known => copyFlag_resolves receiver known

/-- A test that may be skipped refers to declared names only if the test and the condition do. -/
lemma testOrSkip_resolves {branch : Label → Label → Term Label} {test : Emit Value}
    (plain : ∀ done check, ∀ n ∈ (branch done check).names, c.backend.Knows n)
    (resolves : test.Resolves c.backend (KnownValue c.backend)) :
    Emit.Resolves c.backend (KnownValue c.backend) (testOrSkip branch test) :=
  Emit.Resolves.here.bind fun source _ =>
  (Emit.Resolves.split source).bind fun done _ =>
  (Emit.Resolves.split source).bind fun check _ =>
  (Emit.Resolves.leave (plain done check)).bind fun _ _ =>
  (Emit.Resolves.continueAt check).bind fun _ _ =>
  resolves.bind fun result known =>
  Emit.Resolves.here.bind fun tested _ =>
  (Emit.Resolves.leave (by simp)).bind fun _ _ =>
  (Emit.Resolves.continueAt done).bind fun _ _ =>
  Emit.Resolves.fresh.bind fun flag known' =>
  (Emit.Resolves.line (l := .phi flag .i1 _) (by
    simp only [Line.names, IrType.names, List.append_nil, List.flatMap_cons, List.flatMap_nil,
      Value.names_bool, List.nil_append]
    exact List.forall_mem_append.2 ⟨known', known⟩)).bind fun _ _ => .pure known'

/-- A test of an object refers to declared names only if the test of its metadata does. -/
lemma objectTest_resolves (receiver value : Var)
    (resolves : ∀ v, KnownValue c.backend v →
      (test v).Resolves c.backend (KnownValue c.backend)) :
    Resolved c (objectTest receiver value test) := by
  refine (Emit.Resolves.define (by simp)).bind fun isNull known => ?_
  refine (testOrSkip_resolves (fun _ _ => by simpa using known) ?_).bind fun flag known' =>
    copyFlag_resolves receiver known'
  exact (Emit.Resolves.define (by simp)).bind resolves

/-- Comparing metadata with a declared symbol refers to declared names only. -/
lemma isMetadata_resolves {symbol : Symbol} {metadata : Value}
    (known : c.backend.Knows (.symbol symbol)) (known' : KnownValue c.backend metadata) :
    Emit.Resolves c.backend (KnownValue c.backend) (isMetadata symbol metadata) := by
  refine .define ?_
  simp only [Instr.names_icmp, IrType.names, List.nil_append, Value.names_symbol]
  exact List.forall_mem_append.2 ⟨known', List.forall_mem_singleton.2 known⟩

/-- A test of a tag against a range refers to declared names only. -/
lemma tagInRange_resolves {tag : Value} (known : KnownValue c.backend tag) (r : TagRange) :
    Emit.Resolves c.backend (KnownValue c.backend) (tagInRange tag r) := by
  refine (Emit.Resolves.define (by simpa using known)).bind fun above known' => ?_
  refine (Emit.Resolves.define (by simpa using known)).bind fun below known'' => .define ?_
  simp only [Instr.names_binary, IrType.names, List.nil_append]
  exact List.forall_mem_append.2 ⟨known', known''⟩

/-- A test of the tag in metadata against ranges refers to declared names only. -/
lemma tagInRanges_resolves (ranges : List TagRange) {metadata : Value}
    (known : KnownValue c.backend metadata) :
    Emit.Resolves c.backend (KnownValue c.backend) (tagInRanges ranges metadata) := by
  refine (Emit.Resolves.define (by simpa using known)).bind fun address known' => ?_
  refine (Emit.Resolves.define (by simpa using known')).bind fun tag known'' => ?_
  cases ranges with
  | nil => exact .pure fun _ => nofun
  | cons r rest =>
    refine (tagInRange_resolves known'' r).bind fun first holds => .foldlM ?_ rest holds
    intro found r holds'
    refine (tagInRange_resolves known'' r).bind fun next holds'' => .define ?_
    simp only [Instr.names_binary, IrType.names, List.nil_append]
    exact List.forall_mem_append.2 ⟨holds', holds''⟩

/-- A test of the kind of an array refers to declared names only. -/
lemma arrayTest_resolves (receiver value : Var) (kind : ElementKind) :
    Resolved c (arrayTest receiver value kind) :=
  objectTest_resolves receiver value fun _ known =>
    isMetadata_resolves (Backend.Knows.arrayMetadata kind) known

/-- A test of the element class of an array refers to declared names only if the test of its
metadata does. -/
lemma itemClassTest_resolves (receiver value : Var)
    (resolves : ∀ v, KnownValue c.backend v →
      (test v).Resolves c.backend (KnownValue c.backend)) :
    Resolved c (itemClassTest receiver value test) := by
  refine objectTest_resolves receiver value fun metadata known => ?_
  refine (isMetadata_resolves (Backend.Knows.arrayMetadata .object) known).bind
    fun isArray known' => testOrSkip_resolves (fun _ _ => by simpa using known') ?_
  refine (Emit.Resolves.define (by simp)).bind fun slot known'' => ?_
  exact (Emit.Resolves.define (by simpa using known'')).bind resolves

/-- A test against a class refers to declared names only. -/
lemma classTest_resolves (receiver value : Var) (className : String) :
    Except.Ensures (Resolved c) (classTest c receiver value className) := by
  refine .bind fun _ _ => .bind fun _ _ => .pure ?_
  split
  · exact nullTest_resolves _ _
  split
  · exact failTest_resolves _
  · exact objectTest_resolves _ _ fun _ => tagInRanges_resolves _

/-- A test against an array of references refers to declared names only. -/
lemma referenceArrayTest_resolves (receiver value : Var) (item : ValueType) :
    Except.Ensures (Resolved c) (referenceArrayTest c receiver value item) := by
  cases item with
  | object className =>
    rw [referenceArrayTest]
    split
    · exact .pure (arrayTest_resolves _ _ _)
    refine .bind fun _ _ => .pure ?_
    split
    · exact failTest_resolves _
    · exact itemClassTest_resolves _ _ fun _ => tagInRanges_resolves _
  | array inner =>
    exact .pure (itemClassTest_resolves _ _ fun _ known =>
      isMetadata_resolves (Backend.Knows.arrayMetadata _) known)
  | _ => exact .error _

/-- A test against a type refers to declared names only. -/
lemma isInstance_resolves (receiver value : Var) (type : ValueType) :
    Except.Ensures (Resolved c) (isInstance c receiver value type) := by
  refine .bind fun _ _ => .bind fun _ _ => ?_
  cases type with
  | object className => exact classTest_resolves _ _ _
  | array item =>
    dsimp only
    split
    · exact referenceArrayTest_resolves _ _ _
    refine .bind fun kind _ => ?_
    split
    · exact .pure (nullTest_resolves _ _)
    · exact .pure (arrayTest_resolves _ _ _)
  | _ => exact .error _

end Tests

/-- A string constant refers to the literal that it adds. -/
lemma stringConstant_resolves (receiver : Var) (text : String) :
    Resolved c (do Emit.copyTo receiver .ptr (← Emit.literal text)) := by
  intro s resolved
  obtain ⟨lt, le⟩ := s.pools.literals.intern_spec text
  have reaches : s.Reaches c.backend ((Emit.literal text).next s) :=
    ⟨⟨fun n mem => Backend.provides_of_le (resolved.code n mem) le, resolved.exits,
      resolved.handled⟩, le, rfl⟩
  refine ⟨reaches.trans (.push reaches.resolved fun n mem => .inr ?_), trivial⟩
  obtain rfl := List.mem_singleton.1 mem
  exact Literals.mem_names lt

section Instructions

/-- The code of an instruction that is no call site refers to declared names only. -/
lemma plainInstruction_resolves (i : Instruction) :
    Except.Ensures (Resolved c) (plainInstruction c i) := by
  cases i with
  | nop | monitorEnter | monitorExit => exact .pure (.pure trivial)
  | nullConstant => exact .bind fun _ _ => .pure (.copyTo (by simp) fun _ => nofun)
  | classConstant => exact classConstant_resolves _ _
  | intConstant | longConstant | floatConstant | doubleConstant =>
    exact .bind fun _ _ => .pure (.copyTo (by simp) fun _ => nofun)
  | stringConstant receiver value =>
    exact .bind fun _ _ => .pure (stringConstant_resolves receiver value)
  | binary => exact binary_resolves _ _ _ _ _
  | negate => exact negation_resolves _ _ _
  | assign =>
    refine .bind fun type given => .bind fun _ _ => .pure (.copyTo ?_ fun _ => nofun)
    rw [typeOf_spec type given]
    exact fun _ => nofun
  | cast | nullCheck | unwrapArray =>
    exact .bind fun _ _ => .bind fun _ _ => .pure (.copyTo (by simp) fun _ => nofun)
  | numericCast => exact numericCast_resolves _ _ _ _
  | integerCast => exact integerCast_resolves _ _ _
  | getField => exact getField_resolves _ _ _ _
  | putField => exact putField_resolves _ _ _ _
  | arrayLength => exact arrayLength_resolves _ _
  | getElement => exact getElement_resolves _ _ _
  | putElement => exact putElement_resolves _ _ _
  | isInstance => exact isInstance_resolves _ _ _
  | invoke | invokeDynamic | construct | constructArray | constructMultiArray | cloneArray
  | initClass => exact .error _

/-- Calling an initializer that is needed refers to declared names only. -/
lemma callInitializer_resolves {className : String}
    (needed : c.program.needsInitialization className = true) :
    Resolved c (callInitializer className) :=
  (Emit.Resolves.call (by simpa using Backend.Knows.initializer needed)).bind fun _ _ =>
    .pure trivial

/-- The code of an instruction that is a call site refers to declared names only. -/
lemma siteInstruction_resolves (owners : OwnersDeclared c.backend) {i : Instruction}
    (isSite : c.isSite i = true) : Except.Ensures (Resolved c) (siteInstruction c i) := by
  cases i with
  | invoke => exact invoke_resolves owners _ _ _ _ _
  | construct => exact construct_resolves _ _
  | constructArray => exact constructArray_resolves _ _ _
  | constructMultiArray => exact constructMultiArray_resolves _ _ _
  | cloneArray => exact cloneArray_resolves _ _
  | initClass => exact .pure (callInitializer_resolves isSite)
  | _ => exact .error _

end Instructions

end ObjectBackend.Lowering
