import ObjectBackend.Proofs.Lowering.ControlFlow
import ObjectBackend.Proofs.Lowering.UsedVariables

/-!
# The variables of instructions

The code of each instruction reads the variables that the instruction uses, and defines the one that
it defines (`plainInstruction_accesses`, `siteInstruction_accesses`).
-/

namespace ObjectBackend.Lowering

open Target Emit Listing

variable {c : Context} {used : List Var}

section Arithmetic

/-- The distance of a shift reads its variable. -/
lemma shiftDistance_confined {distance : Var} (mem : distance ∈ used) (type : IrType) :
    (shiftDistance distance type).Within used := by
  dsimp only [shiftDistance]
  split
  · exact (Reads.define (by simpa [Instr.reads] using mem)).bind fun widened within =>
      .define (by simpa [Instr.reads] using within)
  · exact .define (by simpa [Instr.reads] using mem)

/-- A comparison reads its operands and defines its result. -/
lemma comparison_accesses (receiver first second : Var) (operand : Numeric) :
    Except.Ensures (Accesses [first, second] (some receiver))
      (comparison c receiver first second operand) :=
  .bind fun _ _ => .bind fun _ _ => .bind fun _ _ => .pure (.assign (by
    simp [Instr.reads, Value.ofRuntime]))

/-- Arithmetic reads its operands and defines its result. -/
lemma arithmetic_accesses (operator : BinaryOperator) (receiver first second : Var)
    (operand : Numeric) :
    Except.Ensures (Accesses [first, second] (some receiver))
      (arithmetic c operator receiver first second operand) := by
  intro code given
  obtain ⟨op, _, _, _, _, rfl⟩ := arithmetic_spec code given
  have assigns : ∀ rhs : Value, rhs.vars ⊆ [first, second] → Accesses [first, second]
      (some receiver) (Emit.assignVar receiver (.binary op operand.irType (.ofVar first) rhs)) :=
    fun rhs within => .assign (by simpa [Instr.reads] using within)
  rw [operationCode]
  split
  · exact .bind (shiftDistance_confined (by simp) _) assigns
  · exact assigns _ (by simp)

/-- A binary operation reads its operands and defines its result. -/
lemma binary_accesses (operator : BinaryOperator) (receiver first second : Var)
    (operand : Numeric) :
    Except.Ensures (Accesses [first, second] (some receiver))
      (binary c operator receiver first second operand) := by
  rw [binary]
  split
  · exact comparison_accesses _ _ _ _
  · exact arithmetic_accesses _ _ _ _ _

/-- A negation reads its operand and defines its result. -/
lemma negation_accesses (receiver operand : Var) (type : Numeric) :
    Except.Ensures (Accesses [operand] (some receiver)) (negation c receiver operand type) := by
  refine .bind fun _ _ => .bind fun _ _ => .pure (.assign ?_)
  split <;> simp [Instr.reads]

/-- A numeric cast reads its operand and defines its result. -/
lemma numericCast_accesses (receiver value : Var) (source target : Numeric) :
    Except.Ensures (Accesses [value] (some receiver))
      (numericCast c receiver value source target) := by
  refine .bind fun _ _ => .bind fun _ _ => .pure ?_
  split
  · exact .copyTo (by simp)
  · exact .assign (by simp [Instr.reads])

/-- A cast of integers reads its operand and defines its result. -/
lemma integerCast_accesses (receiver value : Var) (subword : Subword) :
    Except.Ensures (Accesses [value] (some receiver)) (integerCast c receiver value subword) :=
  .bind fun _ _ => .bind fun _ _ => .pure
    (.bind (Reads.define (by simp [Instr.reads])) fun _ within =>
      .assign (by simpa [Instr.reads] using within))

end Arithmetic

section Access

/-- A load into a variable reads what its address does and defines its result. -/
lemma loadInto_accesses {address : Value} (within : address.vars ⊆ used) (receiver : Var)
    (storage register : IrType) (extension : CastOp) :
    Accesses used (some receiver) (loadInto receiver storage register extension address) := by
  rw [loadInto]
  split
  · exact .assign within
  · exact .bind (Reads.define within) fun _ loaded => .assign loaded

/-- A store of a variable reads it and what its address does. -/
lemma storeFrom_reads {value : Var} {address : Value} (mem : value ∈ used)
    (within : address.vars ⊆ used) (storage register : IrType) :
    (storeFrom value storage register address).Reads used fun _ => True := by
  dsimp only [storeFrom]
  split
  · exact .run (i := .store _ address) (List.append_subset.2 ⟨by simpa using mem, within⟩)
  · refine (Reads.define (by simpa [Instr.reads] using mem)).bind fun value inside => ?_
    exact .run (i := .store ⟨storage, value⟩ address) (List.append_subset.2 ⟨inside, within⟩)

/-- A class constant reads nothing and defines its result. -/
lemma classConstant_accesses (receiver : Var) (type : ValueType) :
    Except.Ensures (Accesses [] (some receiver)) (classConstant c receiver type) :=
  .bind fun _ _ => .bind fun _ _ => .pure (.copyTo (List.nil_subset _))

/-- Making an object reads nothing and defines its result. -/
lemma construct_accesses (receiver : Var) (className : String) :
    Except.Ensures (Accesses [] (some receiver)) (construct c receiver className) := by
  refine .bind fun _ _ => ?_
  dsimp only
  split
  · exact .error _
  · exact .bind fun _ _ => .pure (.assign (by simp [Instr.reads, Value.ofRuntime, Operand.ptr]))

/-- Making an array reads its size and defines its result. -/
lemma constructArray_accesses (receiver : Var) (item : ValueType) (size : Var) :
    Except.Ensures (Accesses [size] (some receiver)) (constructArray c receiver item size) := by
  dsimp only [constructArray]
  split
  · exact .error _
  · refine .bind fun _ _ => .bind fun _ _ => ?_
    have allocates : ∀ kind n, (Instr.call .ptr (.ofRuntime .allocArray)
        [.ptr (.symbol (.arrayMetadata kind)), .i32 n, ⟨.i32, .ofVar size⟩]).reads ⊆ [size] := by
      simp [Instr.reads, Value.ofRuntime, Operand.ptr, Operand.i32]
    split
    · -- the class of the elements is stored in the new array
      refine .bind fun _ _ => .pure (.assign_bind (allocates _ _) fun _ => ?_)
      refine (Reads.define ?_).bind fun slot within => .run ?_
      · simp [Instr.reads_fieldOf]
      · simpa [Instr.reads, Operand.ptr] using within
    · exact .pure (.assign (allocates _ _))

/-- Making an array of arrays reads its dimensions and defines its result. -/
lemma constructMultiArray_accesses (receiver : Var) (item : ValueType) (dimensions : List Var) :
    Except.Ensures (Accesses dimensions (some receiver))
      (constructMultiArray c receiver item dimensions) := by
  rw [constructMultiArray.eq_def]
  split
  · exact constructArray_accesses _ _ _
  · exact .error _

/-- Copying an array reads it and defines its result. -/
lemma cloneArray_accesses (receiver array : Var) :
    Except.Ensures (Accesses [array] (some receiver)) (cloneArray c receiver array) :=
  .bind fun _ _ => .bind fun _ _ => .pure
    (.assign (by simp [Instr.reads, Value.ofRuntime, Operand.ptr]))

/-- The address of a field reads the object, if there is one. -/
lemma fieldPlace_confined (inst : Option Var) (field : FieldRef) (type : ValueType) :
    Except.Ensures (fun place => Within inst.toList place.1) (fieldPlace c inst field type) := by
  dsimp only [fieldPlace]
  cases inst with
  | none =>
    refine .bind fun place given => ?_
    split
    · refine .pure ?_
      rw [staticField] at given
      split at given
      · cases given
      · split at given
        · obtain rfl := Except.ok.inj given
          exact .pure (List.nil_subset _)
        · cases given
    · exact .error _
  | some inst =>
    refine .bind fun place given => ?_
    split
    · refine .pure ?_
      obtain ⟨_, _, given⟩ := Except.exists_of_bind_eq_ok given
      split at given
      · cases given
      · obtain rfl := Except.ok.inj given
        exact .define (by simp [Instr.reads_fieldOf])
    · exact .error _

/-- Reading a field reads the object, if there is one, and defines its result. -/
lemma getField_accesses (receiver : Var) (inst : Option Var) (field : FieldRef)
    (type : ValueType) :
    Except.Ensures (Accesses inst.toList (some receiver)) (getField c receiver inst field type) :=
  .bind fun _ given => .bind fun _ _ => .pure
    (.bind (fieldPlace_confined _ _ _ _ given) fun _ within => loadInto_accesses within _ _ _ _)

/-- Writing a field reads the value, and the object if there is one. -/
lemma putField_reads (inst : Option Var) (field : FieldRef) (value : Var) (type : ValueType) :
    Except.Ensures (fun code => Reads (inst.toList ++ [value]) code fun _ => True)
      (putField c inst field value type) :=
  .bind fun _ given => .bind fun _ _ => .pure
    (((fieldPlace_confined _ _ _ _ given).mono (List.subset_append_left ..)).bind fun _ within =>
      storeFrom_reads (by simp) within _ _)

/-- Reading the length of an array reads the array and defines its result. -/
lemma arrayLength_accesses (receiver array : Var) :
    Except.Ensures (Accesses [array] (some receiver)) (arrayLength c receiver array) :=
  .bind fun _ _ => .bind fun _ _ => .pure
    (.bind (Reads.define (by simp [Instr.reads_fieldOf])) fun _ within => .assign within)

/-- The address of an element reads the array and the index. -/
lemma elementAddress_confined {array index : Var} (mem : array ∈ used) (mem' : index ∈ used)
    (kind : ElementKind) : (elementAddress array index kind).Within used :=
  (Reads.define (by simpa [Instr.reads_fieldOf] using mem)).bind fun _ within =>
    .define (by simpa [Instr.reads] using ⟨within, mem'⟩)

/-- Reading an element reads the array and the index, and defines its result. -/
lemma getElement_accesses (receiver array index : Var) :
    Except.Ensures (Accesses [array, index] (some receiver))
      (getElement c receiver array index) :=
  .bind fun _ _ => .bind fun _ _ => .bind fun _ _ => .pure
    (.bind (elementAddress_confined (by simp) (by simp) _) fun _ within =>
      loadInto_accesses within _ _ _ _)

/-- Writing an element reads the array, the index and the value. -/
lemma putElement_reads (array index value : Var) :
    Except.Ensures (fun code => Reads [array, index, value] code fun _ => True)
      (putElement c array index value) :=
  .bind fun _ _ => .bind fun _ _ => .bind fun _ _ => .pure
    ((elementAddress_confined (by simp) (by simp) _).bind fun _ within =>
      storeFrom_reads (by simp) within _ _)

end Access

section Call

/-- The method in a slot reads the object. -/
lemma loadSlot_confined {inst : Var} (mem : inst ∈ used) (slot : Slot) :
    (loadSlot inst slot).Within used := by
  refine (Reads.define (by simpa [Instr.reads] using mem)).bind fun _ within => ?_
  cases slot with
  | ofClass | ofInterface =>
    exact (Reads.define (by simpa [Instr.reads_fieldOf] using within)).bind fun _ address =>
      .define address

/-- The callee of an invocation reads the object, if there is one. -/
lemma callee_confined (inst : Option Var) (method : MethodRef) (kind : InvocationKind) :
    Except.Ensures (Within inst.toList) (callee c inst method kind) := by
  have direct : Except.Ensures (Within inst.toList) (do
      return (pure (.symbol (← directCallee c method (kind = .static))) : Emit Value)) :=
    .bind fun _ _ => .pure (.pure (List.nil_subset _))
  dsimp only [callee]
  split
  · split
    · exact .pure (loadSlot_confined (by simp) _)
    · exact direct
  · exact direct

/-- The arguments of an invocation are the object, if there is one, and the variables that are
passed. -/
lemma callArguments_vars (inst : Option Var) (method : MethodRef) (arguments : List Var) :
    Except.Ensures (fun operands => ∀ o ∈ operands, o.value.vars ⊆ inst.toList ++ arguments)
      (callArguments c inst method arguments) := by
  refine .bind fun _ _ => .bind fun operands given => .pure ?_
  refine List.forall_mem_append.2 ⟨fun o mem => ?_, fun o mem => ?_⟩
  · obtain ⟨v, ofInst, rfl⟩ := List.mem_map.1 (Option.toList_map .. ▸ mem)
    exact List.cons_subset.2 ⟨List.mem_append_left _ ofInst, List.nil_subset _⟩
  · obtain ⟨⟨argument, parameter⟩, mem', eq⟩ := Except.exists_of_mem_of_mapM_eq_ok given mem
    obtain ⟨_, _, eq⟩ := Except.exists_of_bind_eq_ok eq
    obtain rfl := Except.ok.inj eq
    exact List.cons_subset.2 ⟨List.mem_append_right _ (List.of_mem_zip mem').1, List.nil_subset _⟩

/-- An invocation reads the object, if there is one, and the variables that are passed, and defines
its result, if it has one. -/
lemma invoke_accesses (receiver inst : Option Var) (method : MethodRef) (arguments : List Var)
    (kind : InvocationKind) :
    Except.Ensures (Accesses (inst.toList ++ arguments) receiver)
      (invoke c receiver inst method arguments kind) := by
  dsimp only [invoke]
  split
  · exact .error _
  · split
    · exact .error _
    · refine .bind fun operands given => .bind fun _ _ => .bind fun target given' => .pure ?_
      have named := callArguments_vars _ _ _ _ given
      refine .bind ((callee_confined _ _ _ _ given').mono (List.subset_append_left ..))
        fun callee within => ?_
      have reads : (Instr.call (.ofValue method.signature.result) callee operands).reads ⊆
          inst.toList ++ arguments :=
        List.append_subset.2 ⟨within, fun v mem => by
          obtain ⟨o, mem, names⟩ := List.mem_flatMap.1 mem
          exact named o mem names⟩
      cases receiver with
      | some v => exact .assign reads
      | none => exact .of_reads (.run reads)

end Call

section TypeTest

variable {receiver value : Var}

/-- A test that fails reads nothing and defines its result. -/
lemma failTest_accesses : Accesses used (some receiver) (failTest receiver) :=
  .copyTo (List.nil_subset _)

/-- Copying a flag reads what the flag does and defines its result. -/
lemma copyFlag_accesses {flag : Value} (within : flag.vars ⊆ used) :
    Accesses used (some receiver) (copyFlag receiver flag) := .assign within

/-- A test against null reads the value and defines its result. -/
lemma nullTest_accesses : Accesses [value] (some receiver) (nullTest receiver value) :=
  .bind (Reads.define (by simp [Instr.reads])) fun _ within => copyFlag_accesses within

/-- Comparing metadata with a symbol reads what the metadata does. -/
lemma isMetadata_confined {metadata : Value} (within : metadata.vars ⊆ used) (symbol : Symbol) :
    (isMetadata symbol metadata).Within used :=
  .define (by simpa [Instr.reads] using within)

/-- A test of a tag against a range reads what the tag does. -/
lemma tagInRange_confined {tag : Value} (within : tag.vars ⊆ used) (r : TagRange) :
    (tagInRange tag r).Within used :=
  (Reads.define (by simpa [Instr.reads] using within)).bind fun above inside =>
    (Reads.define (by simpa [Instr.reads] using within)).bind fun below inside' =>
      .define (i := .binary .and .i1 above below) (List.append_subset.2 ⟨inside, inside'⟩)

/-- A test of the tag in metadata against ranges reads what the metadata does. -/
lemma tagInRanges_confined {metadata : Value} (within : metadata.vars ⊆ used)
    (ranges : List TagRange) : (tagInRanges ranges metadata).Within used := by
  refine (Reads.define (by simpa [Instr.reads_fieldOf] using within)).bind fun address inside =>
    (Reads.define (i := .load .i32 address) inside).bind fun tag inside => ?_
  cases ranges with
  | nil => exact .pure (List.nil_subset _)
  | cons r rest =>
    refine (tagInRange_confined inside r).bind fun first found => .foldlM ?_ rest found
    intro found r within
    exact (tagInRange_confined inside r).bind fun next within' =>
      .define (i := .binary .or .i1 found next) (List.append_subset.2 ⟨within, within'⟩)

/-- A test of an object reads it and defines its result. -/
lemma objectTest_accesses {test : Value → Emit Value}
    (tests : ∀ metadata : Value, metadata.vars ⊆ [value] → (test metadata).Within [value]) :
    Accesses [value] (some receiver) (objectTest receiver value test) := by
  refine .bind (Reads.define (by simp [Instr.reads])) fun isNull within => ?_
  refine .bind (Reads.testOrSkip (fun _ _ => .refl _) (fun _ _ => within) ?_) fun flag inside =>
    copyFlag_accesses inside
  exact (Reads.define (i := .load .ptr (.ofVar value)) (List.Subset.refl _)).bind tests

/-- A test of the element class of an array reads the array and defines its result. -/
lemma itemClassTest_accesses {test : Value → Emit Value}
    (tests : ∀ metadata : Value, metadata.vars ⊆ [value] → (test metadata).Within [value]) :
    Accesses [value] (some receiver) (itemClassTest receiver value test) := by
  refine objectTest_accesses fun metadata within =>
    (isMetadata_confined within _).bind fun isArray inside =>
      .testOrSkip (fun _ _ => .swap ..) (fun _ _ => inside) ?_
  exact (Reads.define (by simp [Instr.reads_fieldOf])).bind fun slot found =>
    (Reads.define (i := .load .ptr slot) found).bind tests

/-- A test against a class reads the value and defines its result. -/
lemma classTest_accesses (className : String) :
    Except.Ensures (Accesses [value] (some receiver)) (classTest c receiver value className) := by
  refine .bind fun _ _ => .bind fun _ _ => .pure ?_
  split
  · exact nullTest_accesses
  · split
    · exact failTest_accesses
    · exact objectTest_accesses fun _ within => tagInRanges_confined within _

/-- A test against an array of references reads the value and defines its result. -/
lemma referenceArrayTest_accesses (item : ValueType) :
    Except.Ensures (Accesses [value] (some receiver))
      (referenceArrayTest c receiver value item) := by
  rw [referenceArrayTest.eq_def]
  split
  · split
    · exact .pure (objectTest_accesses fun _ within => isMetadata_confined within _)
    · refine .bind fun _ _ => .pure ?_
      split
      · exact failTest_accesses
      · exact itemClassTest_accesses fun _ within => tagInRanges_confined within _
  · exact .pure (itemClassTest_accesses fun _ within => isMetadata_confined within _)
  · exact .error _

/-- A test against a type reads the value and defines its result. -/
lemma isInstance_accesses (type : ValueType) :
    Except.Ensures (Accesses [value] (some receiver)) (isInstance c receiver value type) := by
  refine .bind fun _ _ => .bind fun _ _ => ?_
  split
  · exact classTest_accesses _
  · split
    · exact referenceArrayTest_accesses _
    · refine .bind fun _ _ => ?_
      split
      · exact .pure nullTest_accesses
      · exact .pure (objectTest_accesses fun _ within => isMetadata_confined within _)
  · exact .error _

end TypeTest

/-- The code of an instruction that is no call site. -/
lemma plainInstruction_accesses (i : Instruction) :
    Except.Ensures (Accesses i.used i.defined) (plainInstruction c i) := by
  cases i with
  | nop | monitorEnter _ | monitorExit _ => exact .pure (.of_reads (.pure trivial))
  | nullConstant _ | intConstant _ _ | longConstant _ _ | floatConstant _ _
  | doubleConstant _ _ => exact .bind fun _ _ => .pure (.copyTo (List.nil_subset _))
  | classConstant receiver type => exact classConstant_accesses _ _
  | stringConstant receiver value =>
    exact .bind fun _ _ => .pure (.bind (Reads.literal value) fun _ within => .copyTo within)
  | binary operator receiver first second operand => exact binary_accesses _ _ _ _ _
  | negate receiver operand type => exact negation_accesses _ _ _
  | assign _ _ | cast _ _ _ | nullCheck _ _ | unwrapArray _ _ =>
    exact .bind fun _ _ => .bind fun _ _ => .pure (.copyTo (List.Subset.refl _))
  | numericCast receiver value source target => exact numericCast_accesses _ _ _ _
  | integerCast receiver value subword direction => exact integerCast_accesses _ _ _
  | getField receiver inst field type => exact getField_accesses _ _ _ _
  | putField inst field value type =>
    exact fun _ given => .of_reads (putField_reads _ _ _ _ _ given)
  | arrayLength receiver array => exact arrayLength_accesses _ _
  | getElement receiver array index => exact getElement_accesses _ _ _
  | putElement array index value =>
    exact fun _ given => .of_reads (putElement_reads _ _ _ _ given)
  | isInstance receiver value type => exact isInstance_accesses _
  | invoke _ _ _ _ _ | invokeDynamic _ _ _ | construct _ _ | constructArray _ _ _
  | constructMultiArray _ _ _ | cloneArray _ _ | initClass _ => exact .error _

/-- The code of a call site, without the stores before it and the test after it. -/
lemma siteInstruction_accesses (i : Instruction) :
    Except.Ensures (Accesses i.used i.defined) (siteInstruction c i) := by
  cases i with
  | invoke receiver inst method arguments kind => exact invoke_accesses _ _ _ _ _
  | invokeDynamic receiver name arguments => exact .error _
  | construct receiver className => exact construct_accesses _ _
  | constructArray receiver item size => exact constructArray_accesses _ _ _
  | constructMultiArray receiver item dimensions => exact constructMultiArray_accesses _ _ _
  | cloneArray receiver array => exact cloneArray_accesses _ _
  | initClass className => exact .pure (.of_reads (.run (List.nil_subset _)))
  | _ => exact .error _

/-- A listing starts with some lines, and apart from them the code of an instruction reads and
writes what the instruction does. -/
structure Listing.AccessesBehind (whole : Listing) (stores : List DraftLine) (used : List Var)
    (v? : Option Var) : Prop where
  /-- No line behind the stores has anything to do with other variables. -/
  starts : ∃ rest, whole = ofLines stores ++ rest ∧
    ∀ l ∈ lines rest, l.reads ⊆ v?.toList ++ used ∧ l.written ⊆ v?.toList
  /-- There is a way through the code. -/
  passable : ∃ met, Path whole whole met
  /-- On every way through it the result is written once. -/
  accesses : ∀ met, Path whole whole met →
    ∃ later, met = stores ++ later ∧ Line.Accesses used v? later

/-- The code of an instruction may stand between stores and a test. -/
lemma Listing.AccessesBehind.of_region {whole y tail : Listing} {stores : List DraftLine}
    {v? : Option Var} {ℓ ℓ' : Label} {n n' : Nat} {out : List (Label × Label)} {s s' : Progress}
    (region : Region ℓ n whole ℓ' n' out) (here : whole = ofLines stores ++ (y ++ tail))
    (accessed : Progress.Accesses used v? s y s') (stay : ∀ l ∈ stores, l.isLeave = false)
    (confined : ∀ l ∈ lines tail, l.IsConfined [])
    (confined' : ∀ ls, Path whole tail ls → ∀ l ∈ ls, l.IsConfined []) :
    whole.AccessesBehind stores used v? where
  starts := by
    refine ⟨y ++ tail, here, ?_⟩
    rw [lines_append]
    refine List.forall_mem_append.2 ⟨accessed.forall_mem, fun l mem => ⟨?_, ?_⟩⟩
    · exact List.Subset.trans (confined l mem).reads (List.nil_subset _)
    · exact (confined l mem).written ▸ List.nil_subset _
  passable := by
    have all : whole = [] ++ (whole ++ []) := (List.append_nil whole).symm
    obtain ⟨met, path⟩ := region.exists_path all .done
    rw [List.append_nil, List.append_nil] at path
    exact ⟨met, path⟩
  accesses := by
    intro met path
    have path : Path whole (ofLines stores ++ (y ++ tail)) met :=
      (congrArg (Path whole · met) here).mp path
    obtain ⟨later, rfl, behind⟩ := path.of_ofLines stay
    obtain ⟨inside, rest, rfl, accesses, behind'⟩ :=
      accessed.of_path region.nodup_labels here behind
    exact ⟨inside ++ rest, rfl, accesses.append (confined' rest behind')⟩

section Sites

variable {v? : Option Var} {p : Place} {whole : Listing} {ls : List DraftLine} {temporary : Nat}
  {target next : Label}

/-- The test for a pending exception reads no variable. -/
lemma isConfined_checkLines :
    ∀ l ∈ (checkLines temporary target next : List DraftLine), l.IsConfined [] := by
  refine List.forall_mem_cons.2 ⟨⟨?_, rfl⟩, List.forall_mem_cons.2 ⟨⟨?_, rfl⟩,
    List.forall_mem_singleton.2 ⟨?_, rfl⟩⟩⟩
  all_goals simp [Line.reads, Instr.reads, Term.reads, Value.ofRuntime]

/-- The test for an exception is gone through as a whole, whether there is one or not. -/
lemma path_checkLines {before : Listing} (nodup : (labels whole).Nodup)
    (there : whole = before ++ [.start next]) (outside : target ∉ labels whole)
    (path : Path whole (ofLines (checkLines temporary target next) ++ [.start next]) ls) :
    ls = checkLines temporary target next := by
  obtain ⟨_, rfl, path₁⟩ := path.of_stay rfl
  obtain ⟨_, rfl, path₂⟩ := path₁.of_stay rfl
  cases path₂ with
  | stay stays => cases stays
  | jump mem here path₃ =>
    rcases mem_pair.1 mem with rfl | rfl
    · exact absurd (mem_labels_of_eq here) outside
    · obtain rfl := eq_of_nodup (here ▸ nodup) (here.symm.trans there)
      cases path₃
      rfl
  | exit => rfl
  | stop none => cases none

/-- The code of a call site between the stores before it and the test after it. -/
lemma site_accesses {code : Emit Unit} (accesses : Emit.Accesses used v? code)
    (outside : p.target.isSplit = false) (handled : List (Option String)) (live : List Var)
    {s : Progress} {before after : List DraftBlock} {current : DraftBlock}
    (start : s.At before current after) :
    let s' := (site c p handled live code).next s
    let stores : List DraftLine :=
      siteStores c.frameSize? live s.pools.sites.sites.length s.draft.nextTemporary
    ∃ y s₂ s₃ temporary next n out,
      let x := ofLines stores ++ y ++
        (ofLines (checkLines temporary p.target next) ++ [.start next])
      s'.At (before ++ closed current x) (last current x) after ∧
      Region s.draft.currentLabel s.draft.nextSplit x next n out ∧
      Progress.Accesses used v? s₂ y s₃ := by
  intro s' stores
  obtain ⟨number, writes⟩ := beginSite_spec s c.frameSize? live handled
  let s₁ : Progress := { s with pools := (s.pools.register ⟨live.length, handled⟩).2 }
  let s₂ := (beginSite c.frameSize? live handled).next s
  have start₁ : s₁.At before current after := ⟨start.cursor, start.isOpen⟩
  have stored : s₁.Continues (ofLines stores) s₂ :=
    .of_writes writes (isPlain_siteStores _ _ _ _) start₁
  obtain ⟨y, accessed⟩ := accesses (stored.moves start₁)
  have continued := stored.append accessed.continues
  obtain ⟨tested, _, _, _, behind⟩ :=
    endSite_spec (continued.moves start₁) outside
      ((beginSite c.frameSize? live handled).result s) []
  have region := continued.region.append tested.region
  rw [behind] at region
  refine ⟨y, s₂, code.next s₂, _, _, _, _, ?_, region, accessed⟩
  have moved := tested.moves (continued.moves start₁)
  rw [List.append_assoc, ← closed_append, ← last_append] at moved
  exact moved

end Sites

section InBlock

variable {id : BlockId} {b : BasicBlock} {i : Instruction} {position : Nat} {code : Emit Unit}
  {f : Function Label}

/-- The stores of live references in front of the code of an instruction, if it is a call site. -/
def Context.spills (c : Context) (id : BlockId) (i : Instruction) (position : Nat) (s : Progress) :
    List DraftLine :=
  if c.isSite i then
    siteStores c.frameSize? (c.liveAt (.instruction id position)) s.pools.sites.sites.length
      s.draft.nextTemporary
  else []

/-- An instruction is lowered to code that reads what it uses, with a call site around it if it is
one. -/
lemma instruction_cases :
    Except.Ensures (fun code => c.isSite i = false ∧ Accesses i.used i.defined code ∨
        c.isSite i = true ∧ ∃ handled call, siteInstruction c i = .ok call ∧
          code = site c (.ofBlock id b) handled (c.liveAt (.instruction id position)) call)
      (instruction c id b i position) := by
  dsimp only [instruction]
  split
  case isTrue plain =>
    refine fun code given => .inl ⟨?_, plainInstruction_accesses i code given⟩
    cases site : c.isSite i with
    | false => rfl
    | true =>
      rw [isCallSite_of_isSite site] at plain
      cases plain
  case isFalse called =>
    split
    case isTrue none =>
      refine .pure (.inl ⟨by simpa using none, ?_⟩)
      -- there is nothing to initialize
      cases i with
      | initClass className => exact .of_reads (.pure trivial)
      | _ => simp_all [Context.isSite]
    case isFalse site =>
      exact .bind fun handled _ => .bind fun call given => .pure
        (.inr ⟨by simpa using site, handled, call, given, rfl⟩)

/-- Apart from the stores of live references, the code of an instruction reads only variables that
the instruction uses, and its own result once that is there. The result is defined once on every way
through the code, and no other variable is. -/
theorem instruction_accesses (given : instruction c id b i position = .ok code)
    (p : code.Placement f) :
    p.listing.AccessesBehind (c.spills id i position p.start) i.used i.defined := by
  rw [Context.spills]
  rcases instruction_cases code given with ⟨plain, accesses⟩ | ⟨site, handled, call, called, rfl⟩
  · obtain ⟨x, accessed⟩ := accesses p.here
    have same := p.listing_eq (accessed.continues.moves p.here)
    have here : p.listing = ofLines [] ++ (x ++ []) := same.trans (List.append_nil x).symm
    rw [plain]
    refine .of_region (same ▸ accessed.continues.region) here accessed (List.forall_mem_nil _)
      (List.forall_mem_nil _) fun ls path => ?_
    cases path
    exact List.forall_mem_nil _
  · have outside : (Place.ofBlock id b).target.isSplit = false := by
      rw [Place.target, Place.ofBlock]
      cases b.isProtected <;> rfl
    obtain ⟨y, s₂, s₃, temporary, next, n, out, moved, region, accessed⟩ :=
      site_accesses (siteInstruction_accesses i call called) outside handled
        (c.liveAt (.instruction id position)) p.here
    have same := p.listing_eq moved
    rw [site, if_pos rfl]
    refine .of_region (same ▸ region) (same.trans (List.append_assoc ..)) accessed ?_ ?_ ?_
    · exact fun l mem => Region.isLeave_eq_false (isPlain_siteStores _ _ _ _ l mem)
    · rw [lines_append, lines_ofLines]
      exact List.forall_mem_append.2 ⟨isConfined_checkLines, List.forall_mem_nil _⟩
    · intro ls path
      rw [path_checkLines (same ▸ region.nodup_labels) (same.trans (List.append_assoc ..).symm)
        (fun mem => ?_) path]
      · exact isConfined_checkLines
      · have split := region.isSplit_of_mem_labels (same ▸ mem)
        rw [outside] at split
        cases split

end InBlock

/-- Tell whether something is a clock. -/
def inspection : Body :=
  { kinds := [.object, .int]
    blocks :=
      [{ BasicBlock.empty with
          instructions := [.isInstance ⟨1⟩ ⟨0⟩ (.object "Clock")]
          terminator := .exit (some ⟨1⟩) }] }

/-- The method of the body. -/
def inspectMethod : MethodDef :=
  { waitMethod with
    signature := ⟨"inspect", [.object "Clock"], .primitive .int⟩
    body := some inspection }

/-- The test for null goes around the look at the class or through it. Either way only the object is
read, and the answer is written once. -/
theorem inspection_accesses :
    ∃ b f pools code, Backend.ofProgram clockProgram .default = .ok b ∧
      (function (.ofBody b clock inspectMethod inspection)).run .empty = .ok (f, pools) ∧
      instruction (.ofBody b clock inspectMethod inspection) ⟨0⟩ inspection.blocks[0]
        (.isInstance ⟨1⟩ ⟨0⟩ (.object "Clock")) 0 = .ok code ∧
      ∃ p : code.Placement f, (∃ met, Path p.listing p.listing met) ∧
        ∀ met, Path p.listing p.listing met → Line.Accesses [⟨0⟩] (some ⟨1⟩) met := by
  have computed : ((Backend.ofProgram clockProgram .default).toOption.bind fun b =>
      ((function (.ofBody b clock inspectMethod inspection)).run .empty).toOption.map fun _ => ()) =
        some () := by
    cbv
  obtain ⟨b, ⟨f, pools⟩, built, lowered, _⟩ := Except.exists_of_toOption_bind_map computed
  have bound : inspection.blocks.length ≤ UInt32.size := by decide
  have found : inspection.block? ⟨0⟩ = some inspection.blocks[0] := rfl
  have instr : inspection.blocks[0].instructions[0]? =
      some (.isInstance ⟨1⟩ ⟨0⟩ (.object "Clock")) := rfl
  obtain ⟨code, given, ⟨p⟩⟩ :=
    exists_placement (c := .ofBody b clock inspectMethod inspection) bound lowered found instr
  have behind := instruction_accesses given p
  refine ⟨b, f, pools, code, built, lowered, given, p, behind.passable, ?_⟩
  intro met path
  obtain ⟨later, rfl, accesses⟩ := behind.accesses met path
  exact accesses

end ObjectBackend.Lowering
