import ObjectBackend.Proofs.Flow.Lookups
import ObjectBackend.Proofs.Lowering.ControlFlow

/-!
# Faults of bodies

With what faults the lowering of a well-formed body may fail. The lowering looks up every variable
and every source of a phi that it comes across, and it sends each instruction to the code for its
kind. The check of the body has seen to the existence of all these variables and blocks, so whatever
the rest of the program is like, none of these look-ups is the reason for an error
(`Body.check_suffices`).
-/

namespace ObjectBackend

/-- The faults of bodies that are not well formed, or of instructions that are sent to code that is
not for them. -/
def BodyFault.isExcluded : BodyFault → Bool
  | noBlocks | unknownVariable _ | unexpectedSite | noSite | comparisonAsArithmetic
  | unknownSource _ => true
  | noBody | tooFewVariables .. | missingResult _ | callInstance .. => false

/-- Whether an error is a fault of a body. -/
def BackendError.isBodyFault : BackendError → Bool
  | body .. => true
  | _ => false

/-- An error that a well-formed body may give rise to, too. -/
def BackendError.Admitted (e : BackendError) : Prop :=
  ∀ method fault, e = .body method fault → fault.isExcluded = false

end ObjectBackend

namespace Except

variable {ε α β : Type} {P : ε → Prop} {x : Except ε α}

/-- If a computation fails, its error has a property. -/
def FailsWith (P : ε → Prop) (x : Except ε α) : Prop := ∀ e, x = .error e → P e

namespace FailsWith

/-- What succeeds does not fail. -/
lemma pure (a : α) : FailsWith P (Pure.pure a : Except ε α) := by
  intro e failed
  cases failed

/-- An error is admitted if it is one of those. -/
lemma error {e : ε} (holds : P e) : FailsWith P (.error e : Except ε α) := by
  intro e' failed
  cases failed
  exact holds

/-- Computations fail one after the other as they may. -/
lemma bind {f : α → Except ε β} (first : FailsWith P x)
    (rest : ∀ a, x = .ok a → FailsWith P (f a)) : FailsWith P (x >>= f) := by
  cases given : x with
  | error e => exact error (first e given)
  | ok a => exact rest a given

/-- A choice fails as its branches may. -/
lemma ite {p : Prop} [Decidable p] {y : Except ε α} (then_ : p → FailsWith P x)
    (else_ : ¬p → FailsWith P y) : FailsWith P (if p then x else y) := by
  split
  case isTrue holds => exact then_ holds
  case isFalse fails => exact else_ fails

/-- A traversal fails as its steps may. -/
lemma mapM {f : α → Except ε β} {xs : List α} (each : ∀ a ∈ xs, FailsWith P (f a)) :
    FailsWith P (xs.mapM f) := by
  induction xs with
  | nil => exact pure _
  | cons a xs ih =>
    rw [List.mapM_cons]
    obtain ⟨first, others⟩ := List.forall_mem_cons.1 each
    exact bind first fun _ _ => bind (ih others) fun _ _ => pure _

/-- A check of what is optional. -/
lemma forM {f : α → Except ε Unit} {o : Option α} (each : ∀ a, o = some a → FailsWith P (f a)) :
    FailsWith P (o.forM f) := by
  cases o with
  | none => exact pure _
  | some a => exact each a rfl

end FailsWith

end Except

namespace ObjectBackend

namespace Lowering

open Target
open Except (FailsWith)

variable {c : Context}

/-- A computation that fails only as it may for a well-formed body. -/
abbrev Safe {α : Type} (x : Except BackendError α) : Prop := FailsWith BackendError.Admitted x

/-- An error that is no fault of a body is admitted. -/
lemma elsewhere_safe {α : Type} {e : BackendError} (other : e.isBodyFault = false) :
    Safe (.error e : Except _ α) := by
  refine .error fun method fault eq => ?_
  rw [eq] at other
  cases other

/-- A mismatch of kinds may occur. -/
lemma mismatch_safe {α : Type} (fault : KindFault) : Safe (c.mismatch fault : Except _ α) :=
  elsewhere_safe rfl

/-- A fault that is not excluded may occur. -/
lemma malformed_safe {α : Type} {fault : BodyFault} (admitted : fault.isExcluded = false) :
    Safe (c.malformed fault : Except _ α) := by
  refine .error fun _ _ eq => ?_
  cases eq
  exact admitted

/-- A variable is one of the body. -/
def Context.Has (c : Context) (v : Var) : Prop := v.index < c.body.kinds.length

section Checks

variable {v : Var} {α : Type}

/-- The kind of a variable of the body is found. -/
lemma kindOf_safe (known : c.Has v) : Safe (c.kindOf v) := by
  rw [Context.kindOf, Body.kindOf, List.getElem?_eq_getElem known]
  exact .pure _

/-- The type of a declared variable is looked up safely. -/
lemma typeOf_safe (known : c.Has v) : Safe (c.typeOf v) :=
  .bind (kindOf_safe known) fun _ _ => .pure _

/-- A declared variable is compared with a type safely. -/
lemma expect_safe (known : c.Has v) {type : IrType} : Safe (c.expect v type) :=
  .bind (typeOf_safe known) fun _ _ => .ite (fun _ => .pure _) fun _ => mismatch_safe _

/-- A declared variable is expected to hold a reference safely. -/
lemma expectReference_safe (known : c.Has v) : Safe (c.expectReference v) :=
  .bind (kindOf_safe known) fun _ _ => .ite (fun _ => .pure _) fun _ => mismatch_safe _

/-- The element kind of a declared variable is looked up safely. -/
lemma elementKindOf_safe (known : c.Has v) : Safe (c.elementKindOf v) := by
  refine .bind (kindOf_safe known) fun kind _ => ?_
  split
  case h_1 => exact .pure _
  case h_2 => exact mismatch_safe _

/-- A class is expected to be declared safely. -/
lemma expectClass_safe (className : String) : Safe (c.expectClass className) :=
  .ite (fun _ => .pure _) fun _ => elsewhere_safe rfl

/-- The class of a type is looked up safely. -/
lemma classSymbol_safe (type : ValueType) : Safe (classSymbol c type) := by
  cases type with
  | object className => exact .bind (expectClass_safe className) fun _ _ => .pure _
  | array item => exact .pure _
  | primitive _ | void => exact elsewhere_safe rfl

end Checks

section Instructions

variable {receiver : Var}

/-- An operator that is no operation of its own is the comparison. -/
lemma arithmetic_safe {operator : BinaryOperator} (other : operator ≠ .compare)
    {first second : Var} (operand : Numeric) (knownReceiver : c.Has receiver)
    (knownFirst : c.Has first) (knownSecond : c.Has second) :
    Safe (arithmetic c operator receiver first second operand) := by
  refine .bind (expect_safe knownFirst) fun _ _ => .bind (expect_safe knownReceiver) fun _ _ =>
    .bind (expect_safe knownSecond) fun _ _ => ?_
  dsimp only
  split
  case h_1 | h_2 => exact .pure _
  case h_3 => exact elsewhere_safe rfl
  case h_4 none =>
    cases operator with
    | compare => exact absurd rfl other
    | _ => cases none

/-- An operation on declared variables is lowered safely. -/
lemma binary_safe (operator : BinaryOperator) {first second : Var} (operand : Numeric)
    (knownReceiver : c.Has receiver) (knownFirst : c.Has first) (knownSecond : c.Has second) :
    Safe (binary c operator receiver first second operand) := by
  refine .ite (fun _ => ?_) fun other => ?_
  · exact .bind (expect_safe knownFirst) fun _ _ => .bind (expect_safe knownSecond) fun _ _ =>
      .bind (expect_safe knownReceiver) fun _ _ => .pure _
  · exact arithmetic_safe other operand knownReceiver knownFirst knownSecond

/-- A static field is resolved safely. -/
lemma staticField_safe (field : FieldRef) : Safe (staticField c field) := by
  rw [staticField]
  split
  case h_1 => exact elsewhere_safe rfl
  case h_2 => exact .ite (fun _ => .pure _) fun _ => mismatch_safe _

/-- A field of a declared variable is resolved safely. -/
lemma instanceField_safe {inst : Var} (field : FieldRef) (known : c.Has inst) :
    Safe (instanceField c inst field) := by
  refine .bind (expectReference_safe known) fun _ _ => ?_
  split
  case h_1 => exact elsewhere_safe rfl
  case h_2 => exact .pure _

/-- A field is resolved safely if its variable is declared. -/
lemma fieldPlace_safe {inst : Option Var} (field : FieldRef) (used : ValueType)
    (known : ∀ v ∈ inst, c.Has v) : Safe (fieldPlace c inst field used) := by
  dsimp only [fieldPlace]
  cases inst with
  | none =>
    exact .bind (staticField_safe field) fun _ _ =>
      .ite (fun _ => .pure _) fun _ => elsewhere_safe rfl
  | some v =>
    exact .bind (instanceField_safe field (known v rfl)) fun _ _ =>
      .ite (fun _ => .pure _) fun _ => elsewhere_safe rfl

/-- Making an array with declared variables is lowered safely. -/
lemma constructArray_safe (item : ValueType) {size : Var} (knownReceiver : c.Has receiver)
    (knownSize : c.Has size) : Safe (constructArray c receiver item size) := by
  dsimp only [constructArray]
  refine .ite (fun _ => elsewhere_safe rfl) fun _ => .bind (expect_safe knownSize) fun _ _ =>
    .bind (expect_safe knownReceiver) fun _ _ => ?_
  exact .ite (fun _ => .bind (classSymbol_safe item) fun _ _ => .pure _) fun _ => .pure _

/-- A test of declared variables is lowered safely. -/
lemma isInstance_safe {value : Var} (type : ValueType) (knownReceiver : c.Has receiver)
    (knownValue : c.Has value) : Safe (isInstance c receiver value type) := by
  refine .bind (expectReference_safe knownValue) fun _ _ =>
    .bind (expect_safe knownReceiver) fun _ _ => ?_
  split
  case h_1 className =>
    exact .bind (kindOf_safe knownValue) fun _ _ => .bind (expectClass_safe className) fun _ _ =>
      .pure _
  case h_2 item =>
    refine .ite (fun _ => ?_) fun _ => .bind (kindOf_safe knownValue) fun _ _ =>
      .ite (fun _ => .pure _) fun _ => .pure _
    cases item with
    | object className =>
      exact .ite (fun _ => .pure _) fun _ => .bind (expectClass_safe className) fun _ _ => .pure _
    | array inner => exact .pure _
    | primitive _ | void => exact mismatch_safe _
  case h_3 => exact mismatch_safe _

/-- A callee is resolved directly and safely. -/
lemma directCallee_safe (method : MethodRef) (isStatic : Bool) :
    Safe (directCallee c method isStatic) := by
  rw [directCallee]
  split
  case h_1 => exact elsewhere_safe rfl
  case h_2 =>
    exact .ite (fun _ => mismatch_safe _) fun _ =>
      .ite (fun _ => elsewhere_safe rfl) fun _ => .pure _

/-- A callee is resolved safely. -/
lemma callee_safe (inst : Option Var) (method : MethodRef) (kind : InvocationKind) :
    Safe (callee c inst method kind) := by
  have direct : Safe (do
      return pure (Value.symbol (← directCallee c method (kind = .static))) :
      Except _ (Emit Value)) :=
    .bind (directCallee_safe _ _) fun _ _ => .pure _
  dsimp only [callee]
  split
  case h_1 inst =>
    split
    case h_1 => exact .pure _
    case h_2 => exact direct
  case h_2 => exact direct

/-- An invocation with declared variables is lowered safely. -/
lemma invoke_safe {receiver inst : Option Var} (method : MethodRef) {arguments : List Var}
    (kind : InvocationKind) (knownReceiver : ∀ v ∈ receiver, c.Has v)
    (knownInst : ∀ v ∈ inst, c.Has v) (knownArguments : ∀ v ∈ arguments, c.Has v) :
    Safe (invoke c receiver inst method arguments kind) := by
  have operands : Safe (callArguments c inst method arguments) := by
    refine .bind (.forM fun v given => expectReference_safe (knownInst v given)) fun _ _ =>
      .bind (.mapM fun (argument, parameter) mem => ?_) fun _ _ => .pure _
    exact .bind (expect_safe (knownArguments _ (List.of_mem_zip mem).1)) fun _ _ => .pure _
  dsimp only [invoke]
  refine .ite (fun _ => elsewhere_safe rfl) fun _ => .ite (fun _ => ?_) fun _ =>
    .bind operands fun _ _ => .bind (.forM fun v given => ?_) fun _ _ =>
    .bind (callee_safe inst method kind) fun _ _ => .pure _
  · exact .bind (malformed_safe rfl) nofun
  · exact .ite (fun _ => elsewhere_safe rfl) fun _ => expect_safe (knownReceiver v given)

/-- An instruction that is no call site is sent to the code for those. -/
lemma plainInstruction_safe {i : Instruction} (plain : i.isCallSite = false)
    (reads : ∀ v ∈ i.used, c.Has v) (writes : ∀ v ∈ i.defined, c.Has v) :
    Safe (plainInstruction c i) := by
  cases i with
  | nop | monitorEnter | monitorExit => exact .pure _
  | nullConstant receiver | intConstant receiver | longConstant receiver | floatConstant receiver
  | doubleConstant receiver | stringConstant receiver =>
    exact .bind (expect_safe (writes receiver rfl)) fun _ _ => .pure _
  | classConstant receiver type =>
    exact .bind (classSymbol_safe type) fun _ _ => .bind (expect_safe (writes receiver rfl))
      fun _ _ => .pure _
  | binary operator receiver first second operand =>
    obtain ⟨knownFirst, others⟩ := List.forall_mem_cons.1 reads
    exact binary_safe operator operand (writes receiver rfl) knownFirst
      (List.forall_mem_singleton.1 others)
  | negate receiver operand type | numericCast receiver operand source target
  | integerCast receiver operand subword =>
    exact .bind (expect_safe (List.forall_mem_singleton.1 reads)) fun _ _ =>
      .bind (expect_safe (writes receiver rfl)) fun _ _ => .pure _
  | assign receiver assignee =>
    exact .bind (typeOf_safe (writes receiver rfl)) fun _ _ =>
      .bind (expect_safe (List.forall_mem_singleton.1 reads)) fun _ _ => .pure _
  | cast receiver value | nullCheck receiver value | unwrapArray receiver value =>
    exact .bind (expectReference_safe (List.forall_mem_singleton.1 reads)) fun _ _ =>
      .bind (expectReference_safe (writes receiver rfl)) fun _ _ => .pure _
  | getField receiver inst field type =>
    refine .bind (fieldPlace_safe field type fun v given => ?_) fun _ _ =>
      .bind (expect_safe (writes receiver rfl)) fun _ _ => .pure _
    exact reads v (Option.mem_toList.2 given)
  | putField inst field value type =>
    obtain ⟨knownInst, knownValue⟩ := List.forall_mem_append.1 reads
    refine .bind (fieldPlace_safe field type fun v given => ?_) fun _ _ =>
      .bind (expect_safe (List.forall_mem_singleton.1 knownValue)) fun _ _ => .pure _
    exact knownInst v (Option.mem_toList.2 given)
  | arrayLength receiver array =>
    exact .bind (elementKindOf_safe (List.forall_mem_singleton.1 reads)) fun _ _ =>
      .bind (expect_safe (writes receiver rfl)) fun _ _ => .pure _
  | getElement receiver array index =>
    obtain ⟨knownArray, others⟩ := List.forall_mem_cons.1 reads
    exact .bind (elementKindOf_safe knownArray) fun _ _ =>
      .bind (expect_safe (writes receiver rfl)) fun _ _ =>
      .bind (expect_safe (List.forall_mem_singleton.1 others)) fun _ _ => .pure _
  | putElement array index value =>
    obtain ⟨knownArray, others⟩ := List.forall_mem_cons.1 reads
    obtain ⟨knownIndex, others⟩ := List.forall_mem_cons.1 others
    exact .bind (elementKindOf_safe knownArray) fun _ _ =>
      .bind (expect_safe (List.forall_mem_singleton.1 others)) fun _ _ =>
      .bind (expect_safe knownIndex) fun _ _ => .pure _
  | isInstance receiver value type =>
    exact isInstance_safe type (writes receiver rfl) (List.forall_mem_singleton.1 reads)
  | invoke | invokeDynamic | construct | constructArray | constructMultiArray | cloneArray
  | initClass => cases plain

/-- A call site is sent to the code for those. -/
lemma siteInstruction_safe {i : Instruction} (site : i.isCallSite = true)
    (reads : ∀ v ∈ i.used, c.Has v) (writes : ∀ v ∈ i.defined, c.Has v) :
    Safe (siteInstruction c i) := by
  cases i with
  | invoke receiver inst method arguments kind =>
    obtain ⟨knownInst, knownArguments⟩ := List.forall_mem_append.1 reads
    exact invoke_safe method kind writes (fun v given => knownInst v (Option.mem_toList.2 given))
      knownArguments
  | invokeDynamic => exact elsewhere_safe rfl
  | construct receiver className =>
    refine .bind (expectClass_safe className) fun _ _ => ?_
    exact .ite (fun _ => elsewhere_safe rfl) fun _ =>
      .bind (expect_safe (writes receiver rfl)) fun _ _ => .pure _
  | constructArray receiver item size =>
    exact constructArray_safe item (writes receiver rfl) (List.forall_mem_singleton.1 reads)
  | constructMultiArray receiver item dimensions =>
    dsimp only [siteInstruction]
    rw [constructMultiArray.eq_def]
    split
    case h_1 size =>
      exact constructArray_safe item (writes receiver rfl) (List.forall_mem_singleton.1 reads)
    case h_2 => exact elsewhere_safe rfl
  | cloneArray receiver array =>
    exact .bind (elementKindOf_safe (List.forall_mem_singleton.1 reads)) fun _ _ =>
      .bind (expect_safe (writes receiver rfl)) fun _ _ => .pure _
  | initClass => exact .pure _
  | _ => cases site

/-- The handled classes are looked up safely. -/
lemma handledClasses_safe (b : BasicBlock) : Safe (handledClasses c b) :=
  .mapM fun _ _ => .bind (.forM fun className _ => expectClass_safe className) fun _ _ => .pure _

/-- An instruction with declared variables is lowered safely. -/
lemma instruction_safe (id : BlockId) (b : BasicBlock) {i : Instruction} (position : Nat)
    (reads : ∀ v ∈ i.used, c.Has v) (writes : ∀ v ∈ i.defined, c.Has v) :
    Safe (instruction c id b i position) := by
  dsimp only [instruction]
  refine .ite (fun plain => ?_) fun site => ?_
  · exact plainInstruction_safe (by simpa using plain) reads writes
  · have site : i.isCallSite = true := by simpa using site
    exact .ite (fun _ => .pure _) fun _ => .bind (handledClasses_safe b) fun _ _ =>
      .bind (siteInstruction_safe site reads writes) fun _ _ => .pure _

end Instructions

section Blocks

variable {id : BlockId} {b : BasicBlock} {name : String}

/-- The sources and the values of phis are looked up. -/
lemma phi_safe (id : BlockId) {p : Phi} (known : c.Has p.receiver)
    (incomings : ∀ i ∈ p.incomings, i.source.index < c.body.blocks.length ∧ c.Has i.value) :
    Safe (phi c id p) := by
  refine .bind (typeOf_safe known) fun type _ => .bind (.mapM fun i given => ?_) fun _ _ => .pure _
  obtain ⟨lt, knownValue⟩ := incomings i given
  refine .bind (expect_safe knownValue) fun _ _ => ?_
  rw [Body.block?, List.getElem?_eq_getElem lt]
  exact .pure _

/-- Receiving the exception into a declared variable is lowered safely. -/
lemma receiveException_safe (id : BlockId) (known : ∀ v ∈ b.exceptionVariable, c.Has v) :
    Safe (receiveException c id b) :=
  .ite (fun _ => .pure _) fun _ => .bind (.forM fun v given => expect_safe (known v given))
    fun _ _ => .pure _

/-- A condition on a declared variable is lowered safely. -/
lemma branchTest_safe (condition : BranchCondition) {operand : Var} (known : c.Has operand) :
    Safe (branchTest c condition operand) := by
  refine .bind (typeOf_safe known) fun type _ => ?_
  dsimp only
  exact .ite (fun _ => elsewhere_safe rfl) fun _ => .ite (fun _ => elsewhere_safe rfl) fun _ =>
    .ite (fun _ => elsewhere_safe rfl) fun _ => .pure _

/-- A condition on two declared variables is lowered safely. -/
lemma binaryBranchTest_safe (condition : BinaryBranchCondition) {first second : Var}
    (knownFirst : c.Has first) (knownSecond : c.Has second) :
    Safe (binaryBranchTest c condition first second) :=
  .bind (typeOf_safe knownFirst) fun _ _ => .bind (expect_safe knownSecond) fun _ _ =>
    .ite (fun _ => .pure _) fun _ => elsewhere_safe rfl

/-- An exit with a declared variable is lowered safely. -/
lemma exit_safe {value : Option Var} (known : ∀ v ∈ value, c.Has v) : Safe (exit c value) := by
  cases value with
  | none => exact .ite (fun _ => .pure _) fun _ => .bind (malformed_safe rfl) nofun
  | some v =>
    exact .ite (fun _ => elsewhere_safe rfl) fun _ =>
      .bind (expect_safe (known v rfl)) fun _ _ => .pure _

/-- A terminator with declared variables is lowered safely. -/
lemma terminator_safe (id : BlockId) (known : ∀ v ∈ b.terminator.used, c.Has v) :
    Safe (terminator c id b) := by
  rw [terminator]
  cases given : b.terminator with
  | jump | unreachable => exact .pure _
  | branch condition operand =>
    rw [given] at known
    exact .bind (branchTest_safe condition (List.forall_mem_singleton.1 known)) fun _ _ => .pure _
  | binaryBranch condition first second =>
    rw [given] at known
    obtain ⟨knownFirst, others⟩ := List.forall_mem_cons.1 known
    exact .bind (binaryBranchTest_safe condition knownFirst (List.forall_mem_singleton.1 others))
      fun _ _ => .pure _
  | switch condition =>
    rw [given] at known
    exact .bind (expect_safe (List.forall_mem_singleton.1 known)) fun _ _ => .pure _
  | exit value =>
    rw [given] at known
    exact exit_safe fun v returned => known v (Option.mem_toList.2 returned)
  | raise exception =>
    rw [given] at known
    exact .bind (expectReference_safe (List.forall_mem_singleton.1 known)) fun _ _ =>
      .bind (handledClasses_safe b) fun _ _ => .pure _

/-- Everything that the code of a block looks up has been checked. -/
lemma block_safe (checked : c.body.check name = .ok ()) (mem : b ∈ c.body.blocks) (id : BlockId) :
    Safe (block c id b) := by
  have writes : ∀ v ∈ b.defs, c.Has v := fun v written => Body.defs_lt checked mem written
  have heads : ∀ v ∈ b.headDefs, c.Has v := fun v head =>
    writes v (List.mem_append_right _ head)
  have phis : Safe (b.phis.mapM (phi c id)) := .mapM fun p memPhi =>
    phi_safe id (heads _ (List.mem_append_left _ (List.mem_map_of_mem memPhi))) fun i given =>
      Body.incoming_lt checked mem memPhi given
  have received : Safe (receiveException c id b) := receiveException_safe id fun v given =>
    heads v (List.mem_append_right _ (Option.mem_toList.2 given))
  refine .bind phis fun _ _ => .bind received fun _ _ => .bind (.mapM fun (i, position) given => ?_)
    fun _ _ => .bind (terminator_safe id fun v used => Body.terminator_used_lt checked mem used)
    fun _ _ => .pure _
  have instr : i ∈ b.instructions := List.fst_mem_of_mem_zipIdx given
  refine .bind (instruction_safe id b position ?_ ?_) fun _ _ => .pure _
  · exact fun v used => Body.used_lt checked mem instr used
  · exact fun v defined =>
      writes v (List.mem_append_left _ (List.mem_filterMap.2 ⟨i, instr, defined⟩))

end Blocks

section Methods

variable {name : String}

/-- A body that passes the check is lowered safely. -/
lemma body_safe (checked : c.body.check name = .ok ()) : Safe (body c) := by
  have blocks : ¬c.body.blocks.isEmpty = true := by
    rw [List.isEmpty_iff]
    exact List.ne_nil_of_length_pos (Body.length_pos checked)
  dsimp only [body]
  rw [if_neg blocks]
  refine .bind (.mapM fun e mem => ?_) fun _ _ => .pure _
  obtain ⟨⟨b, _⟩, numbered, rfl⟩ := List.mem_map.1 mem
  exact block_safe checked (List.fst_mem_of_mem_zipIdx numbered) _

/-- What the parameters are declared as is not looked up in the body. -/
lemma parameters_safe : Safe (parameters c) := by
  dsimp only [parameters]
  refine .ite (fun _ => .bind (malformed_safe rfl) nofun) fun _ => .mapM fun e _ => ?_
  exact .ite (fun _ => .pure _) fun _ => elsewhere_safe rfl

/-- A function whose body passes the check is made safely. -/
lemma function_safe (checked : c.body.check name = .ok ()) (pools : Pools) :
    Safe ((function c).run pools) := by
  rw [function_run]
  exact .bind parameters_safe fun _ _ => .bind (body_safe checked) fun _ _ => .pure _

/-- A method whose body passes the check is lowered safely. -/
lemma method_safe {backend : Backend} {owner : ClassDef} {m : MethodDef} {body : Body}
    (given : m.body = some body) (checked : body.check name = .ok ()) (pools : Pools) :
    Safe ((method backend owner m).run pools) := by
  rw [method]
  split
  case isTrue => exact .pure _
  case isFalse =>
    split
    case isTrue => exact .pure _
    case isFalse =>
      rw [given]
      exact .bind (function_safe checked pools) fun _ _ => .pure _

end Methods

end Lowering

/-- What the check of bodies promises is enough for what comes after it. The analysis of a body that
passes it looks up only blocks that exist. And whatever method has the body, and whatever the rest
of the program is like, the lowering of the method does not fail for want of blocks, with a variable
or the source of a phi that does not exist, or because an instruction came to code that is not for
it. -/
theorem Body.check_suffices {name : String} {body : Body} (checked : body.check name = .ok ()) :
    Liveness.analyze? body = some (Liveness.analyze body) ∧
      ∀ (backend : Backend) (owner : ClassDef) (m : MethodDef) (pools : Pools) (e : BackendError),
        m.body = some body → (Lowering.method backend owner m).run pools = .error e →
          ∀ method fault, e = .body method fault → fault.isExcluded = false := by
  refine ⟨Liveness.analyze?_eq checked, ?_⟩
  intro backend owner m pools e given failed
  exact Lowering.method_safe given checked pools e failed

namespace Lowering

/-- A method that waits as well, but is declared to have a result. -/
def answerMethod : MethodDef :=
  { waitMethod with signature := ⟨"wait", [.primitive .int], .primitive .int⟩ }

/-- The body, a loop with phis and a call site that a handler protects, is well formed, and what
makes the lowering fail is the declaration of the method. -/
theorem waiting_misses_result :
    waiting.check "wait" = .ok () ∧ Liveness.analyze? waiting = some (Liveness.analyze waiting) ∧
      ∃ b, Backend.ofProgram clockProgram .default = .ok b ∧
        (method b clock answerMethod).run .empty =
          .error (.body (clock.reference answerMethod) (.missingResult .i32)) ∧
        (BodyFault.missingResult .i32).isExcluded = false := by
  have computed : ((Backend.ofProgram clockProgram .default).toOption.map fun b =>
      match (method b clock answerMethod).run .empty with
      | .error e => some e
      | .ok _ => none) =
        some (some (.body (clock.reference answerMethod) (.missingResult .i32))) := by
    cbv
  have checked : waiting.check "wait" = .ok () := by decide
  obtain ⟨analyzed, faults⟩ := Body.check_suffices checked
  obtain ⟨b, built, failed⟩ := Option.map_eq_some_iff.1 computed
  split at failed
  case h_2 => cases failed
  case h_1 e failed' =>
    cases failed
    exact ⟨checked, analyzed, b, Except.eq_ok_of_toOption built, failed',
      faults b clock answerMethod .empty _ rfl failed' _ _ rfl⟩

end Lowering

end ObjectBackend
