import ObjectBackend.Proofs.Lowering.Blocks
import ObjectBackend.Proofs.Target.Values

/-!
# The steps that code is composed of

All code of instructions is put together from a few steps of emission (`Emit.Composed`), so what is
true of each step is true of the code by one induction over its composition. The steps that append
lines are told apart by what lines these are. Nearly all lines are ordinary: they use registers of
the function only, and they do not catch an exception (`plainInstruction_ordinary`,
`siteInstruction_ordinary`).
-/

namespace ObjectBackend

open Target

namespace Target

/-- Whether a value is not given by its text and does not stand for the function that hands over the
pending exception. -/
def Value.isOrdinary : Value → Bool
  | .register (.named _) | .verbatim _ | .symbol (.runtime .catchException) => false
  | _ => true

/-- The register of a variable is ordinary. -/
@[simp] lemma Value.isOrdinary_ofVar (v : Var) : (ofVar v).isOrdinary = true := rfl

/-- The null address is ordinary. -/
@[simp] lemma Value.isOrdinary_null : null.isOrdinary = true := rfl

/-- An integer is ordinary. -/
@[simp] lemma Value.isOrdinary_int (n : Int) : (int n).isOrdinary = true := rfl

/-- Whether a line does something, with ordinary values. -/
def Line.isOrdinary {ℓ σ : Type} (l : Line ℓ σ) : Bool :=
  !l.isComment && l.values.all Value.isOrdinary

end Target

namespace Lowering

variable {α β : Type}

section Labels

variable {q : DraftLine → Bool} {d : Draft Label} {bs : List DraftBlock} {l : DraftLine}

/-- The labels of the blocks that have a line of a sort. -/
def labelsWith {ℓ σ : Type} (q : Line ℓ σ → Bool) (bs : List (Block ℓ σ)) : List ℓ :=
  (bs.filter fun b => b.lines.any q).map (·.label)

/-- The blocks with such lines, of one list after the other. -/
lemma labelsWith_append (bs bs' : List DraftBlock) :
    labelsWith q (bs ++ bs') = labelsWith q bs ++ labelsWith q bs' := by
  rw [labelsWith, List.filter_append, List.map_append, labelsWith, labelsWith]

/-- A change of a block that brings no such line leaves the blocks with such lines as they are. -/
lemma labelsWith_modify {g : DraftBlock → DraftBlock} (i : Nat)
    (same : ∀ b, (g b).label = b.label ∧ (g b).lines.any q = b.lines.any q) :
    labelsWith q (bs.modify i g) = labelsWith q bs := by
  induction bs generalizing i with
  | nil => rw [List.modify_nil]
  | cons b bs ih =>
    have rest (bs : List DraftBlock) :
        labelsWith q (b :: bs) = labelsWith q [b] ++ labelsWith q bs := labelsWith_append [b] bs
    cases i with
    | zero =>
      rw [List.modify_zero_cons, labelsWith, labelsWith, List.filter_cons, List.filter_cons,
        (same b).2]
      split
      · rw [List.map_cons, List.map_cons, (same b).1]
      · rfl
    | succ i => rw [List.modify_succ_cons, rest, rest bs, ih]

/-- A block without such lines may be inserted. -/
lemma labelsWith_insertIdx (i : Nat) {b : DraftBlock} (none : b.lines.any q = false) :
    labelsWith q (bs.insertIdx i b) = labelsWith q bs := by
  have without (bs : List DraftBlock) : labelsWith q (b :: bs) = labelsWith q bs := by
    rw [labelsWith, List.filter_cons, none]
    rfl
  induction bs generalizing i with
  | nil =>
    cases i with
    | zero => exact without []
    | succ i => rfl
  | cons b' bs ih =>
    cases i with
    | zero => exact without (b' :: bs)
    | succ i =>
      have rest (bs : List DraftBlock) :
          labelsWith q (b' :: bs) = labelsWith q [b'] ++ labelsWith q bs :=
        labelsWith_append [b'] bs
      rw [List.insertIdx_succ_cons, rest, rest bs, ih]

/-- Another line may be pushed. -/
lemma labelsWith_push (other : q l = false) :
    labelsWith q (d.push l).blocks = labelsWith q d.blocks :=
  labelsWith_modify _ fun b => ⟨rfl, by simp [Block.push, other]⟩

/-- A block may be left by another line. -/
lemma labelsWith_terminate {t : Term Label} (other : q (.leave t) = false) :
    labelsWith q (d.terminate t).blocks = labelsWith q d.blocks := by
  refine labelsWith_modify _ fun b => ?_
  rw [Block.terminate]
  split
  · exact ⟨rfl, rfl⟩
  · exact ⟨rfl, by simp [Block.push, other]⟩

end Labels

/-- Code that is composed of steps of emission, with lines of a sort only. -/
inductive Emit.Composed (p : DraftLine → Bool) : {α : Type} → Emit α → Prop where
  | pure {α : Type} (a : α) : Composed p (Pure.pure a)
  | bind {α β : Type} {e : Emit α} {f : α → Emit β} :
    Composed p e →
    (∀ s, Composed p (f (e.result s))) →
    Composed p (e >>= f)
  | line {l : DraftLine} : p l = true → Composed p (Emit.line l)
  | leave {t : Term Label} : p (.leave t) = true → Composed p (Emit.leave t)
  | fresh : Composed p Emit.fresh
  | here : Composed p Emit.here
  | appendBlock (l : Label) : Composed p (Emit.appendBlock l)
  | insertBlock (l : Label) : Composed p (Emit.insertBlock l)
  | split (first : Label) : Composed p (Emit.split first)
  | continueAt (l : Label) : Composed p (Emit.continueAt l)
  | finishBlock (id : BlockId) : Composed p (Emit.onDraft fun d => ((), d.finishBlock id))
  /-- A step apart from the draft; what it records for the shared exit is ordinary. -/
  | aside {α : Type} {f : Progress → α × Progress} :
    (∀ s d, f { s with draft := d } = ((f s).1, { (f s).2 with draft := d })) →
    (∀ s, ∀ e ∈ (f s).2.exits, e ∈ s.exits ∨ e.1.all Value.isOrdinary = true) →
    Composed p (modifyGet f)

namespace Emit.Composed

variable {p q : DraftLine → Bool} {e : Emit α} {f : α → Emit β}

/-- Lines of a sort are lines of any wider sort. -/
lemma mono (wider : ∀ l, p l = true → q l = true) (composed : Composed p e) : Composed q e := by
  induction composed with
  | pure a => exact .pure a
  | bind _ _ ih ih' => exact .bind ih ih'
  | line holds => exact .line (wider _ holds)
  | leave holds => exact .leave (wider _ holds)
  | fresh => exact .fresh
  | here => exact .here
  | appendBlock l => exact .appendBlock l
  | insertBlock l => exact .insertBlock l
  | split first => exact .split first
  | continueAt l => exact .continueAt l
  | finishBlock id => exact .finishBlock id
  | aside apart exits => exact .aside apart exits

/-- The result of an instruction goes to a temporary. -/
lemma define {i : Instr} (holds : ∀ n, p (.define (.register (.temporary n)) i) = true) :
    Composed p (Emit.define i) :=
  .bind (f := fun receiver => Emit.line (.define receiver i) >>= fun _ => Pure.pure receiver)
    .fresh fun s => .bind (.line (holds s.draft.nextTemporary)) fun _ => .pure _

/-- A call is composed if its line is of the sort, with a result or without. -/
lemma call {result : IrType} {callee : Symbol} {arguments : List Target.Operand}
    (runs : p (.run (.call result (.symbol callee) arguments)) = true)
    (defines : ∀ n, p (.define (.register (.temporary n))
      (.call result (.symbol callee) arguments)) = true) :
    Composed p (Emit.call result callee arguments) := by
  by_cases void : result = .void
  · rw [Emit.call_of_void void]
    exact .bind (.line runs) fun _ => .pure _
  · rw [Emit.call_of_ne_void void]
    exact .bind (.define defines) fun _ => .pure _

/-- A literal is composed, as it adds no line. -/
lemma literal (text : String) : Composed p (Emit.literal text) :=
  .aside (fun _ _ => rfl) fun _ _ => .inl

/-- Registering a call site is composed, as it adds no line. -/
lemma register (site : CallSite) : Composed p (Emit.register site) :=
  .aside (fun _ _ => rfl) fun _ _ => .inl

/-- Code for each item of a list is composed if each code is. -/
lemma forM {f : α → Emit Unit} {xs : List α} (each : ∀ x ∈ xs, Composed p (f x)) :
    Composed p (xs.forM f) := by
  induction xs with
  | nil => exact .pure ()
  | cons x xs ih =>
    obtain ⟨first, others⟩ := List.forall_mem_cons.1 each
    exact .bind first fun _ => ih others

/-- What is recorded beside the draft is looked at. -/
lemma recorded {g : Progress → Emit β} (apart : ∀ s d, g { s with draft := d } = g s)
    (next : ∀ s, (g s).Composed p) : Composed p (get >>= g) :=
  .bind (e := modifyGet fun s => (g s, s)) (f := fun code => code)
    (.aside (fun s d => by rw [apart]) fun _ _ => .inl) next

section Effects

/-- Code that is composed of lines of one sort adds none of another sort. -/
lemma labelsWith_eq (composed : Composed p e) (others : ∀ l, p l = true → q l = false)
    (s : Progress) : labelsWith q (e.next s).draft.blocks = labelsWith q s.draft.blocks := by
  induction composed generalizing s with
  | pure | fresh | here | finishBlock => rfl
  | bind _ _ ih ih' => exact (ih' _ _).trans (ih _)
  | line holds => exact labelsWith_push (others _ holds)
  | leave holds => exact labelsWith_terminate (others _ holds)
  | appendBlock l =>
    change labelsWith q (s.draft.blocks ++ [⟨l, []⟩]) = _
    rw [labelsWith_append]
    exact List.append_nil _
  | insertBlock l => exact labelsWith_insertIdx _ rfl
  | split first => exact labelsWith_insertIdx _ rfl
  | continueAt l =>
    obtain ⟨i, eq⟩ := s.draft.goTo_eq l
    change labelsWith q (s.draft.goTo l).blocks = _
    rw [eq]
  | aside apart =>
    have draft := congrArg (fun r => r.2.draft.blocks) (apart s s.draft)
    exact congrArg (labelsWith q) draft

/-- What the shared exit returns stays ordinary. -/
lemma exits (composed : Composed p e) {s : Progress}
    (ordinary : ∀ x ∈ s.exits, x.1.all Value.isOrdinary = true) :
    ∀ x ∈ (e.next s).exits, x.1.all Value.isOrdinary = true := by
  induction composed generalizing s with
  | bind _ _ ih ih' => exact ih' _ (ih ordinary)
  | aside _ recorded => exact fun x mem => (recorded s x mem).elim (ordinary x) id
  | _ => exact ordinary

end Effects

end Emit.Composed

/-- Code whose lines are all ordinary. -/
abbrev Emit.Ordinary (e : Emit α) : Prop := e.Composed Line.isOrdinary

/-- Code whose lines are all ordinary and whose result is. -/
structure Emit.Gives (e : Emit Value) : Prop where
  ordinary : e.Ordinary
  value : ∀ s, (e.result s).isOrdinary = true

namespace Emit.Gives

/-- A value that is at hand is ordinary if it is. -/
lemma pure {v : Value} (holds : v.isOrdinary = true) : Gives (Pure.pure v) :=
  ⟨.pure v, fun _ => holds⟩

/-- Ordinary code may be put in front of code for an ordinary value. -/
lemma bind {e : Emit α} {f : α → Emit Value} (composed : e.Ordinary)
    (gives : ∀ s, Gives (f (e.result s))) : Gives (e >>= f) :=
  ⟨.bind composed fun s => (gives s).ordinary, fun s => (gives s).value _⟩

/-- Code that uses what other code gives. -/
lemma andThen {e : Emit Value} {f : Value → Emit Value} (gives : e.Gives)
    (next : ∀ v, v.isOrdinary = true → Gives (f v)) : Gives (e >>= f) :=
  bind gives.ordinary fun s => next _ (gives.value s)

/-- A temporary is ordinary if the operands of its instruction are. -/
lemma define {i : Instr} (holds : i.operands.all Value.isOrdinary = true) : Gives (Emit.define i) :=
  ⟨.define fun _ => by
    simp only [Line.isOrdinary, Line.values, List.all_cons, holds]
    rfl,
    fun _ => rfl⟩

/-- A value that is folded is ordinary if each step gives an ordinary one. -/
lemma foldlM {g : Value → β → Emit Value} {xs : List β} {v : Value} (holds : v.isOrdinary = true)
    (step : ∀ v x, v.isOrdinary = true → Gives (g v x)) : Gives (xs.foldlM g v) := by
  induction xs generalizing v with
  | nil => exact pure holds
  | cons x xs ih =>
    rw [List.foldlM_cons]
    exact bind (step v x holds).ordinary fun s => ih ((step v x holds).value s)

end Emit.Gives

namespace Emit.Ordinary

/-- An instruction without result is ordinary if its operands are. -/
lemma run {i : Instr} (holds : i.operands.all Value.isOrdinary = true) : Ordinary (Emit.run i) :=
  .line (by simp [Line.isOrdinary, Line.isComment, Line.values, holds])

/-- An assignment is ordinary if its register and its operands are. -/
lemma assign {receiver : Local} {i : Instr} (own : (Value.register receiver).isOrdinary = true)
    (holds : i.operands.all Value.isOrdinary = true) : Ordinary (Emit.assign receiver i) :=
  .line (by simp [Line.isOrdinary, Line.isComment, Line.values, own, holds])

/-- An assignment to a variable is ordinary if its operands are. -/
lemma assignVar (receiver : Var) {i : Instr} (holds : i.operands.all Value.isOrdinary = true) :
    Ordinary (Emit.assignVar receiver i) := assign rfl holds

/-- A copy is ordinary if its value is. -/
lemma copyTo (receiver : Var) (type : IrType) {v : Value} (holds : v.isOrdinary = true) :
    Ordinary (Emit.copyTo receiver type v) :=
  assignVar receiver (by simp [Instr.copy, Instr.operands, holds])

/-- A terminator is ordinary if its operands are. -/
lemma goTo {t : Term Label} (holds : t.operands.all Value.isOrdinary = true) :
    Ordinary (Emit.leave t) :=
  .leave (by simp [Line.isOrdinary, Line.isComment, Line.values, holds])

/-- A store is ordinary if what is stored and its address are. -/
lemma store {o : Target.Operand} {address : Value} (stored : o.value.isOrdinary = true)
    (holds : address.isOrdinary = true) : Ordinary (Emit.run (.store o address)) :=
  run (by simp [Instr.operands, stored, holds])

/-- Code that uses what other code gives. -/
lemma andThen {e : Emit Value} {f : Value → Emit α} (gives : e.Gives)
    (next : ∀ v, v.isOrdinary = true → Ordinary (f v)) : Ordinary (e >>= f) :=
  .bind gives.ordinary fun s => next _ (gives.value s)

end Emit.Ordinary

variable {c : Context}

section Arithmetic

/-- The distance of a shift is ordinary. -/
lemma shiftDistance_gives (distance : Var) (type : IrType) :
    (shiftDistance distance type).Gives := by
  dsimp only [shiftDistance]
  split
  · exact .andThen (.define rfl) fun widened holds => .define (by simp [Instr.operands, holds])
  · exact .define rfl

/-- A comparison is ordinary. -/
lemma comparison_ordinary (receiver first second : Var) (operand : Numeric) :
    Except.Ensures Emit.Ordinary (comparison c receiver first second operand) :=
  .bind fun _ _ => .bind fun _ _ => .bind fun _ _ => .pure (.assignVar _ rfl)

/-- Arithmetic is ordinary. -/
lemma arithmetic_ordinary (operator : BinaryOperator) (receiver first second : Var)
    (operand : Numeric) :
    Except.Ensures Emit.Ordinary (arithmetic c operator receiver first second operand) := by
  intro code given
  obtain ⟨op, _, _, _, _, rfl⟩ := arithmetic_spec code given
  rw [operationCode]
  split
  · exact .andThen (shiftDistance_gives second _) fun rhs holds =>
      .assignVar _ (by simp [Instr.operands, holds])
  · exact .assignVar _ rfl

/-- A binary operation is ordinary. -/
lemma binary_ordinary (operator : BinaryOperator) (receiver first second : Var)
    (operand : Numeric) :
    Except.Ensures Emit.Ordinary (binary c operator receiver first second operand) := by
  rw [binary]
  split
  · exact comparison_ordinary _ _ _ _
  · exact arithmetic_ordinary _ _ _ _ _

/-- A negation is ordinary. -/
lemma negation_ordinary (receiver operand : Var) (type : Numeric) :
    Except.Ensures Emit.Ordinary (negation c receiver operand type) := by
  refine .bind fun _ _ => .bind fun _ _ => .pure (.assignVar _ ?_)
  split <;> rfl

/-- A numeric cast is ordinary. -/
lemma numericCast_ordinary (receiver value : Var) (source target : Numeric) :
    Except.Ensures Emit.Ordinary (numericCast c receiver value source target) := by
  refine .bind fun _ _ => .bind fun _ _ => .pure ?_
  split
  · exact .copyTo _ _ rfl
  · exact .assignVar _ rfl

/-- A cast of integers is ordinary. -/
lemma integerCast_ordinary (receiver value : Var) (subword : Subword) :
    Except.Ensures Emit.Ordinary (integerCast c receiver value subword) :=
  .bind fun _ _ => .bind fun _ _ => .pure <|
    .andThen (.define rfl) fun narrow holds => .assignVar _ (by simp [Instr.operands, holds])

end Arithmetic

section Access

/-- A load into a variable is ordinary if its address is. -/
lemma loadInto_ordinary (receiver : Var) (storage register : IrType) (extension : CastOp)
    {address : Value} (holds : address.isOrdinary = true) :
    Emit.Ordinary (loadInto receiver storage register extension address) := by
  have loads : (Instr.load storage address).operands.all Value.isOrdinary = true := by
    simp [Instr.operands, holds]
  rw [loadInto]
  split
  · exact .assignVar _ loads
  · exact .andThen (.define loads) fun loaded holds' =>
      .assignVar _ (by simp [Instr.operands, holds'])

/-- A store of a variable is ordinary if its address is. -/
lemma storeFrom_ordinary (value : Var) (storage register : IrType) {address : Value}
    (holds : address.isOrdinary = true) :
    Emit.Ordinary (storeFrom value storage register address) := by
  dsimp only [storeFrom]
  split
  · exact .run (by simp [Instr.operands, holds])
  · exact .andThen (.define rfl) fun stored holds' => .run (by simp [Instr.operands, holds, holds'])

/-- The metadata of a type is not a function of the environment. -/
lemma classSymbol_isOrdinary (type : ValueType) :
    Except.Ensures (fun s => (Value.symbol s).isOrdinary = true) (classSymbol c type) := by
  cases type with
  | object name => exact .bind fun _ _ => .pure rfl
  | array item => exact .pure rfl
  | _ => exact .error _

/-- A class constant is ordinary. -/
lemma classConstant_ordinary (receiver : Var) (type : ValueType) :
    Except.Ensures Emit.Ordinary (classConstant c receiver type) :=
  .bind fun symbol given => .bind fun _ _ => .pure
    (.copyTo _ _ (classSymbol_isOrdinary type symbol given))

/-- Making an object is ordinary. -/
lemma construct_ordinary (receiver : Var) (className : String) :
    Except.Ensures Emit.Ordinary (construct c receiver className) := by
  refine .bind fun _ _ => ?_
  split
  · exact .error _
  · exact .bind fun _ _ => .pure (.assignVar _ rfl)

/-- Making an array is ordinary. -/
lemma constructArray_ordinary (receiver : Var) (item : ValueType) (size : Var) :
    Except.Ensures Emit.Ordinary (constructArray c receiver item size) := by
  have allocate : Emit.Ordinary (.assignVar receiver
      (.call .ptr (.ofRuntime .allocArray)
        [.ptr (.symbol (.arrayMetadata item.elementKind)),
          .i32 ((IrType.element item.elementKind).scalarSize?.getD 8), ⟨.i32, .ofVar size⟩])) :=
    .assignVar _ rfl
  dsimp only [constructArray]
  split
  · exact .error _
  refine .bind fun _ _ => .bind fun _ _ => ?_
  split
  · refine .bind fun itemClass given => .pure (.bind allocate fun _ => ?_)
    have holds := classSymbol_isOrdinary item itemClass given
    exact Emit.Ordinary.andThen (.define rfl) fun slot holds' =>
      .run (by simp [Instr.operands, Operand.ptr, holds, holds'])
  · exact .pure allocate

/-- Making an array of arrays is ordinary. -/
lemma constructMultiArray_ordinary (receiver : Var) (item : ValueType) (dimensions : List Var) :
    Except.Ensures Emit.Ordinary (constructMultiArray c receiver item dimensions) := by
  rw [constructMultiArray.eq_def]
  split
  · exact constructArray_ordinary _ _ _
  · exact .error _

/-- Copying an array is ordinary. -/
lemma cloneArray_ordinary (receiver array : Var) :
    Except.Ensures Emit.Ordinary (cloneArray c receiver array) :=
  .bind fun _ _ => .bind fun _ _ => .pure (.assignVar _ rfl)

/-- The address of a static field is ordinary. -/
lemma staticField_gives (field : FieldRef) :
    Except.Ensures (fun place => place.1.Gives) (staticField c field) := by
  rw [staticField]
  split
  · exact .error _
  split
  · exact .pure (.pure rfl)
  · exact .error _

/-- The address of an instance field is ordinary. -/
lemma instanceField_gives (inst : Var) (field : FieldRef) :
    Except.Ensures (fun place => place.1.Gives) (instanceField c inst field) := by
  refine .bind fun _ _ => ?_
  split
  · exact .error _
  · exact .pure (.define rfl)

/-- The address of a field is ordinary. -/
lemma fieldPlace_gives (inst : Option Var) (field : FieldRef) (used : ValueType) :
    Except.Ensures (fun place => place.1.Gives) (fieldPlace c inst field used) := by
  dsimp only [fieldPlace]
  cases inst with
  | none =>
    refine .bind fun place given => ?_
    split
    · exact .pure (staticField_gives field place given)
    · exact .error _
  | some inst =>
    refine .bind fun place given => ?_
    split
    · exact .pure (instanceField_gives inst field place given)
    · exact .error _

/-- Reading a field is ordinary. -/
lemma getField_ordinary (receiver : Var) (inst : Option Var) (field : FieldRef)
    (type : ValueType) : Except.Ensures Emit.Ordinary (getField c receiver inst field type) :=
  .bind fun place given => .bind fun _ _ => .pure <|
    .andThen (fieldPlace_gives inst field type place given) fun _ => loadInto_ordinary _ _ _ _

/-- Writing a field is ordinary. -/
lemma putField_ordinary (inst : Option Var) (field : FieldRef) (value : Var) (type : ValueType) :
    Except.Ensures Emit.Ordinary (putField c inst field value type) :=
  .bind fun place given => .bind fun _ _ => .pure <|
    .andThen (fieldPlace_gives inst field type place given) fun _ => storeFrom_ordinary _ _ _

/-- Reading the length of an array is ordinary. -/
lemma arrayLength_ordinary (receiver array : Var) :
    Except.Ensures Emit.Ordinary (arrayLength c receiver array) :=
  .bind fun _ _ => .bind fun _ _ => .pure <|
    .andThen (.define rfl) fun length holds => .assignVar _ (by simp [Instr.operands, holds])

/-- The address of an element is ordinary. -/
lemma elementAddress_gives (array index : Var) (kind : ElementKind) :
    (elementAddress array index kind).Gives :=
  .andThen (.define rfl) fun items holds => .define (by simp [Instr.operands, holds])

/-- Reading an element is ordinary. -/
lemma getElement_ordinary (receiver array index : Var) :
    Except.Ensures Emit.Ordinary (getElement c receiver array index) :=
  .bind fun _ _ => .bind fun _ _ => .bind fun _ _ => .pure <|
    .andThen (elementAddress_gives array index _) fun _ => loadInto_ordinary _ _ _ _

/-- Writing an element is ordinary. -/
lemma putElement_ordinary (array index value : Var) :
    Except.Ensures Emit.Ordinary (putElement c array index value) :=
  .bind fun _ _ => .bind fun _ _ => .bind fun _ _ => .pure <|
    .andThen (elementAddress_gives array index _) fun _ => storeFrom_ordinary _ _ _

end Access

section Calls

/-- The method in a slot is ordinary. -/
lemma loadSlot_gives (inst : Var) (slot : Slot) : (loadSlot inst slot).Gives := by
  refine .andThen (.define rfl) fun metadata holds => ?_
  refine .andThen (e := .define _) (.define ?_) fun address holds' =>
    .define (by simp [Instr.operands, holds'])
  cases slot <;> simp [Instr.fieldOf, Instr.operands, holds]

/-- The callee of an invocation is ordinary. -/
lemma callee_gives (inst : Option Var) (method : MethodRef) (kind : InvocationKind) :
    Except.Ensures Emit.Gives (callee c inst method kind) := by
  have direct (isStatic : Bool) : Except.Ensures Emit.Gives
      (do return pure (.symbol (← directCallee c method isStatic))) := by
    refine .bind fun symbol given => .pure (.pure ?_)
    rw [directCallee] at given
    split at given
    · cases given
    split at given
    · cases given
    split at given
    · cases given
    · cases given
      rfl
  dsimp only [callee]
  split
  · split
    · exact .pure (loadSlot_gives _ _)
    · exact direct _
  · exact direct _

/-- The object and the arguments of a call are variables. -/
lemma callArguments_isOrdinary (inst : Option Var) (method : MethodRef) (arguments : List Var) :
    Except.Ensures (fun operands => (operands.map (·.value)).all Value.isOrdinary = true)
      (callArguments c inst method arguments) := by
  refine .bind fun _ _ => .bind fun operands given => .pure ?_
  rw [List.all_map, List.all_append, Bool.and_eq_true]
  refine ⟨?_, List.all_eq_true.2 fun o mem => ?_⟩
  · cases inst <;> rfl
  · obtain ⟨⟨argument, parameter⟩, _, given⟩ := Except.exists_of_mem_of_mapM_eq_ok given mem
    obtain ⟨_, _, eq⟩ := Except.exists_of_bind_eq_ok given
    rw [← Except.ok.inj eq]
    rfl

/-- An invocation is ordinary. -/
lemma invoke_ordinary (receiver inst : Option Var) (method : MethodRef) (arguments : List Var)
    (kind : InvocationKind) :
    Except.Ensures Emit.Ordinary (invoke c receiver inst method arguments kind) := by
  dsimp only [invoke]
  split
  · exact .error _
  split
  · exact .error _
  refine .bind fun operands plain => .bind fun _ _ => .bind fun target gives => .pure ?_
  have arguments := callArguments_isOrdinary inst method arguments operands plain
  refine .andThen (callee_gives inst method kind target gives) fun callee holds => ?_
  have calls : (Instr.call (.ofValue method.signature.result) callee operands).operands.all
      Value.isOrdinary = true := by
    rw [Instr.operands, List.all_cons, holds, arguments]
    rfl
  split
  · exact .assignVar _ calls
  · exact .run calls

/-- Calling an initializer is ordinary. -/
lemma callInitializer_ordinary (className : String) : (callInitializer className).Ordinary :=
  .bind (f := fun _ => Pure.pure ()) (.call rfl fun _ => rfl) fun _ => .pure ()

end Calls

section Tests

variable {test : Value → Emit Value}

/-- Copying a flag is ordinary if the flag is. -/
lemma copyFlag_ordinary (receiver : Var) {flag : Value} (holds : flag.isOrdinary = true) :
    Emit.Ordinary (copyFlag receiver flag) := .assignVar _ (by simp [Instr.operands, holds])

/-- A test that fails is ordinary. -/
lemma failTest_ordinary (receiver : Var) : Emit.Ordinary (failTest receiver) := .copyTo _ _ rfl

/-- A test against null is ordinary. -/
lemma nullTest_ordinary (receiver value : Var) : Emit.Ordinary (nullTest receiver value) :=
  .andThen (.define rfl) fun _ => copyFlag_ordinary receiver

/-- A test that may be skipped is ordinary if the test and the condition are. -/
lemma testOrSkip_gives {branch : Label → Label → Term Label} {test : Emit Value}
    (condition : ∀ done check, (branch done check).operands.all Value.isOrdinary = true)
    (gives : test.Gives) : (testOrSkip branch test).Gives := by
  refine .bind .here fun source => .bind (.split _) fun done => .bind (.split _) fun check =>
    .bind (.goTo (condition _ _)) fun _ => .bind (.continueAt _) fun _ =>
    .andThen gives fun result holds => .bind .here fun tested => .bind (.goTo rfl) fun _ =>
    .bind (.continueAt _) fun _ => .bind .fresh fun flag => .bind (.line ?_) fun _ => .pure rfl
  simp only [Line.isOrdinary, Line.values, List.map_cons, List.map_nil, List.all_cons, holds]
  rfl

/-- A test of an object is ordinary if the test of its metadata is. -/
lemma objectTest_ordinary (receiver value : Var)
    (gives : ∀ v, v.isOrdinary = true → (test v).Gives) :
    Emit.Ordinary (objectTest receiver value test) := by
  refine .andThen (.define rfl) fun isNull holds => ?_
  refine .andThen (testOrSkip_gives (fun _ _ => ?_) ?_) fun flag => copyFlag_ordinary receiver
  · simp [Term.operands, holds]
  · exact .andThen (.define rfl) gives

/-- Comparing metadata with a symbol is ordinary. -/
lemma isMetadata_gives {symbol : Symbol} {metadata : Value}
    (isData : (Value.symbol symbol).isOrdinary = true) (holds : metadata.isOrdinary = true) :
    (isMetadata symbol metadata).Gives := .define (by simp [Instr.operands, isData, holds])

/-- A test of a tag against a range is ordinary. -/
lemma tagInRange_gives {tag : Value} (holds : tag.isOrdinary = true) (r : TagRange) :
    (tagInRange tag r).Gives :=
  .andThen (.define (by simp [Instr.operands, holds])) fun above holds' =>
    .andThen (.define (by simp [Instr.operands, holds])) fun below holds'' =>
      .define (by simp [Instr.operands, holds', holds''])

/-- A test of the tag in metadata against ranges is ordinary. -/
lemma tagInRanges_gives (ranges : List TagRange) (metadata : Value)
    (holds : metadata.isOrdinary = true) : (tagInRanges ranges metadata).Gives := by
  refine .andThen (.define (by simp [Instr.fieldOf, Instr.operands, holds]))
    fun address holds' => ?_
  refine .andThen (.define (by simp [Instr.operands, holds'])) fun tag holds'' => ?_
  cases ranges with
  | nil => exact .pure rfl
  | cons r rest =>
    refine .andThen (tagInRange_gives holds'' r) fun first given => .foldlM given ?_
    intro found r given
    exact .andThen (tagInRange_gives holds'' r) fun next given' =>
      .define (by simp [Instr.operands, given, given'])

/-- A test of the kind of an array is ordinary. -/
lemma arrayTest_ordinary (receiver value : Var) (kind : ElementKind) :
    Emit.Ordinary (arrayTest receiver value kind) :=
  objectTest_ordinary receiver value fun _ => isMetadata_gives rfl

/-- A test of the element class of an array is ordinary if the test of its metadata is. -/
lemma itemClassTest_ordinary (receiver value : Var)
    (gives : ∀ v, v.isOrdinary = true → (test v).Gives) :
    Emit.Ordinary (itemClassTest receiver value test) := by
  refine objectTest_ordinary receiver value fun metadata holds => ?_
  refine .andThen (isMetadata_gives rfl holds) fun isArray holds' =>
    testOrSkip_gives (fun _ _ => by simp [Term.operands, holds']) ?_
  exact .andThen (.define rfl) fun slot holds'' =>
    .andThen (.define (by simp [Instr.operands, holds''])) gives

/-- A test against a class is ordinary. -/
lemma classTest_ordinary (receiver value : Var) (className : String) :
    Except.Ensures Emit.Ordinary (classTest c receiver value className) := by
  refine .bind fun _ _ => .bind fun _ _ => .pure ?_
  split
  · exact nullTest_ordinary _ _
  split
  · exact failTest_ordinary _
  · exact objectTest_ordinary _ _ (tagInRanges_gives _)

/-- A test against an array of references is ordinary. -/
lemma referenceArrayTest_ordinary (receiver value : Var) (item : ValueType) :
    Except.Ensures Emit.Ordinary (referenceArrayTest c receiver value item) := by
  cases item with
  | object className =>
    rw [referenceArrayTest]
    split
    · exact .pure (arrayTest_ordinary _ _ _)
    refine .bind fun _ _ => .pure ?_
    split
    · exact failTest_ordinary _
    · exact itemClassTest_ordinary _ _ (tagInRanges_gives _)
  | array inner => exact .pure (itemClassTest_ordinary _ _ fun _ => isMetadata_gives rfl)
  | _ => exact .error _

/-- A test against a type is ordinary. -/
lemma isInstance_ordinary (receiver value : Var) (type : ValueType) :
    Except.Ensures Emit.Ordinary (isInstance c receiver value type) := by
  refine .bind fun _ _ => .bind fun _ _ => ?_
  cases type with
  | object className => exact classTest_ordinary _ _ _
  | array item =>
    dsimp only
    split
    · exact referenceArrayTest_ordinary _ _ _
    refine .bind fun kind _ => ?_
    split
    · exact .pure (nullTest_ordinary _ _)
    · exact .pure (arrayTest_ordinary _ _ _)
  | _ => exact .error _

end Tests

section Instructions

/-- The code of an instruction that is no call site is ordinary. -/
lemma plainInstruction_ordinary (i : Instruction) :
    Except.Ensures Emit.Ordinary (plainInstruction c i) := by
  cases i with
  | nop | monitorEnter | monitorExit => exact .pure (.pure _)
  | classConstant => exact classConstant_ordinary _ _
  | nullConstant | intConstant | longConstant | floatConstant | doubleConstant =>
    exact .bind fun _ _ => .pure (.copyTo _ _ rfl)
  | stringConstant =>
    exact .bind fun _ _ => .pure (.bind (.literal _) fun _ => Emit.Ordinary.copyTo _ _ rfl)
  | binary => exact binary_ordinary _ _ _ _ _
  | negate => exact negation_ordinary _ _ _
  | assign | cast | nullCheck | unwrapArray =>
    exact .bind fun _ _ => .bind fun _ _ => .pure (.copyTo _ _ rfl)
  | numericCast => exact numericCast_ordinary _ _ _ _
  | integerCast => exact integerCast_ordinary _ _ _
  | getField => exact getField_ordinary _ _ _ _
  | putField => exact putField_ordinary _ _ _ _
  | arrayLength => exact arrayLength_ordinary _ _
  | getElement => exact getElement_ordinary _ _ _
  | putElement => exact putElement_ordinary _ _ _
  | isInstance => exact isInstance_ordinary _ _ _
  | invoke | invokeDynamic | construct | constructArray | constructMultiArray | cloneArray
  | initClass => exact .error _

/-- The code of an instruction that is a call site is ordinary. -/
lemma siteInstruction_ordinary (i : Instruction) :
    Except.Ensures Emit.Ordinary (siteInstruction c i) := by
  cases i with
  | invoke => exact invoke_ordinary _ _ _ _ _
  | construct => exact construct_ordinary _ _
  | constructArray => exact constructArray_ordinary _ _ _
  | constructMultiArray => exact constructMultiArray_ordinary _ _ _
  | cloneArray => exact cloneArray_ordinary _ _
  | initClass => exact .pure (callInitializer_ordinary _)
  | _ => exact .error _

end Instructions

section Sites

/-- A field of the frame's header is ordinary. -/
lemma headerField_gives (size : Nat) (index : Int) : (headerField size index).Gives := .define rfl

/-- Making a frame is ordinary. -/
lemma pushFrame_ordinary (size : Nat) : (pushFrame size).Ordinary :=
  .bind (Emit.Ordinary.assign rfl rfl) fun _ =>
  Emit.Ordinary.andThen (headerField_gives size 0) fun _ holds =>
  .bind (Emit.Ordinary.store rfl holds) fun _ => .bind (Emit.Ordinary.assign rfl rfl) fun _ =>
  Emit.Ordinary.andThen (headerField_gives size 2) fun _ holds =>
  .bind (Emit.Ordinary.store rfl holds) fun _ => Emit.Ordinary.store rfl rfl

/-- Taking the frame off the stack is ordinary. -/
lemma popFrame_ordinary (size? : Option Nat) : (popFrame size?).Ordinary := by
  rw [popFrame]
  split
  · exact .store rfl rfl
  · exact .pure _

/-- Spilling the live references is ordinary. -/
lemma spill_ordinary (size : Nat) (live : List Var) (cell : Nat) :
    (spill size live cell).Ordinary :=
  .andThen (.define rfl) fun address holds => .store (by cases live[cell]? <;> rfl) holds

/-- The beginning of a call site is ordinary. -/
lemma beginSite_ordinary (size? : Option Nat) (live : List Var) (handled : List (Option String)) :
    (beginSite size? live handled).Ordinary := by
  refine .bind (.register _) fun s => ?_
  cases size? with
  | none => exact .pure _
  | some size =>
    exact .bind (.forM fun cell _ => spill_ordinary size live cell) fun _ =>
      Emit.Ordinary.andThen (headerField_gives size 1) fun _ holds =>
      .bind (Emit.Ordinary.store rfl holds) fun _ => .pure _

/-- Finding where a call site goes with an exception is ordinary. -/
lemma exceptionTarget_ordinary (p : Place) (site : Nat) : (exceptionTarget p site).Ordinary := by
  rw [exceptionTarget]
  split
  · exact .bind .here fun _ => .bind (.aside (fun _ _ => rfl) fun _ _ => .inl) fun _ => .pure _
  · exact .bind (.aside (fun _ _ => rfl) fun _ _ => .inl) fun _ => .pure _

/-- The end of a call site is ordinary. -/
lemma endSite_ordinary (p : Place) (site : Nat) : (endSite p site).Ordinary :=
  .andThen (.define rfl) fun _ holds =>
  .andThen (.define (by simp [Instr.operands, holds])) fun _ holds' =>
  .bind (exceptionTarget_ordinary p site) fun _ => .bind (.split p.label) fun next =>
  .bind (Emit.Ordinary.goTo (by simp [Term.operands, holds'])) fun _ => .continueAt _

/-- A call site is ordinary if its code is. -/
lemma site_ordinary (p : Place) (handled : List (Option String)) (live : List Var)
    {code : Emit Unit} (ordinary : code.Ordinary) : (site c p handled live code).Ordinary :=
  .bind (beginSite_ordinary _ live handled) fun _ => .bind ordinary fun _ => endSite_ordinary p _

/-- A landing pad is ordinary. -/
lemma landingPad_ordinary (id : BlockId) (b : BasicBlock) : (landingPad id b).Ordinary := by
  refine .recorded (fun _ _ => rfl) fun s => ?_
  dsimp only
  split
  · exact .pure _
  have phi : Line.isOrdinary (.phi (.register (.landingSite id)) .i32
      (s.landings.map fun landing => (.int landing.1, .label landing.2)) : DraftLine) = true := by
    rw [Line.isOrdinary, Line.values, List.map_map, List.all_cons, List.all_map]
    exact List.all_eq_true.2 fun _ _ => rfl
  exact .bind (.insertBlock _) fun _ => .bind (.continueAt _) fun _ => .bind (.line phi) fun _ =>
    Emit.Ordinary.andThen (.define rfl) fun exception holds =>
    Emit.Ordinary.andThen (.define (by
      rw [Instr.operands, List.map_cons, List.all_cons, List.all_cons, Target.Operand.ptr, holds]
      rfl)) fun selected holds' => .bind (.aside (fun _ _ => rfl) fun _ _ => .inl) fun _ =>
    Emit.Ordinary.goTo (by simp [Term.operands, holds'])

/-- Returning a value is ordinary if the value is. -/
lemma returnValue_ordinary {value : Option Value} (holds : value.all Value.isOrdinary = true) :
    (returnValue c value).Ordinary := by
  rw [returnValue]
  split
  · refine .goTo ?_
    cases value with
    | none => rfl
    | some v => simpa [Term.operands] using holds
  · refine .bind .here fun source => .bind (.aside (fun _ _ => rfl) fun s e mem => ?_) fun _ =>
      Emit.Ordinary.goTo rfl
    rcases List.mem_append.1 mem with mem | mem
    · exact .inl mem
    · rw [List.mem_singleton.1 mem]
      exact .inr holds

/-- The shared exit, given the values that are returned. -/
def sharedExit (c : Context) (exits : List (Option Value × Label)) : Emit Unit := do
  unless exits.isEmpty do
    .appendBlock .exit
    .continueAt .exit
    if c.result = .void then
      popFrame c.frameSize?
      .leave (.ret none)
    else
      .phi (.register .result) c.result
        (exits.map fun (value, source) => (value.getD .undef, .label source))
      popFrame c.frameSize?
      .leave (.ret (some ⟨c.result, .register .result⟩))

/-- The shared exit joins the values that have been collected. -/
lemma exitBlock_eq (c : Context) : exitBlock c = get >>= fun s => sharedExit c s.exits := rfl

/-- The lines of the shared exit are ordinary up to its phi. -/
lemma sharedExit_composed {p : DraftLine → Bool} {exits : List (Option Value × Label)}
    (wider : ∀ l, l.isOrdinary = true → p l = true)
    (phi : p (.phi (.register .result) c.result
      (exits.map fun (value, source) => (value.getD .undef, .label source))) = true) :
    (sharedExit c exits).Composed p := by
  have pops : (popFrame c.frameSize?).Composed p := (popFrame_ordinary _).mono wider
  have leaves (o : Option Target.Operand) (holds : o.all (·.value.isOrdinary) = true) :
      (Emit.leave (.ret o)).Composed p := by
    refine .leave (wider _ ?_)
    cases o with
    | none => rfl
    | some o => simpa [Line.isOrdinary, Line.isComment, Line.values, Term.operands] using holds
  rw [sharedExit]
  split
  · exact .pure _
  refine .bind (.appendBlock _) fun _ => .bind (.continueAt _) fun _ => ?_
  split
  · exact .bind pops fun _ => leaves none rfl
  · exact .bind (.line phi) fun _ => .bind pops fun _ => leaves (some _) rfl

/-- The exit for exceptions is ordinary. -/
lemma unwindBlock_ordinary (c : Context) : (unwindBlock c).Ordinary := by
  refine .recorded (fun _ _ => rfl) fun s => ?_
  split
  · refine .bind (.appendBlock _) fun _ => .bind (.continueAt _) fun _ =>
      .bind (popFrame_ordinary _) fun _ => Emit.Ordinary.goTo ?_
    split
    · rfl
    · cases c.result <;> rfl
  · exact .pure _

end Sites

section Control

variable {id : BlockId} {b : BasicBlock}

/-- The values of a phi are variables. -/
lemma IsPhi.isOrdinary {p : Phi} {l : DraftLine} (isPhi : IsPhi c id p l) :
    l.isOrdinary = true := by
  obtain ⟨type, _, _, rfl⟩ := isPhi
  have edges : ((phiIncomings c id p).map Prod.fst).all Value.isOrdinary = true := by
    refine List.all_eq_true.2 fun v named => ?_
    obtain ⟨e, mem, rfl⟩ := List.mem_map.1 named
    rcases List.mem_append.1 mem with mem | mem
    · split at mem
      · rw [List.mem_singleton.1 mem]
        rfl
      · cases mem
    · obtain ⟨i, _, mem⟩ := List.mem_flatMap.1 mem
      obtain ⟨source, _, rfl⟩ := List.mem_map.1 mem
      rfl
  rw [Line.isOrdinary, Line.values, List.all_cons, edges]
  rfl

/-- A condition on one operand is ordinary. -/
lemma branchTest_gives (condition : BranchCondition) (operand : Var) :
    Except.Ensures Emit.Gives (branchTest c condition operand) := by
  refine .bind fun type _ => ?_
  have test : Emit.Gives
      (.define (.icmp condition.predicate type (.ofVar operand) (.zeroOf type))) :=
    .define (by cases type <;> rfl)
  dsimp only
  split
  · exact .error _
  split
  · exact .error _
  split
  · exact .error _
  · exact .pure test

/-- A condition on two operands is ordinary. -/
lemma binaryBranchTest_gives (condition : BinaryBranchCondition) (first second : Var) :
    Except.Ensures Emit.Gives (binaryBranchTest c condition first second) := by
  refine .bind fun type _ => .bind fun _ _ => ?_
  have test : Emit.Gives
      (.define (.icmp condition.predicate type (.ofVar first) (.ofVar second))) := .define rfl
  dsimp only
  split
  · split
    · exact .pure test
    · exact .error _
  · split
    · exact .pure test
    · exact .error _

/-- An exit is ordinary. -/
lemma exit_ordinary (value : Option Var) : Except.Ensures Emit.Ordinary (exit c value) := by
  cases value with
  | none =>
    dsimp only [exit]
    split
    · exact .pure (returnValue_ordinary rfl)
    · exact .error _
  | some v =>
    dsimp only [exit]
    split
    · exact .error _
    · exact .bind fun _ _ => .pure (returnValue_ordinary rfl)

/-- Raising an exception is ordinary. -/
lemma raise_ordinary (exception : Var) : Except.Ensures Emit.Ordinary (raise c id b exception) :=
  .bind fun _ _ => .bind fun handled _ => .pure <|
    .bind (.call rfl fun _ => rfl) fun _ => .bind (beginSite_ordinary _ [] handled) fun _ =>
    .bind (exceptionTarget_ordinary _ _) fun _ => Emit.Ordinary.goTo rfl

/-- A terminator is ordinary. -/
lemma terminator_ordinary : Except.Ensures Emit.Ordinary (terminator c id b) := by
  rw [terminator]
  split
  · exact .pure (.goTo rfl)
  · exact .bind fun test given => .pure <|
      .andThen (branchTest_gives _ _ test given) fun _ holds =>
        .goTo (by simp [Term.operands, holds])
  · exact .bind fun test given => .pure <|
      .andThen (binaryBranchTest_gives _ _ _ test given) fun _ holds =>
        .goTo (by simp [Term.operands, holds])
  · exact .bind fun _ _ => .pure (.goTo rfl)
  · exact exit_ordinary _
  · exact raise_ordinary _
  · exact .pure (.goTo rfl)

/-- An instruction is ordinary. -/
lemma instruction_ordinary (i : Instruction) (position : Nat) :
    Except.Ensures Emit.Ordinary (instruction c id b i position) := by
  dsimp only [instruction]
  split
  · exact plainInstruction_ordinary i
  split
  · exact .pure (.pure _)
  · exact .bind fun handled _ => .bind fun code lowered => .pure <|
      site_ordinary _ _ _ (siteInstruction_ordinary i code lowered)

/-- The code of the instructions of a block is ordinary but for comments. -/
lemma instructionCodes_composed {p : DraftLine → Bool}
    (wider : ∀ l, l.isOrdinary = true → p l = true)
    (described : ∀ i : Instruction, p (.comment i.description) = true) :
    Except.Ensures (fun codes => ∀ code ∈ codes, code.Composed p) (instructionCodes c id b) := by
  intro codes given code mem
  obtain ⟨⟨i, position⟩, _, given⟩ := Except.exists_of_mem_of_mapM_eq_ok given mem
  obtain ⟨code, lowered, given⟩ := Except.exists_of_bind_eq_ok given
  cases given
  refine .bind ?_ fun _ => (instruction_ordinary i position code lowered).mono wider
  rw [comment]
  split
  · exact .line (described i)
  · exact .pure _

/-- The start of a method is ordinary. -/
lemma start_ordinary (c : Context) : (start c).Ordinary := by
  have frame : (c.frameSize?.forM pushFrame).Ordinary := by
    cases c.frameSize? with
    | none => exact .pure _
    | some size => exact pushFrame_ordinary size
  refine .bind frame fun _ => ?_
  dsimp only
  split
  · exact .bind (site_ordinary _ _ _ (callInitializer_ordinary _)) fun _ => Emit.Ordinary.goTo rfl
  · exact Emit.Ordinary.goTo rfl

end Control

end Lowering

end ObjectBackend
