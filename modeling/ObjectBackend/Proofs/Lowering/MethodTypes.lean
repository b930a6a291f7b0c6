import ObjectBackend.Proofs.Lowering.Bodies
import ObjectBackend.Proofs.Lowering.InstructionTypes

/-!
# Types in the code of methods

The function of a method is well typed (`function_wellTyped`). The frame is there wherever it is
used since it is made before anything else, and what is stored in its cells are references.
-/

namespace ObjectBackend.Lowering

open Target

variable {c : Context} {Δ Δ' : List (Local × IrType)}

/-- The frame of the method, if it has one, and that of its caller are there. -/
def Framed (c : Context) (Δ : List (Local × IrType)) : Prop :=
  c.frameSize?.isSome = true → (Value.register .frame).HasType (c.Assigns Δ) .ptr ∧
    (Value.register .callerFrame).HasType (c.Assigns Δ) .ptr

/-- The registers of frames are defined with more registers too. -/
lemma Framed.mono (framed : Framed c Δ) (more : Δ ⊆ Δ') : Framed c Δ' := fun some =>
  (framed some).imp (·.mono (Context.Assigns.mono more)) (·.mono (Context.Assigns.mono more))

/-- Code that is well typed behind the start of a method. -/
abbrev FramedTyped (c : Context) (e : Emit Unit) : Prop := ∀ Δ, Framed c Δ → e.Typed c Δ

section Sites

variable {p : Place} {handled : List (Option String)} {live : List Var} {code : Emit Unit}

/-- A field of the header of a frame is an address. -/
lemma headerField_typed (frame : (Value.register .frame).HasType (c.Assigns Δ) .ptr) (size : Nat)
    (index : Int) : (headerField size index).Yields c Δ .ptr := .define rfl (.fieldOf frame)

/-- Making a frame defines the registers of the frame and of the caller's frame. -/
lemma pushFrame_typed (size : Nat) :
    (pushFrame size).Types c Δ fun Δ' _ => (Value.register .frame).HasType (c.Assigns Δ') .ptr ∧
      (Value.register .callerFrame).HasType (c.Assigns Δ') .ptr := by
  have scalar : (IrType.ptr).IsScalar := rfl
  refine (Emit.Types.assign .ptr rfl rfl .alloca).bind fun _ Δ₁ _ frame => ?_
  refine (headerField_typed frame size 0).bind fun count Δ₂ more₂ typed => ?_
  refine (Emit.Types.store .i32 rfl (.int rfl) typed).andThen ?_
  refine (Emit.Types.assign .ptr rfl rfl (.load scalar .symbol)).bind
    fun _ Δ₃ more₃ caller => ?_
  have frame := frame.mono (Context.Assigns.mono (List.Subset.trans more₂ more₃))
  refine (headerField_typed frame size 2).bind fun link Δ₄ more₄ typed' => ?_
  have frame := frame.mono (Context.Assigns.mono more₄)
  have caller := caller.mono (Context.Assigns.mono more₄)
  refine (Emit.Types.store .ptr rfl caller typed').andThen ?_
  exact (Emit.Types.store .ptr rfl frame .symbol).keep.imp fun Δ₅ _ ⟨more₅, _⟩ =>
    ⟨frame.mono (Context.Assigns.mono more₅), caller.mono (Context.Assigns.mono more₅)⟩

/-- Taking the frame off the stack is well typed. -/
lemma popFrame_typed (framed : Framed c Δ) : (popFrame c.frameSize?).Typed c Δ := by
  rw [popFrame]
  split
  case isTrue some => exact .store .ptr rfl (framed some).2 .symbol
  case isFalse => exact .pure fun _ _ => trivial

/-- Spilling the live references is well typed. -/
lemma spill_typed (frame : (Value.register .frame).HasType (c.Assigns Δ) .ptr) (size : Nat)
    (references : ∀ v ∈ live, c.typeOf v = .ok .ptr) (cell : Nat) :
    (spill size live cell).Typed c Δ := by
  refine (Emit.Types.define rfl (.fieldOf frame)).bind fun address Δ' _ typed =>
    .store .ptr rfl ?_ typed
  cases found : live[cell]? with
  | none => exact .null
  | some v => exact .ofVar (references v (List.mem_of_getElem? found))

/-- The beginning of a call site is well typed. -/
lemma beginSite_typed (framed : Framed c Δ) (references : ∀ v ∈ live, c.typeOf v = .ok .ptr) :
    (beginSite c.frameSize? live handled).Types c Δ fun _ _ => True := by
  refine (Emit.Types.register _).bind fun site Δ₁ more _ => ?_
  cases given : c.frameSize? with
  | none => exact .pure fun _ _ => trivial
  | some size =>
    have frame := (framed.mono more (Option.isSome_of_eq_some given)).1
    refine (Emit.Types.forM fun cell _ => spill_typed frame size references cell).andThen ?_
    refine (headerField_typed frame size 1).bind fun number Δ₂ _ typed => ?_
    exact (Emit.Types.store .i32 rfl (.int rfl) typed).andThen (.pure fun _ _ => trivial)

/-- Finding where a call site goes with an exception is well typed. -/
lemma exceptionTarget_typed (p : Place) (site : Nat) :
    (exceptionTarget p site).Types c Δ fun _ _ => True := by
  rw [exceptionTarget]
  split
  · exact Emit.Types.here.bind fun _ _ _ _ =>
      .andThen (.record (fun _ => rfl) fun _ typed _ => typed.exits) (.pure fun _ _ => trivial)
  · exact .andThen (.record (fun _ => rfl) fun _ typed _ => typed.exits) (.pure fun _ _ => trivial)

/-- The end of a call site is well typed. -/
lemma endSite_typed (p : Place) (site : Nat) : (endSite p site).Typed c Δ := by
  have compares : Predicate.ne.Supports .ptr := .inr rfl
  refine (Emit.Types.load .ptr rfl .symbol).bind fun pending Δ₁ _ typed => ?_
  refine (Emit.Types.define rfl (.icmp compares typed .null)).bind fun thrown Δ₂ _ typed' => ?_
  refine (exceptionTarget_typed p site).bind fun target Δ₃ more₃ _ => ?_
  refine (Emit.Types.split p.label).bind fun next Δ₄ more₄ _ => ?_
  have typed' := typed'.mono (Context.Assigns.mono (List.Subset.trans more₃ more₄))
  exact (Emit.Types.leave (.condBr typed')).andThen (.continueAt next)

/-- A call site is well typed if its code is. -/
lemma site_typed (framed : Framed c Δ) (references : ∀ v ∈ live, c.typeOf v = .ok .ptr)
    (typed : AlwaysTyped c code) : (site c p handled live code).Typed c Δ :=
  (beginSite_typed framed references).bind fun site Δ₁ _ _ =>
    (typed Δ₁).andThen (endSite_typed p site)

/-- A landing pad is well typed. -/
lemma landingPad_typed (id : BlockId) (b : BasicBlock) : (landingPad id b).Typed c Δ := by
  refine Emit.Types.get.bind fun s Δ₁ _ _ => ?_
  dsimp only
  split
  · exact .pure fun _ _ => trivial
  refine (Emit.Types.insertBlock (.landing id)).andThen ?_
  refine (Emit.Types.continueAt (.landing id)).andThen ?_
  have sites : ∀ e ∈ s.landings.map fun landing =>
      ((Value.int landing.1, Source.label landing.2) : Value × Source Label),
      e.1.HasType (c.Assigns Δ₁) .i32 := List.forall_mem_map.2 fun _ _ => .int rfl
  refine (Emit.Types.phi (r := .landingSite id) rfl sites).bind fun _ Δ₂ _ site => ?_
  refine (Emit.Types.load .ptr rfl .symbol).bind fun exception Δ₃ more₃ typed => ?_
  have select : (Instr.call .i32 (.ofRuntime .selectHandler)
      [.ptr exception, ⟨.i32, .register (.landingSite id)⟩]).WellTyped (c.Assigns Δ₃) :=
    .call .symbol (List.forall_mem_cons.2
      ⟨typed, List.forall_mem_singleton.2 (site.mono (Context.Assigns.mono more₃))⟩)
  refine (Emit.Types.define rfl select).bind fun selected Δ₄ _ typed' => ?_
  exact .andThen (.record (fun _ => rfl) fun _ typed _ => typed.exits) (.leave (.switch rfl typed'))

/-- What is returned is of the type of the result, and nothing is returned only if there is none. -/
def IsReturned (c : Context) (Δ : List (Local × IrType)) : Option Value → Prop
  | none => c.result = .void
  | some v => c.result ≠ .void ∧ v.HasType (c.Assigns Δ) c.result

/-- Returning a value is well typed if the value is of the type of the result. -/
lemma returnValue_typed {value : Option Value} (returned : IsReturned c Δ value) :
    (returnValue c value).Typed c Δ := by
  rw [returnValue]
  split
  · cases value with
    | none => exact .leave (.retVoid returned)
    | some v => exact .leave (.ret returned.1 returned.2)
  · refine Emit.Types.here.bind fun source Δ₁ more _ => ?_
    refine Emit.Types.andThen (.record (fun _ => rfl) fun s typed sub => ?_) (.leave .br)
    refine List.forall_mem_append.2 ⟨typed.exits, List.forall_mem_singleton.2 ?_⟩
    rintro v rfl
    exact returned.2.mono (Context.Assigns.mono (List.Subset.trans more sub))

/-- The shared exit is well typed. -/
lemma exitBlock_typed (framed : Framed c Δ) : (exitBlock c).Typed c Δ := by
  refine Emit.Types.get.bind fun s Δ₁ more exits => ?_
  have framed := framed.mono more
  dsimp only
  split
  · exact .pure fun _ _ => trivial
  refine (Emit.Types.appendBlock .exit).andThen ((Emit.Types.continueAt .exit).andThen ?_)
  split
  case isTrue void => exact (popFrame_typed framed).andThen (.leave (.retVoid void))
  case isFalse proper =>
    have values : ∀ e ∈ s.exits.map fun exit =>
        ((exit.1.getD .undef, Source.label exit.2) : Value × Source Label),
        e.1.HasType (c.Assigns Δ₁) c.result := by
      refine List.forall_mem_map.2 fun exit mem => ?_
      obtain ⟨value, source⟩ := exit
      cases value with
      | none => exact .undef
      | some v => exact exits _ mem v rfl
    refine (Emit.Types.phi (r := .result) rfl values).bind fun _ Δ₂ more₂ result => ?_
    exact (popFrame_typed (framed.mono more₂)).andThen (.leave (.ret proper result))

/-- The exit for exceptions is well typed. -/
lemma unwindBlock_typed (framed : Framed c Δ) : (unwindBlock c).Typed c Δ := by
  refine Emit.Types.get.bind fun s Δ₁ more _ => ?_
  split
  · refine (Emit.Types.appendBlock .unwind).andThen ((Emit.Types.continueAt .unwind).andThen ?_)
    refine (popFrame_typed (framed.mono more)).andThen (.leave ?_)
    split
    case isTrue void => exact .retVoid void
    case isFalse proper => exact .ret proper (.zeroOf c.result)
  · exact .pure fun _ _ => trivial

end Sites

section Control

variable {id : BlockId} {b : BasicBlock}

/-- A phi is well typed. -/
lemma phi_typed (id : BlockId) (p : Phi) : Except.Ensures (AlwaysTyped c) (phi c id p) := by
  refine .bind fun type known => .bind fun edges given => .pure fun Δ => ?_
  refine (Emit.Types.phi (r := .var p.receiver) (congrArg Except.toOption known) ?_).imp
    fun _ _ _ => trivial
  refine List.forall_mem_append.2 ⟨fun e mem => ?_, fun e mem => ?_⟩
  · -- the edge from outside
    split at mem
    · rw [List.mem_singleton.1 mem]
      exact .undef
    · cases mem
  · obtain ⟨es, memes, mem⟩ := List.mem_flatten.1 mem
    obtain ⟨i, _, given⟩ := Except.exists_of_mem_of_mapM_eq_ok given memes
    obtain ⟨_, checked, given⟩ := Except.exists_of_bind_eq_ok given
    split at given
    · cases given
    · cases given
      obtain ⟨source, _, rfl⟩ := List.mem_map.1 mem
      exact .ofVar (expect_spec _ checked)

/-- A condition on one operand yields a flag. -/
lemma branchTest_typed (condition : BranchCondition) (operand : Var) :
    Except.Ensures (fun code => ∀ Δ, code.Yields c Δ .i1) (branchTest c condition operand) := by
  refine .bind fun type known => ?_
  dsimp only
  split
  · exact .error _
  split
  · exact .error _
  case isFalse compared =>
  split
  · exact .error _
  case isFalse ordered =>
  have supports : condition.predicate.Supports type := by
    simp only [Bool.and_eq_true, decide_eq_true_eq, Bool.not_eq_true', not_and,
      Bool.not_eq_false] at compared ordered
    cases condition with
    | equal | notEqual | null | notNull => exact (em (type = .ptr)).symm.imp_left compared
    | less | lessOrEqual | greater | greaterOrEqual => exact compared (ordered rfl)
  exact .pure fun _ =>
    .define rfl (.icmp supports (.ofVar known) (.zeroOf _))

/-- A condition on two operands yields a flag. -/
lemma binaryBranchTest_typed (condition : BinaryBranchCondition) (first second : Var) :
    Except.Ensures (fun code => ∀ Δ, code.Yields c Δ .i1)
      (binaryBranchTest c condition first second) := by
  refine .bind fun type known => .bind fun _ checked => ?_
  have test (compared : type.isInteger = true ∨ type = .ptr) :
      ∀ Δ, (Emit.define (.icmp condition.predicate type (.ofVar first) (.ofVar second))).Yields c Δ
        .i1 := by
    have supports : condition.predicate.Supports type := by
      cases condition <;> exact compared
    exact fun _ => .define rfl (.icmp supports (.ofVar known) (.ofVar (expect_spec _ checked)))
  dsimp only
  split
  · split
    case isTrue reference => exact .pure (test (.inr reference))
    case isFalse => exact .error _
  · split
    case isTrue integer => exact .pure (test (.inl integer))
    case isFalse => exact .error _

/-- An exit is well typed. -/
lemma exit_typed (value : Option Var) : Except.Ensures (AlwaysTyped c) (exit c value) := by
  cases value with
  | none =>
    dsimp only [exit]
    split
    case isTrue void => exact .pure fun _ => returnValue_typed void
    case isFalse => exact .error _
  | some v =>
    dsimp only [exit]
    split
    case isTrue => exact .error _
    case isFalse proper =>
      exact .bind fun _ checked => .pure fun _ =>
        returnValue_typed ⟨proper, .ofVar (expect_spec _ checked)⟩

/-- Raising an exception is well typed in a frame. -/
lemma raise_typed (exception : Var) : Except.Ensures (FramedTyped c) (raise c id b exception) := by
  refine .bind fun _ checked => .bind fun handled _ => .pure fun Δ framed => ?_
  have thrown := List.forall_mem_singleton.2
    (Target.Operand.WellTyped.ofVar (Δ := Δ) (expectReference_spec _ checked))
  refine (Emit.Types.call .void thrown).bind fun _ Δ₁ more _ => ?_
  refine (beginSite_typed (framed.mono more) (List.forall_mem_nil _)).bind fun site Δ₂ _ _ => ?_
  exact (exceptionTarget_typed _ site).bind fun _ _ _ _ => .leave .br

/-- A terminator is well typed in a frame. -/
lemma terminator_typed : Except.Ensures (FramedTyped c) (terminator c id b) := by
  have always {code : Except BackendError (Emit Unit)}
      (typed : Except.Ensures (AlwaysTyped c) code) :
      Except.Ensures (FramedTyped c) code := fun e given Δ _ => typed e given Δ
  rw [terminator]
  split
  · exact .pure fun _ _ => .leave .br
  · exact .bind fun test given => .pure fun Δ _ =>
      (branchTest_typed _ _ test given Δ).bind fun _ _ _ typed => .leave (.condBr typed)
  · exact .bind fun test given => .pure fun Δ _ =>
      (binaryBranchTest_typed _ _ _ test given Δ).bind fun _ _ _ typed => .leave (.condBr typed)
  · exact .bind fun _ checked => .pure fun _ _ =>
      .leave (.switch rfl (.ofVar (expect_spec _ checked)))
  · exact always (exit_typed _)
  · exact raise_typed _
  · exact .pure fun _ _ => .leave .unreachable

end Control

section Bodies

variable {id : BlockId} {b : BasicBlock}

/-- The variables that are stored at call sites are references. -/
def KeepsReferences (c : Context) : Prop :=
  ∀ site ∈ c.liveness.sites, ∀ v ∈ site.live, c.typeOf v = .ok .ptr

/-- An instruction is well typed in a frame. -/
lemma instruction_typed (references : KeepsReferences c) (i : Instruction) (position : Nat) :
    Except.Ensures (FramedTyped c) (instruction c id b i position) := by
  dsimp only [instruction]
  split
  · exact fun code given Δ _ => plainInstruction_typed i code given Δ
  split
  · exact .pure fun _ _ => .pure fun _ _ => trivial
  refine .bind fun handled _ => .bind fun code given => .pure fun Δ framed => ?_
  refine site_typed framed (fun v mem => ?_) (siteInstruction_typed i code given)
  cases found : c.liveness.siteAt? id position with
  | none =>
    rw [found] at mem
    cases mem
  | some site =>
    rw [found] at mem
    exact references site (List.mem_of_find?_eq_some found) v mem

/-- A comment is well typed. -/
lemma comment_typed (i : Instruction) : AlwaysTyped c (comment c i) := by
  intro Δ
  rw [comment]
  split
  · exact .comment _
  · exact .pure fun _ _ => trivial

/-- Receiving the exception is well typed. -/
lemma receiveException_typed : Except.Ensures (AlwaysTyped c) (receiveException c id b) := by
  dsimp only [receiveException]
  split
  · exact .pure fun _ => .pure fun _ _ => trivial
  refine .bind fun _ checked => .pure fun Δ => ?_
  refine (Emit.Types.call .ptr (List.forall_mem_nil _)).bind
    fun exception Δ₁ _ typed => ?_
  split
  case h_1 v exception isVariable =>
    rw [isVariable] at checked
    exact .copyTo (expect_spec _ checked) (typed _ rfl)
  case h_2 => exact .pure fun _ _ => trivial

/-- A block is well typed in a frame. -/
lemma block_typed (references : KeepsReferences c) :
    Except.Ensures (FramedTyped c) (block c id b) := by
  refine .bind fun phis phisGiven => .bind fun received receivedGiven =>
    .bind fun instructions instructionsGiven => .bind fun last lastGiven => .pure fun Δ framed => ?_
  have phis' : ∀ code ∈ phis, code.Typed c Δ := fun code mem => by
    obtain ⟨p, _, given⟩ := Except.exists_of_mem_of_mapM_eq_ok phisGiven mem
    exact phi_typed id p code given Δ
  have instructions' : ∀ code ∈ instructions, code.Typed c Δ := fun code mem => by
    obtain ⟨⟨i, position⟩, _, given⟩ := Except.exists_of_mem_of_mapM_eq_ok instructionsGiven mem
    obtain ⟨code', given, eq⟩ := Except.exists_of_bind_eq_ok given
    rw [← Except.ok.inj eq]
    exact (comment_typed i Δ).andThen (instruction_typed references i position code' given Δ framed)
  exact (Emit.Types.continueAt _).andThen <|
    (Emit.Types.forM phis').andThen <|
    (receiveException_typed received receivedGiven Δ).andThen <|
    (Emit.Types.forM instructions').andThen <|
    (terminator_typed last lastGiven Δ framed).andThen <|
    (Emit.Types.finishBlock id).andThen (landingPad_typed id b)

/-- The variable of a kind of references is held in a register for a pointer. -/
lemma typeOf_of_isReference {v : Var} (reference : (c.body.kindOf v).any Kind.isReference = true) :
    c.typeOf v = .ok .ptr := by
  rw [Context.typeOf, Context.kindOf]
  cases kind : c.body.kindOf v with
  | none =>
    rw [kind] at reference
    cases reference
  | some kind' =>
    rw [kind] at reference
    exact congrArg Except.ok (IrType.ofKind_of_isReference reference)

/-- The start of a method defines the registers of its frame. -/
lemma start_typed (c : Context) : (start c).Types c Δ fun Δ' _ => Framed c Δ' := by
  rw [start_eq]
  refine .bind (P := fun Δ' _ => Framed c Δ') ?_ fun _ Δ₁ _ framed => ?_
  · cases given : c.frameSize? with
    | none =>
      refine .pure fun _ _ some => ?_
      rw [given] at some
      cases some
    | some size => exact (pushFrame_typed size).imp fun _ _ there _ => there
  refine Emit.Types.imp (P := fun Δ' _ => Δ₁ ⊆ Δ' ∧ True) (.keep (.andThen ?_ (.leave .br)))
    fun _ _ there => framed.mono there.1
  rw [initializeOwner]
  split
  · refine site_typed framed (fun v mem => ?_) (callInitializer_typed _)
    exact typeOf_of_isReference (List.mem_filter.1 mem).2
  · exact .pure fun _ _ => trivial

/-- A body is well typed. -/
lemma body_typed (references : KeepsReferences c) :
    Except.Ensures (AlwaysTyped c) (body c) := by
  dsimp only [body]
  split
  · exact .error _
  refine .bind fun blocks given => .pure fun Δ => ?_
  refine (start_typed c).bind fun _ Δ₁ _ framed => ?_
  have blocks' : ∀ code ∈ blocks, code.Typed c Δ₁ := fun code mem => by
    obtain ⟨⟨id, b⟩, _, given⟩ := Except.exists_of_mem_of_mapM_eq_ok given mem
    exact block_typed references code given Δ₁ framed
  exact (Emit.Types.forM fun _ _ => .appendBlock _).andThen <|
    (Emit.Types.forM blocks').andThen <|
    (exitBlock_typed framed).andThen (unwindBlock_typed framed)

end Bodies

section Variables

variable {body : Body}

/-- A variable is found under its number if there are not more variables than numbers. -/
lemma kindOf_ofIndex (bound : body.kinds.length ≤ UInt32.size) {i : Nat} {kind : Kind}
    (found : body.kinds[i]? = some kind) : body.kindOf (.ofIndex i) = some kind := by
  obtain ⟨lt, _⟩ := List.getElem?_eq_some_iff.1 found
  have index : (Var.ofIndex i).index = i := UInt32.toNat_ofNat_of_lt (Nat.lt_of_lt_of_le lt bound)
  rw [Body.kindOf, index, found]

/-- What is kept as a reference is declared as one. -/
lemma any_kindOf_of_mem_references (bound : body.kinds.length ≤ UInt32.size) {s : BitSet} {v : Var}
    (mem : v ∈ Liveness.references body s) : (body.kindOf v).any Kind.isReference = true := by
  obtain ⟨i, memi, rfl⟩ := List.mem_map.1 mem
  have reference := (List.mem_filter.1 memi).2
  cases found : body.kinds[i]? with
  | none =>
    rw [found] at reference
    cases reference
  | some kind =>
    rw [kindOf_ofIndex bound found]
    rwa [found] at reference

/-- What is live at a call site are the references among the live variables. -/
lemma exists_live_eq_references {id : BlockId} {atEnd : BitSet} {is : List (Instruction × Nat)}
    {site : LiveSite} (mem : site ∈ (Liveness.collect body id atEnd is).2) :
    ∃ s, site.live = Liveness.references body s := by
  induction is with
  | nil => cases mem
  | cons i is ih =>
    rcases List.mem_append.1 mem with mem | mem
    · split at mem
      · rw [List.mem_singleton.1 mem]
        exact ⟨_, rfl⟩
      · cases mem
    · exact ih mem

/-- Only references are live at the call sites of a body. -/
lemma keepsReferences_ofBody (bound : body.kinds.length ≤ UInt32.size) (b : Backend)
    (owner : ClassDef) (m : MethodDef) : KeepsReferences (.ofBody b owner m body) := by
  intro site mem v memv
  obtain ⟨⟨⟨id, block⟩, out⟩, _, mem⟩ := List.mem_flatMap.1 mem
  obtain ⟨s, live⟩ := exists_live_eq_references mem
  rw [live] at memv
  exact typeOf_of_isReference (any_kindOf_of_mem_references bound memv)

/-- Parameters are of the types of their variables. -/
lemma parameters_typed (bound : c.body.kinds.length ≤ UInt32.size) :
    Except.Ensures (fun ps => ∀ o ∈ ps, ∃ v type, o = ⟨type, .ofVar v⟩ ∧ c.typeOf v = .ok type)
      (parameters c) := by
  intro ps given ⟨type, value⟩ mem
  obtain ⟨_, each⟩ := parameters_spec ps given
  obtain ⟨⟨⟨actual, declared⟩, i⟩, place, is, rfl⟩ := each.flip.exists_of_mem mem
  obtain rfl := is.2
  have found : c.body.kinds[i]? = some actual :=
    (List.getElem?_zip_eq_some.1 (List.mk_mem_zipIdx_iff_getElem?.1 place)).1
  refine ⟨_, _, rfl, ?_⟩
  rw [Context.typeOf, Context.kindOf, kindOf_ofIndex bound found]
  rfl

end Variables

section Functions

variable {ps : List Target.Operand} {pools : Pools} {s : Progress}

/-- Before anything is emitted, all that is defined are parameters. -/
lemma mem_definitions_initial
    (given : ∀ o ∈ ps, ∃ v type, o = ⟨type, .ofVar v⟩ ∧ c.typeOf v = .ok type) {d : Local × IrType}
    (mem : d ∈ (Progress.initial c ps pools).draft.definitions) :
    ∃ v, d.1 = .var v ∧ c.typeOf v = .ok d.2 := by
  have whole : (Progress.initial c ps pools).draft.definitions =
      ps.filterMap Target.Operand.definition? := List.append_nil _
  rw [whole] at mem
  obtain ⟨o, memo, defines⟩ := List.mem_filterMap.1 mem
  obtain ⟨v, type, rfl, known⟩ := given o memo
  cases defines
  exact ⟨v, rfl, known⟩

/-- At the beginning only the parameters are defined, by their types. -/
lemma typed_initial
    (given : ∀ o ∈ ps, ∃ v type, o = ⟨type, .ofVar v⟩ ∧ c.typeOf v = .ok type) :
    (Progress.initial c ps pools).Typed c where
  inside := Nat.one_pos
  result := rfl
  parameters := fun o mem => by
    obtain ⟨v, type, rfl, known⟩ := given o mem
    exact .ofVar known
  lines := List.forall_mem_nil _
  exits := List.forall_mem_nil _
  known := fun d mem => by
    obtain ⟨v, eq, known⟩ := mem_definitions_initial given mem
    rw [eq]
    exact .inl (congrArg Except.toOption known)
  unique := fun n type type' mem => by
    obtain ⟨v, eq, _⟩ := mem_definitions_initial given mem
    cases eq

/-- The finished function defines what the draft does. -/
lemma definitions_finish (d : Draft Label) : d.finish.definitions = d.definitions := by
  rw [Draft.finish, Draft.toFunction, Function.definitions, Draft.definitions, List.flatMap_map,
    List.flatMap_map]
  simp only [Block.definitions_mapSources, Block.definitions_terminate]

/-- The lines of a finished function are those of the draft, or say that a block is not left. -/
lemma mem_finish {d : Draft Label} {b : Block Label Label} {l : Line Label Label}
    (memb : b ∈ d.finish.blocks) (meml : l ∈ b.lines) :
    ∃ l', (l' ∈ d.lines ∨ l' = .leave .unreachable) ∧ l = l'.mapSources d.resolve := by
  rw [Draft.finish, Draft.toFunction, List.map_map] at memb
  obtain ⟨block, inDraft, rfl⟩ := List.mem_map.1 memb
  obtain ⟨l', inBlock, rfl⟩ := List.mem_map.1 meml
  refine ⟨l', ?_, rfl⟩
  change l' ∈ (block.terminate .unreachable).lines at inBlock
  rw [Block.terminate] at inBlock
  split at inBlock
  · exact .inl (List.mem_flatMap.2 ⟨block, inDraft, inBlock⟩)
  · rcases List.mem_append.1 inBlock with mem | mem
    · exact .inl (List.mem_flatMap.2 ⟨block, inDraft, mem⟩)
    · exact .inr (List.mem_singleton.1 mem)

/-- When everything has been emitted, the types of registers can be read from the function. -/
lemma Progress.Typed.typeOf?_finish (typed : s.Typed c) {r : Local} {type : IrType}
    (assigned : c.Assigns s.draft.definitions r type) :
    s.draft.finish.typeOf? (fun v => (c.body.kindOf v).map .ofKind) r = some type := by
  have single {r : Local} {type : IrType} (mem : (r, type) ∈ s.draft.definitions) :
      s.draft.finish.definitions.lookup r = some type := by
    rw [definitions_finish]
    refine Function.lookup_definitions mem fun type' mem' => ?_
    rcases typed.known _ mem with given | ⟨n, _, eq⟩
    · rcases typed.known _ mem' with given' | ⟨n, _, eq⟩
      · exact Option.some.inj (given'.symm.trans given)
      · obtain rfl : r = .temporary n := eq
        cases given
    · obtain rfl : r = .temporary n := eq
      exact typed.unique n type' type mem' mem
  cases r with
  | var v =>
    change (c.body.kindOf v).map .ofKind = some type
    obtain ⟨kind, given, eq⟩ := Except.exists_of_bind_eq_ok
      (show c.typeOf v = .ok type from assigned)
    rw [Context.kindOf] at given
    split at given
    · rename_i kind' found
      cases given
      rw [found]
      exact congrArg some (Except.ok.inj eq)
    · cases given
  | _ => exact single assigned

/-- The function of a method is well typed. -/
theorem function_wellTyped (references : KeepsReferences c)
    (bound : c.body.kinds.length ≤ UInt32.size) {f : Function Label} {pools pools' : Pools}
    (given : (function c).run pools = .ok (f, pools')) :
    f.WellTyped fun v => (c.body.kindOf v).map .ofKind := by
  obtain ⟨ps, code, psGiven, codeGiven, rfl, rfl⟩ := exists_of_function_run given
  have initial : (Progress.initial c ps pools).Typed c :=
    typed_initial (parameters_typed bound ps psGiven)
  obtain ⟨⟨typed, _⟩, _⟩ := body_typed references code codeGiven [] _ initial (List.nil_subset _)
  have more := fun r type (assigned : c.Assigns _ r type) => typed.typeOf?_finish assigned
  refine ⟨fun o mem => (typed.parameters o mem).mono more, fun b memb l meml => ?_⟩
  obtain ⟨l', origin, rfl⟩ := mem_finish memb meml
  apply Line.WellTyped.mapSources
  change l'.WellTyped _ ((code.next _).draft.result)
  rw [typed.result]
  rcases origin with mem | rfl
  · exact (typed.lines l' mem).mono more
  · exact .leave .unreachable

end Functions

end ObjectBackend.Lowering
