import ObjectBackend.Proofs.Lowering.Bodies
import ObjectBackend.Proofs.Lowering.Names

/-!
# Names in the code of methods

The function of a method has the method's name and refers to names of the module only
(`function_names`). The classes that the call sites of a method handle are declared.
-/

namespace ObjectBackend.Lowering

open Target

variable {c : Context}

section Sites

variable {p : Place} {handled : List (Option String)}

/-- The type of a frame refers to that of its header. -/
@[simp] lemma names_frameType (size : Nat) :
    (frameType size).names = [.type (.runtime .stackFrame)] := rfl

/-- A field of the header of a frame refers to declared names only. -/
lemma headerField_resolves (size : Nat) (index : Int) :
    Emit.Resolves c.backend (KnownValue c.backend) (headerField size index) :=
  .define (by simp)

/-- Making a frame refers to declared names only. -/
lemma pushFrame_resolves (size : Nat) : Resolved c (pushFrame size) :=
  (Emit.Resolves.assign (by simp)).bind fun _ _ =>
  (headerField_resolves size 0).bind fun _ known =>
  (Emit.Resolves.run (by simpa using known)).bind fun _ _ =>
  (Emit.Resolves.assign (by simp)).bind fun _ _ =>
  (headerField_resolves size 2).bind fun _ known =>
  (Emit.Resolves.run (by simpa using known)).bind fun _ _ =>
  .run (by simp)

/-- Taking the frame off the stack refers to declared names only. -/
lemma popFrame_resolves (size? : Option Nat) : Resolved c (popFrame size?) := by
  rw [popFrame]
  split
  · exact .run (by simp)
  · exact .pure trivial

/-- Spilling the live references refers to declared names only. -/
lemma spill_resolves (size : Nat) (live : List Var) (cell : Nat) :
    Resolved c (spill size live cell) := by
  refine (Emit.Resolves.define (by simp)).bind fun address known => .run ?_
  cases live[cell]? with
  | none => simpa using known
  | some v => simpa using known

/-- The beginning of a call site refers to declared names only, if the handled classes are declared.
-/
lemma beginSite_resolves (size? : Option Nat) (live : List Var)
    (declared : ∀ name, some name ∈ handled → c.backend.Declares name) :
    Emit.Resolves c.backend (fun _ => True) (beginSite size? live handled) := by
  refine (Emit.Resolves.register declared).bind fun site _ => ?_
  cases size? with
  | none => exact .pure trivial
  | some size =>
    exact (Emit.Resolves.forM fun cell _ => spill_resolves size live cell).bind fun _ _ =>
      (headerField_resolves size 1).bind fun _ known =>
      (Emit.Resolves.run (by simpa using known)).bind fun _ _ => .pure trivial

/-- Finding where a call site goes with an exception refers to declared names only. -/
lemma exceptionTarget_resolves (p : Place) (site : Nat) :
    Emit.Resolves c.backend (fun _ => True) (exceptionTarget p site) := by
  rw [exceptionTarget]
  split
  · exact Emit.Resolves.here.bind fun _ _ => .bind
      (.record (fun _ => rfl) (fun _ => rfl) fun _ resolved => resolved.exits)
      fun _ _ => .pure trivial
  · exact .bind (.record (fun _ => rfl) (fun _ => rfl) fun _ resolved => resolved.exits)
      fun _ _ => .pure trivial

/-- The end of a call site refers to declared names only. -/
lemma endSite_resolves (p : Place) (site : Nat) : Resolved c (endSite p site) :=
  (Emit.Resolves.define (by simp)).bind fun _ known =>
  (Emit.Resolves.define (by simpa using known)).bind fun _ known' =>
  (exceptionTarget_resolves p site).bind fun _ _ =>
  (Emit.Resolves.split p.label).bind fun next _ =>
  (Emit.Resolves.leave (by simpa using known')).bind fun _ _ =>
  .continueAt next

/-- A call site refers to declared names only if its code does. -/
lemma site_resolves (p : Place) (live : List Var) {code : Emit Unit}
    (declared : ∀ name, some name ∈ handled → c.backend.Declares name)
    (resolves : Resolved c code) : Resolved c (site c p handled live code) :=
  (beginSite_resolves c.frameSize? live declared).bind fun site _ =>
  resolves.bind fun _ _ => endSite_resolves p site

/-- A landing pad refers to declared names only. -/
lemma landingPad_resolves (id : BlockId) (b : BasicBlock) : Resolved c (landingPad id b) := by
  refine Emit.Resolves.get.bind fun s _ => ?_
  dsimp only
  split
  · exact .pure trivial
  exact (Emit.Resolves.insertBlock (.landing id)).bind fun _ _ =>
    (Emit.Resolves.continueAt (.landing id)).bind fun _ _ =>
    (Emit.Resolves.line (l := .phi _ _ _) (by simp [List.flatMap_map])).bind fun _ _ =>
    (Emit.Resolves.define (by simp)).bind fun exception known =>
    (Emit.Resolves.define (by simpa using known)).bind fun selected known' =>
    .bind (.record (fun _ => rfl) (fun _ => rfl) fun _ resolved => resolved.exits)
      fun _ _ => .leave (by simpa using known')

/-- Returning a value refers to declared names only if the value does. -/
lemma returnValue_resolves {value : Option Value}
    (known : ∀ v, value = some v → KnownValue c.backend v) : Resolved c (returnValue c value) := by
  have plain : c.result.names = [] := IrType.names_ofValue _
  rw [returnValue]
  split
  · cases value with
    | none => exact .leave (by simp)
    | some v => exact .leave (by simpa [plain] using known v rfl)
  · refine Emit.Resolves.here.bind fun source _ => ?_
    refine .bind (.record (fun _ => rfl) (fun _ => rfl) fun s resolved => ?_) fun _ _ =>
      .leave (by simp)
    exact List.forall_mem_append.2 ⟨resolved.exits, List.forall_mem_singleton.2 known⟩

/-- The shared exit refers to declared names only. -/
lemma exitBlock_resolves (c : Context) : Resolved c (exitBlock c) := by
  have plain : c.result.names = [] := IrType.names_ofValue _
  refine Emit.Resolves.get.bind fun s resolved => ?_
  dsimp only
  split
  · exact .pure trivial
  refine (Emit.Resolves.appendBlock .exit).bind fun _ _ =>
    (Emit.Resolves.continueAt .exit).bind fun _ _ => ?_
  split
  · exact (popFrame_resolves _).bind fun _ _ => .leave (by simp)
  · refine (Emit.Resolves.line (l := .phi _ _ _) ?_).bind fun _ _ =>
      (popFrame_resolves _).bind fun _ _ => .leave (by simp [plain])
    intro n mem
    simp only [Line.names, Value.names_register, plain, List.nil_append, List.flatMap_map] at mem
    obtain ⟨⟨value, source⟩, mem, memn⟩ := List.mem_flatMap.1 mem
    cases value with
    | none => cases memn
    | some v => exact resolved.exits _ mem v rfl n memn

/-- The exit for exceptions refers to declared names only. -/
lemma unwindBlock_resolves (c : Context) : Resolved c (unwindBlock c) := by
  have plain : c.result.names = [] := IrType.names_ofValue _
  refine Emit.Resolves.get.bind fun s _ => ?_
  split
  · refine (Emit.Resolves.appendBlock .unwind).bind fun _ _ =>
      (Emit.Resolves.continueAt .unwind).bind fun _ _ =>
      (popFrame_resolves _).bind fun _ _ => .leave ?_
    split <;> simp [plain]
  · exact .pure trivial

end Sites

section Control

variable {id : BlockId} {b : BasicBlock}

/-- A phi refers to declared names only. -/
lemma phi_resolves (id : BlockId) (p : Phi) : Except.Ensures (Resolved c) (phi c id p) := by
  refine .bind fun type given => .bind fun edges given' => .pure (.line (l := .phi _ _ _) ?_)
  have plain : ∀ e ∈ edges.flatten, e.1.names = [] := by
    intro e mem
    obtain ⟨es, memes, mem⟩ := List.mem_flatten.1 mem
    obtain ⟨i, _, given⟩ := Except.exists_of_mem_of_mapM_eq_ok given' memes
    obtain ⟨_, _, given⟩ := Except.exists_of_bind_eq_ok given
    split at given
    · cases given
    · cases given
      obtain ⟨source, _, rfl⟩ := List.mem_map.1 mem
      rfl
  intro n mem
  simp only [Line.names, Value.names_ofVar, typeOf_spec type given, List.nil_append,
    List.flatMap_append, List.mem_append] at mem
  rcases mem with mem | mem
  · split at mem <;> cases mem
  · rw [List.flatMap_eq_nil_iff.2 plain] at mem
    cases mem

/-- A condition on one operand refers to declared names only. -/
lemma branchTest_resolves (condition : BranchCondition) (operand : Var) :
    Except.Ensures (Emit.Resolves c.backend (KnownValue c.backend))
      (branchTest c condition operand) := by
  refine .bind fun type given => ?_
  have test : Emit.Resolves c.backend (KnownValue c.backend)
      (.define (.icmp condition.predicate type (.ofVar operand) (.zeroOf type))) :=
    .define (by simp [typeOf_spec type given])
  dsimp only
  split
  · exact .error _
  split
  · exact .error _
  split
  · exact .error _
  · exact .pure test

/-- A condition on two operands refers to declared names only. -/
lemma binaryBranchTest_resolves (condition : BinaryBranchCondition) (first second : Var) :
    Except.Ensures (Emit.Resolves c.backend (KnownValue c.backend))
      (binaryBranchTest c condition first second) := by
  refine .bind fun type given => .bind fun _ _ => ?_
  have test : Emit.Resolves c.backend (KnownValue c.backend)
      (.define (.icmp condition.predicate type (.ofVar first) (.ofVar second))) :=
    .define (by simp [typeOf_spec type given])
  dsimp only
  split
  · split
    · exact .pure test
    · exact .error _
  · split
    · exact .pure test
    · exact .error _

/-- An exit refers to declared names only. -/
lemma exit_resolves (value : Option Var) : Except.Ensures (Resolved c) (exit c value) := by
  cases value with
  | none =>
    dsimp only [exit]
    split
    · exact .pure (returnValue_resolves nofun)
    · exact .error _
  | some v =>
    dsimp only [exit]
    split
    · exact .error _
    · refine .bind fun _ _ => .pure (returnValue_resolves ?_)
      rintro _ ⟨⟩ _ ⟨⟩

/-- Raising an exception refers to declared names only. -/
lemma raise_resolves (exception : Var) : Except.Ensures (Resolved c) (raise c id b exception) :=
  .bind fun _ _ => .bind fun handled given => .pure <|
    (Emit.Resolves.call (by simp)).bind fun _ _ =>
    (beginSite_resolves c.frameSize? [] (handledClasses_spec handled given)).bind fun site _ =>
    (exceptionTarget_resolves _ site).bind fun _ _ => .leave (by simp)

/-- A terminator refers to declared names only. -/
lemma terminator_resolves : Except.Ensures (Resolved c) (terminator c id b) := by
  rw [terminator]
  split
  · exact .pure (.leave (by simp))
  · exact .bind fun test given => .pure <|
      (branchTest_resolves _ _ test given).bind fun _ known => .leave (by simpa using known)
  · exact .bind fun test given => .pure <|
      (binaryBranchTest_resolves _ _ _ test given).bind fun _ known =>
        .leave (by simpa using known)
  · exact .bind fun _ _ => .pure (.leave (by simp))
  · exact exit_resolves _
  · exact raise_resolves _
  · exact .pure (.leave (by simp))

end Control

section Bodies

variable {id : BlockId} {b : BasicBlock}

/-- An instruction refers to declared names only. -/
lemma instruction_resolves (owners : OwnersDeclared c.backend) (i : Instruction) (position : Nat) :
    Except.Ensures (Resolved c) (instruction c id b i position) := by
  dsimp only [instruction]
  split
  · exact plainInstruction_resolves i
  split
  case isTrue => exact .pure (.pure trivial)
  case isFalse site =>
    exact .bind fun handled given => .bind fun code lowered => .pure <|
      site_resolves _ _ (handledClasses_spec handled given)
        (siteInstruction_resolves owners (by simpa using site) code lowered)

/-- A comment refers to nothing. -/
lemma comment_resolves (i : Instruction) : Resolved c (comment c i) := by
  rw [comment]
  split
  · exact .line (by simp)
  · exact .pure trivial

/-- Receiving the exception refers to declared names only. -/
lemma receiveException_resolves :
    Except.Ensures (Resolved c) (receiveException c id b) := by
  dsimp only [receiveException]
  split
  · exact .pure (.pure trivial)
  · refine .bind fun _ _ => .pure ?_
    refine (Emit.Resolves.call (by simp)).bind fun exception known => ?_
    split
    · exact .copyTo (by simp) (known _ rfl)
    · exact .pure trivial

/-- A block refers to declared names only. -/
lemma block_resolves (owners : OwnersDeclared c.backend) :
    Except.Ensures (Resolved c) (block c id b) := by
  refine .bind fun phis phisGiven => .bind fun received receivedGiven =>
    .bind fun instructions instructionsGiven => .bind fun last lastGiven => .pure ?_
  have phis' : ∀ code ∈ phis, Resolved c code := fun code mem => by
    obtain ⟨p, _, given⟩ := Except.exists_of_mem_of_mapM_eq_ok phisGiven mem
    exact phi_resolves id p code given
  have instructions' : ∀ code ∈ instructions, Resolved c code := fun code mem => by
    obtain ⟨⟨i, position⟩, _, given⟩ := Except.exists_of_mem_of_mapM_eq_ok instructionsGiven mem
    obtain ⟨code', given, eq⟩ := Except.exists_of_bind_eq_ok given
    rw [← Except.ok.inj eq]
    exact (comment_resolves i).bind fun _ _ => instruction_resolves owners i position code' given
  exact (Emit.Resolves.continueAt _).bind fun _ _ =>
    (Emit.Resolves.forM phis').bind fun _ _ =>
    (receiveException_resolves received receivedGiven).bind fun _ _ =>
    (Emit.Resolves.forM instructions').bind fun _ _ =>
    (terminator_resolves last lastGiven).bind fun _ _ =>
    (Emit.Resolves.finishBlock id).bind fun _ _ => landingPad_resolves id b

/-- The start of a method refers to declared names only. -/
lemma start_resolves (c : Context) : Resolved c (start c) := by
  rw [start_eq]
  have frame : Resolved c (c.frameSize?.forM pushFrame) := by
    cases c.frameSize? with
    | none => exact .pure trivial
    | some size => exact pushFrame_resolves size
  refine frame.bind fun _ _ => .bind (P := fun _ => True) ?_ fun _ _ => .leave (by simp)
  rw [initializeOwner]
  split
  case isTrue initializes =>
    refine site_resolves _ _ (by simp) (callInitializer_resolves ?_)
    rw [Context.initializesOwner, Bool.and_eq_true] at initializes
    exact initializes.2
  case isFalse => exact .pure trivial

/-- A body refers to declared names only. -/
lemma body_resolves (owners : OwnersDeclared c.backend) :
    Except.Ensures (Resolved c) (body c) := by
  dsimp only [body]
  split
  · exact .error _
  refine .bind fun blocks given => .pure ?_
  have blocks' : ∀ code ∈ blocks, Resolved c code := fun code mem => by
    obtain ⟨⟨id, b⟩, _, given⟩ := Except.exists_of_mem_of_mapM_eq_ok given mem
    exact block_resolves owners code given
  exact (start_resolves c).bind fun _ _ =>
    (Emit.Resolves.forM fun _ _ => .appendBlock _).bind fun _ _ =>
    (Emit.Resolves.forM blocks').bind fun _ _ =>
    (exitBlock_resolves c).bind fun _ _ => unwindBlock_resolves c

/-- Parameters refer to nothing. -/
lemma names_parameters :
    Except.Ensures (fun ps => ps.flatMap Target.Operand.names = []) (parameters c) := by
  intro ps given
  rw [List.flatMap_eq_nil_iff]
  intro o mem
  obtain ⟨_, each⟩ := parameters_spec ps given
  obtain ⟨entry, _, is, type⟩ := each.flip.exists_of_mem mem
  simp [Target.Operand.names, is.2, type]

end Bodies

/-- Pools whose call sites handle classes that are declared. -/
def HandlesDeclared (b : Backend) (pools : Pools) : Prop :=
  ∀ site ∈ pools.sites.sites, ∀ name, some name ∈ site.handled → b.Declares name

/-- The function of a method is what the code of its body has emitted. -/
lemma function_reaches (owners : OwnersDeclared c.backend) {f : Function Label}
    {pools pools' : Pools} (handles : HandlesDeclared c.backend pools)
    (given : (function c).run pools = .ok (f, pools')) :
    ∃ ps s, parameters c = .ok ps ∧ (Progress.initial c ps pools).Reaches c.backend s ∧
      f = s.draft.finish ∧ pools' = s.pools := by
  obtain ⟨ps, code, psGiven, codeGiven, rfl, rfl⟩ := exists_of_function_run given
  have initial : (Progress.initial c ps pools).Resolved c.backend := by
    refine ⟨fun n mem => ?_, fun _ => nofun, handles⟩
    have none : (Progress.initial c ps pools).draft.names = [] := by
      change (c.result.names ++ ps.flatMap Target.Operand.names) ++ _ = _
      rw [names_parameters ps psGiven, Context.result, IrType.names_ofValue]
      rfl
    rw [none] at mem
    cases mem
  exact ⟨ps, _, psGiven, (body_resolves owners code codeGiven _ initial).1, rfl, rfl⟩

/-- The function of a method has the name of the method, and refers to names of the module only. -/
lemma function_names (owners : OwnersDeclared c.backend) {f : Function Label}
    {pools pools' : Pools} (handles : HandlesDeclared c.backend pools)
    (given : (function c).run pools = .ok (f, pools')) :
    f.name = .method c.reference ∧ (∀ n ∈ f.names, c.backend.Provides pools' n) ∧
      HandlesDeclared c.backend pools' ∧
      pools.literals.texts.length ≤ pools'.literals.texts.length := by
  obtain ⟨ps, s, _, reaches, rfl, rfl⟩ := function_reaches owners handles given
  refine ⟨congrArg Prod.fst reaches.head, ?_, reaches.resolved.handled, reaches.literals⟩
  rw [Draft.names_finish]
  exact reaches.resolved.code

/-- The function of a method has the result and the parameters of the method. -/
lemma function_head (owners : OwnersDeclared c.backend) {f : Function Label}
    {pools pools' : Pools} (handles : HandlesDeclared c.backend pools)
    (given : (function c).run pools = .ok (f, pools')) :
    f.result = c.result ∧ parameters c = .ok f.parameters := by
  obtain ⟨ps, s, checked, reaches, rfl, rfl⟩ := function_reaches owners handles given
  obtain ⟨_, tail⟩ := Prod.mk.inj reaches.head
  obtain ⟨result, same⟩ := Prod.mk.inj tail
  refine ⟨result, ?_⟩
  rw [checked]
  exact congrArg Except.ok same.symm

end ObjectBackend.Lowering
