import ObjectBackend.Proofs.Lowering.Placement
import ObjectBackend.Proofs.Lowering.References

/-!
# Calls that fail

What the code of a call site does when its call comes back with an exception pending; its result is
then null or zero. Between the call and the test for exceptions there is nothing, unless the site
makes an array of references (`AfterCall`): that is told the class of its items first, through a
result that is no array. So the exception leaves for the landing pad or out of the function from all
sites but these (`site_spares_result_iff`).
-/

namespace ObjectBackend

open Target

namespace Target

/-- A word that a function returns when an exception leaves it. -/
def Word.IsZero (w : Word) : Prop := w = .null ∨ w = .int 0

/-- A zero is no address. -/
lemma Word.IsZero.address? {w : Word} (zero : w.IsZero) : w.address? = none := by
  rcases zero with rfl | rfl <;> rfl

namespace Instr

variable {host : Host} {r : Registers} {m : Memory} {type : IrType}

/-- A load yields what the cell holds. -/
lemma run?_load {address : Value} {a : Address} {w : Word}
    (points : address.word? r = some (.address a)) (cell : m a = some (type, w)) :
    (load type address).run? host r m = some (some w, m) := by
  simp [run?, points, Word.address?, cell]

/-- A comparison yields its flag. -/
lemma run?_icmp {predicate : Predicate} {lhs rhs : Value} {x y : Word} {holds : Bool}
    (left : lhs.word? r = some x) (right : rhs.word? r = some y)
    (compare : predicate.holds? x y = some holds) :
    (icmp predicate type lhs rhs).run? host r m = some (some (.ofBool holds), m) := by
  simp [run?, left, right, compare]

/-- There are no parts of what is no place. -/
lemma run?_element_eq_none {base : IrType} {address : Value} {indices : List Value} {w : Word}
    (word : address.word? r = some w) (nowhere : w.address? = none) :
    (element base address indices).run? host r m = none := by
  simp [run?, word, nowhere]

/-- The values that an address may be computed from by an instruction. -/
def origins : Instr → List Value
  | binary _ _ lhs rhs => [lhs, rhs]
  | cast _ operand _ => [operand.value]
  | element _ address _ => [address]
  | select _ _ consequent alternative => [consequent, alternative]
  | _ => []

/-- The address that an instruction loads from or stores to. -/
def accessed? : Instr → Option Value
  | load _ address | store _ address => some address
  | _ => none

end Instr

namespace Line

variable {ℓ σ : Type}

/-- The registers that hold what some registers hold, or an address computed from it, behind a line.
-/
def derived (held : List Local) : Line ℓ σ → List Local
  | define (.register r) i =>
    if i.origins.any (· ∈ held.map .register) then r :: held else held.filter (· ≠ r)
  | phi (.register r) _ incomings =>
    if incomings.any (·.1 ∈ held.map .register) then r :: held else held.filter (· ≠ r)
  | _ => held

/-- Whether a line accesses the memory that some registers point to. -/
def accesses (held : List Local) : Line ℓ σ → Bool
  | run i | define _ i => i.accessed?.any (· ∈ held.map .register)
  | _ => false

/-- Whether some lines access memory through what some registers hold before them. -/
def accessesThrough (held : List Local) : List (Line ℓ σ) → Bool
  | [] => false
  | l :: ls => l.accesses held || accessesThrough (l.derived held) ls

/-- A call whose result goes to the register of a variable, if it is kept. -/
def ofCall (receiver : Option Var) (result : IrType) (callee : Value)
    (arguments : List Target.Operand) : Line ℓ σ :=
  match receiver with
  | none => .run (.call result callee arguments)
  | some v => .define (.ofVar v) (.call result callee arguments)

/-- The sources of phis do not matter to a call. -/
lemma mapSources_ofCall {τ : Type} (g : σ → τ) (receiver : Option Var) (result : IrType)
    (callee : Value) (arguments : List Target.Operand) :
    (ofCall receiver result callee arguments : Line ℓ σ).mapSources g =
      ofCall receiver result callee arguments := by
  cases receiver <;> rfl

/-- A call that comes back is behind its line. -/
lemma of_run?_ofCall [DecidableEq ℓ] {host : Host} {s s' : State ℓ} {receiver : Option Var}
    {result : IrType} {callee : Value} {arguments : List Target.Operand}
    (runs : (ofCall receiver result callee arguments : Line ℓ ℓ).run? host s = some s') :
    s'.label = s.label ∧ s'.position = s.position + 1 := by
  cases receiver with
  | none =>
    obtain ⟨⟨w, m⟩, _, eq⟩ := Option.bind_eq_some_iff.1 runs
    cases eq
    exact ⟨rfl, rfl⟩
  | some v =>
    obtain ⟨⟨w, m⟩, _, eq⟩ := Option.bind_eq_some_iff.1 runs
    cases w with
    | none => cases eq
    | some w =>
      cases eq
      exact ⟨rfl, rfl⟩

end Line

end Target

/-- Whether an instruction makes an array of references. -/
def Instruction.makesReferences : Instruction → Bool
  | constructArray _ item _ | constructMultiArray _ item _ => item.elementKind = .object
  | _ => false

namespace Lowering

open Emit Listing

variable {c : Context} {σ : Type} {i : Instruction}

/-- The lines that tell an array of the class of its items. -/
def itemClassLines (array : Var) (itemClass : Symbol) (temporary : Nat) : List (Line Label σ) :=
  [.define (.register (.temporary temporary))
      (.fieldOf (.runtime .array) (.ofVar array) [0, itemClassIndex]),
    .run (.store (.ptr (.symbol itemClass)) (.register (.temporary temporary)))]

/-- What the code of a call site does between its call and the test for exceptions. -/
inductive AfterCall (i : Instruction) : List (Line Label σ) → Prop where
  | nothing (other : i.makesReferences = false) : AfterCall i []
  | itemClass {array : Var} (makes : i.makesReferences = true) (receives : i.defined = some array)
      (itemClass : Symbol) (temporary : Nat) :
      AfterCall i (itemClassLines array itemClass temporary)

namespace AfterCall

variable {ls : List (Line Label σ)}

/-- The sources of phis do not matter to the code behind a call. -/
lemma mapSources {τ : Type} (g : σ → τ) (after : AfterCall i ls) :
    AfterCall i (ls.map (Line.mapSources g)) := by
  cases after with
  | nothing other => exact .nothing other
  | itemClass makes receives itemClass temporary =>
    exact .itemClass makes receives itemClass temporary

/-- There is no other call in the code behind a call. -/
lemma countP_isCall (after : AfterCall i ls) : ls.countP Line.isCall = 0 := by
  cases after <;> rfl

/-- The memory that the result points to is accessed before the test just by the sites that make
arrays of references. -/
lemma accessesThrough_eq (after : AfterCall i ls) (temporary : Nat) (target next : Label) :
    Line.accessesThrough (i.defined.toList.map .var) (ls ++ checkLines temporary target next) =
      i.makesReferences := by
  cases after with
  | nothing other =>
    rw [other]
    simp [checkLines, Line.accessesThrough, Line.accesses, Line.derived, Instr.accessed?,
      Instr.origins, Value.ofRuntime]
  | itemClass makes receives =>
    rw [makes, receives]
    simp [itemClassLines, Line.accessesThrough, Line.accesses, Line.derived, Instr.accessed?,
      Instr.origins, Instr.fieldOf, Value.ofVar]

end AfterCall

/-- Code of one call, given what comes behind it. -/
def Emit.Calls (receiver : Option Var) (after : List DraftLine → Prop) (e : Emit Unit) : Prop :=
  ∀ s : Progress, ∃ first result callee arguments rest, first.countP Line.isCall = 0 ∧ after rest ∧
    s.Writes (first ++ .ofCall receiver result callee arguments :: rest) (e.next s)

section Sites

variable {v : Var}

/-- A call alone. -/
lemma Emit.Calls.alone {receiver : Option Var} {first : Emit Value} (straight : Straight 0 first)
    (result : IrType) (arguments : List Target.Operand) (other : i.makesReferences = false) :
    Calls receiver (AfterCall i) (do
      let call := Instr.call result (← first) arguments
      match receiver with
      | some v => .assignVar v call
      | none => .run call) := by
  intro s
  obtain ⟨lines, _, calls, _, writes⟩ := straight s
  refine ⟨lines, result, first.result s, arguments, [], calls, .nothing other, writes.trans ?_⟩
  cases receiver with
  | none => exact .line _ rfl
  | some v => exact .line _ rfl

/-- Making an object is a call with the code of its instruction behind it. -/
lemma construct_calls (className : String) :
    Except.Ensures (Calls (some v) (AfterCall (.construct v className)))
      (construct c v className) := by
  refine .bind fun _ _ => ?_
  dsimp only
  split
  · exact .error _
  · exact .bind fun _ _ => .pure (.alone (.pure (.ofRuntime .alloc)) _ _ rfl)

/-- An array of references is told the class of its items. -/
lemma constructArray_calls {item : ValueType} (size : Var) (receives : i.defined = some v)
    (makes : i.makesReferences = decide (item.elementKind = .object)) :
    Except.Ensures (Calls (some v) (AfterCall i)) (constructArray c v item size) := by
  dsimp only [constructArray]
  split
  · exact .error _
  · refine .bind fun _ _ => .bind fun _ _ => ?_
    split
    case isTrue object =>
      rw [decide_eq_true object] at makes
      refine .bind fun itemClass _ => .pure fun s => ?_
      let call : DraftLine := .ofCall (some v) .ptr (.ofRuntime .allocArray)
        [.ptr (.symbol (.arrayMetadata item.elementKind)),
          .i32 ((IrType.element item.elementKind).scalarSize?.getD 8), ⟨.i32, .ofVar size⟩]
      let s₁ := (Emit.line call).next s
      have called : s.Writes [call] s₁ := .line s rfl
      have slot := Progress.Writes.define s₁
        (.fieldOf (.runtime .array) (.ofVar v) [0, itemClassIndex])
      refine ⟨[], _, _, _, itemClassLines v itemClass s₁.draft.nextTemporary, rfl,
        .itemClass makes receives _ _, called.trans (slot.trans (.line (l := .run _) _ rfl))⟩
    case isFalse plain =>
      rw [decide_eq_false plain] at makes
      exact .pure (.alone (.pure (.ofRuntime .allocArray)) _ _ makes)

/-- An invocation is a call with the code of its instruction behind it. -/
lemma invoke_calls {receiver : Option Var} (inst : Option Var) (method : MethodRef)
    (arguments : List Var) (kind : InvocationKind) :
    Except.Ensures (Calls receiver (AfterCall (.invoke receiver inst method arguments kind)))
      (invoke c receiver inst method arguments kind) := by
  dsimp only [invoke]
  split
  · exact .error _
  · split
    · exact .error _
    · exact .bind fun _ _ => .bind fun _ _ => .bind fun _ given => .pure
        (.alone (callee_straight _ _ _ _ given) _ _ rfl)

/-- The code of a call site makes one call. -/
lemma siteInstruction_calls (i : Instruction) :
    Except.Ensures (Calls i.defined (AfterCall i)) (siteInstruction c i) := by
  cases i with
  | invoke receiver inst method arguments kind => exact invoke_calls inst method arguments kind
  | invokeDynamic receiver name arguments => exact .error _
  | construct receiver className => exact construct_calls className
  | constructArray receiver item size => exact constructArray_calls size rfl rfl
  | constructMultiArray receiver item dimensions =>
    rw [siteInstruction, constructMultiArray.eq_def]
    split
    · exact constructArray_calls _ rfl rfl
    · exact .error _
  | cloneArray receiver array =>
    exact .bind fun _ _ => .bind fun _ _ => .pure (.alone (.pure (.ofRuntime .cloneArray)) _ _ rfl)
  | initClass className =>
    exact .pure (.alone (.pure (.symbol (.initializer className))) .void [] rfl)
  | _ => exact .error _

variable {p : Place} {handled : List (Option String)} {live : List Var} {receiver : Option Var}
  {after : List DraftLine → Prop} {code : Emit Unit}

/-- The call of a site stands in one block with the test for exceptions. -/
lemma site_moves (calls : Calls receiver after code) (outside : p.target.isSplit = false)
    {s : Progress} {before behind : List DraftBlock} {current : DraftBlock}
    (start : s.At before current behind) :
    ∃ first result callee arguments rest temporary next, first.countP Line.isCall = 0 ∧
      after rest ∧
      ((site c p handled live code).next s).At
        (before ++ [⟨current.label, current.lines ++ (first ++
          .ofCall receiver result callee arguments ::
            (rest ++ checkLines temporary p.target next))⟩]) ⟨next, []⟩ behind := by
  obtain ⟨_, stores⟩ := beginSite_spec s c.frameSize? live handled
  let s₁ := (beginSite c.frameSize? live handled).next s
  let s₂ := code.next s₁
  obtain ⟨first, result, callee, arguments, rest, none, holds, writes⟩ := calls s₁
  let registered : Progress := { s with pools := (s.pools.register ⟨live.length, handled⟩).2 }
  have open' : registered.At before current behind := ⟨start.cursor, start.isOpen⟩
  have written := (stores.trans writes).moves open'
  have tested := endSite_spec written outside ((beginSite c.frameSize? live handled).result s) []
  have moved := tested.1.moves written
  rw [closed_append, closed_ofLines, List.nil_append, last_append, last_ofLines] at moved
  refine ⟨siteStores c.frameSize? live s.pools.sites.sites.length s.draft.nextTemporary ++ first,
    result, callee, arguments, rest, s₂.draft.nextTemporary, .split p.label s₂.draft.nextSplit, ?_,
    holds, ?_⟩
  · rw [List.countP_append, none, List.countP_eq_zero.2]
    exact forall_mem_siteStores (by rintro _ _ _ _ ⟨⟩) (by rintro _ _ ⟨⟩) _ _ _ _
  · simp only [List.append_assoc, List.cons_append] at moved ⊢
    exact moved

end Sites

/-- A call in a function, with the test for exceptions behind it. -/
structure CheckedCall (f : Function Label) (receiver : Option Var) (target : Label) where
  /-- The label of the block that it is in. -/
  label : Label
  /-- The lines of the block that come before the call. -/
  before : List (Line Label Label)
  result : IrType
  callee : Value
  arguments : List Target.Operand
  /-- The lines between the call and the test. -/
  between : List (Line Label Label)
  temporary : Nat
  /-- Where the code goes on if there is no exception. -/
  next : Label
  rest : List (Line Label Label)
  lines : f.lines? label = some (before ++ .ofCall receiver result callee arguments ::
    (between ++ checkLines temporary target next ++ rest))

namespace CheckedCall

variable {f : Function Label} {receiver : Option Var} {target : Label} {host : Host}
  {s s' : State Label} (k : CheckedCall f receiver target)

/-- The lines behind the call, up to the one that exceptions leave by. -/
def guarded : List (Line Label Label) := k.between ++ checkLines k.temporary target k.next

/-- It is the one call of some code that stands in the function. -/
structure IsOf {e : Emit Unit} (p : e.Placement f) : Prop where
  label : k.label = p.current.label
  le : p.current.lines.length ≤ k.before.length
  before : (k.before.drop p.current.lines.length).countP Line.isCall = 0
  between : k.between.countP Line.isCall = 0

/-- The call comes back with an exception pending, and its result is null or zero. -/
structure Fails (host : Host) (s s' : State Label) : Prop where
  label : s.label = k.label
  position : s.position = k.before.length
  step : f.step? host s = some s'
  pending : IsPending s'.memory
  result : ∀ v, receiver = some v → ∃ w, s'.registers (.var v) = some w ∧ w.IsZero

variable {k}

/-- At the call site the function is at the call. -/
lemma line?_call (label : s.label = k.label) (position : s.position = k.before.length) :
    f.line? s = some (.ofCall receiver k.result k.callee k.arguments) := by
  change (do (← f.lines? s.label)[s.position]?) = _
  rw [label, k.lines, position]
  change (k.before ++ _)[k.before.length]? = _
  rw [List.getElem?_append_right (Nat.le_refl _), Nat.sub_self]
  rfl

/-- Behind the call the function is at the guarded lines. -/
lemma line?_guarded {n : Nat} {l : Line Label Label} (label : s.label = k.label)
    (position : s.position = k.before.length + 1 + n) (at' : k.guarded[n]? = some l) :
    f.line? s = some l := by
  change (do (← f.lines? s.label)[s.position]?) = _
  rw [label, k.lines, position, Nat.add_assoc, Nat.add_comm 1]
  change (k.before ++ _)[k.before.length + (n + 1)]? = _
  rw [List.getElem?_append_right (Nat.le_add_right ..), Nat.add_sub_cancel_left,
    List.getElem?_cons_succ]
  change (k.guarded ++ k.rest)[n]? = _
  rw [List.getElem?_append_left (List.getElem?_eq_some_iff.1 at').1]
  exact at'

namespace Fails

/-- A call that fails leads behind its line. -/
lemma behind (fails : k.Fails host s s') :
    s'.label = k.label ∧ s'.position = k.before.length + 1 := by
  have runs := fails.step
  rw [Function.step?, line?_call fails.label fails.position] at runs
  obtain ⟨label, position⟩ := Line.of_run?_ofCall runs
  exact ⟨label.trans fails.label, position.trans (congrArg (· + 1) fails.position)⟩

/-- If nothing comes between the call and the test, the exception leaves. -/
lemma leaves (fails : k.Fails host s s') (none : k.between = []) :
    ∃ u, f.Runs host s' u ∧ u.label = target ∧ u.position = 0 ∧ u.memory = s'.memory := by
  obtain ⟨label, position⟩ := fails.behind
  obtain ⟨a, cell⟩ := fails.pending
  have guarded : k.guarded = checkLines k.temporary target k.next := by
    rw [CheckedCall.guarded, none, List.nil_append]
  let t := s'.set (.temporary k.temporary) (.address a) s'.memory
  let u := t.set (.temporary (k.temporary + 1)) (.ofBool true) s'.memory
  have loads : f.step? host s' = some t := by
    apply Function.step?_define (i := .load .ptr (.ofRuntime .pendingException))
    · exact line?_guarded (n := 0) label position (by rw [guarded]; rfl)
    · exact Instr.run?_load rfl cell
  have compares : f.step? host t = some u := by
    apply Function.step?_define (i := .icmp .ne .ptr (.register (.temporary k.temporary)) .null)
    · exact line?_guarded (n := 1) label (congrArg (· + 1) position) (by rw [guarded]; rfl)
    · exact Instr.run?_icmp (Function.update_self ..) rfl rfl
  have leaves : f.step? host u = some (u.enter target) := by
    apply Function.step?_leave
      (t := .condBr (.register (.temporary (k.temporary + 1))) target k.next)
    · exact line?_guarded (n := 2) label (congrArg (· + 2) position) (by rw [guarded]; rfl)
    · have word : (Value.register (.temporary (k.temporary + 1))).word? u.registers =
          some (.ofBool true) := Function.update_self ..
      rw [Term.target?, word]
      rfl
  exact ⟨u.enter target, .head loads (.head compares (.single leaves)), rfl, rfl, rfl⟩

/-- A result that is no array has no part for the class of its items. -/
lemma stuck (fails : k.Fails host s s') {array : Var} {itemClass : Symbol} {temporary : Nat}
    (receives : receiver = some array)
    (tells : k.between = itemClassLines array itemClass temporary) :
    f.step? host s' = none := by
  obtain ⟨label, position⟩ := fails.behind
  obtain ⟨w, holds, zero⟩ := fails.result array receives
  have at' := line?_guarded (n := 0) label position (by rw [CheckedCall.guarded, tells]; rfl)
  have word : (Value.ofVar array).word? s'.registers = some w := holds
  rw [Function.step?, at', Option.bind_eq_bind, Option.bind_some]
  exact Line.run?_define_eq_none _ (Instr.run?_element_eq_none word zero.address?)

/-- The exception leaves, unless the result is taken for an array of references. -/
lemma leaves_iff (fails : k.Fails host s s') (receives : receiver = i.defined)
    (after : AfterCall i k.between) :
    (∃ u, f.Runs host s' u ∧ u.label = target ∧ u.position = 0 ∧ u.memory = s'.memory) ↔
      i.makesReferences = false := by
  generalize tells : k.between = between at after
  cases after with
  | nothing other => exact iff_of_true (fails.leaves tells) other
  | itemClass makes receives' itemClass temporary =>
    refine iff_of_false ?_ (by rw [makes]; exact Bool.noConfusion)
    rintro ⟨u, runs, _, start, _⟩
    rcases runs.cases_head with rfl | ⟨_, step, _⟩
    · cases start.symm.trans fails.behind.2
    · cases (fails.stuck (receives.trans receives') tells).symm.trans step

end Fails

end CheckedCall

section Instructions

variable {f : Function Label} {id : BlockId} {b : BasicBlock} {position : Nat}

/-- The call of a site, where its code stands in a function. -/
lemma exists_checkedCall {p : Place} {handled : List (Option String)} {live : List Var}
    {call : Emit Unit} (calls : Calls i.defined (AfterCall i) call)
    (outside : p.target.isSplit = false) (q : (site c p handled live call).Placement f) :
    ∃ k : CheckedCall f i.defined p.target, k.IsOf q ∧ AfterCall i k.between := by
  obtain ⟨first, result, callee, arguments, rest, temporary, next, none, after, moved⟩ :=
    site_moves calls outside q.here
  obtain ⟨same, _⟩ := q.moves.cursor.eq_of_cursor moved.cursor
  obtain ⟨resolve, _, has⟩ := q.carries
  obtain ⟨behind, lines⟩ := has _
    (List.mem_append_left _ ((List.append_cancel_left same).symm ▸ List.mem_singleton_self _))
  let g := Line.mapSources (ℓ := Label) resolve
  let before := q.current.lines.map g ++ first.map g
  have eq : f.lines? q.current.label = some (before ++
      .ofCall i.defined result callee arguments ::
        (rest.map g ++ checkLines temporary p.target next ++ behind)) := by
    rw [lines]
    simp only [before, g, List.map_append, List.map_cons, Line.mapSources_ofCall, List.append_assoc,
      List.cons_append]
    rfl
  have le : q.current.lines.length ≤ before.length := by
    rw [List.length_append, List.length_map]
    exact Nat.le_add_right ..
  have alone : (before.drop q.current.lines.length).countP Line.isCall = 0 := by
    rw [← List.length_map g, List.drop_left, countP_isCall_mapSources]
    exact none
  have after := after.mapSources resolve
  exact ⟨⟨_, _, _, _, _, _, _, _, _, eq⟩, ⟨rfl, le, alone, after.countP_isCall⟩, after⟩

/-- An instruction that is a call site is lowered to the site around its code. -/
lemma instruction_site (site : c.isSite i = true) {code : Emit Unit}
    (given : instruction c id b i position = .ok code) : ∃ handled live call,
      siteInstruction c i = .ok call ∧
        code = Lowering.site c (.ofBlock id b) handled live call := by
  rw [instruction, isCallSite_of_isSite site, site] at given
  obtain ⟨handled, _, given⟩ := Except.exists_of_bind_eq_ok given
  obtain ⟨call, called, eq⟩ := Except.exists_of_bind_eq_ok given
  exact ⟨handled, _, call, called, (Except.ok.inj eq).symm⟩

/-- When the call of a call site has failed, nothing is loaded or stored through its result before
the exception has left for the landing pad of the block or out of the function, and it does leave.
The sites that make arrays of references are the exception to this: they store through a result that
is no array, so their code comes to no landing pad. -/
theorem site_spares_result_iff (bound : c.body.blocks.length ≤ UInt32.size) {pools pools' : Pools}
    (lowered : (function c).run pools = .ok (f, pools')) (found : c.body.block? id = some b)
    (instr : b.instructions[position]? = some i) (isSite : c.isSite i = true) :
    ∃ code, instruction c id b i position = .ok code ∧ Nonempty (code.Placement f) ∧
      ∀ p : code.Placement f, ∃ k : CheckedCall f i.defined (Place.ofBlock id b).target,
        k.IsOf p ∧
        Line.accessesThrough (i.defined.toList.map .var) k.guarded = i.makesReferences ∧
        ∀ host s s', k.Fails host s s' →
          ((∃ u, f.Runs host s' u ∧ u.label = (Place.ofBlock id b).target ∧ u.position = 0 ∧
            u.memory = s'.memory) ↔ i.makesReferences = false) := by
  obtain ⟨code, given, placed⟩ := exists_placement bound lowered found instr
  obtain ⟨handled, live, call, called, rfl⟩ := instruction_site isSite given
  have outside : (Place.ofBlock id b).target.isSplit = false := by
    rw [Place.target, Place.ofBlock]
    cases b.isProtected <;> rfl
  refine ⟨_, given, placed, fun p => ?_⟩
  obtain ⟨k, isOf, after⟩ := exists_checkedCall (siteInstruction_calls i call called) outside p
  exact ⟨k, isOf, after.accessesThrough_eq k.temporary _ k.next,
    fun host s s' fails => fails.leaves_iff rfl after⟩

end Instructions

/-- Make a clock and an array for clocks. -/
def stock : Body :=
  { kinds := [.int, .object, .array .object]
    blocks :=
      [{ BasicBlock.empty with
          instructions :=
            [.construct ⟨1⟩ "Clock", .constructArray ⟨2⟩ (.object "Clock") ⟨0⟩]
          terminator := .exit (some ⟨2⟩) }] }

/-- The method of the body. -/
def stockMethod : MethodDef :=
  { waitMethod with
    signature := ⟨"stock", [.primitive .int], .array (.object "Clock")⟩
    body := some stock }

/-- An environment in which one function raises an exception. -/
def raising (raises : RuntimeSymbol) : Host
  | .runtime s, _, m =>
    if s = raises then
      some (some .null, Function.update m pendingAddress (some (.ptr, .address (.object 0))))
    else some (some (.address (.object 1)), m)
  | _, _, _ => none

/-- A memory with nothing on the stack and no exception. -/
def quietMemory : Memory :=
  Function.update (fun a => if a = pendingAddress then some (.ptr, .null) else none)
    (.symbol (.runtime .stackTop)) (some (.ptr, .null))

/-- The state of the function after a number of steps. -/
def stockAfter? (f : Function Label) (raises : RuntimeSymbol) (n : Nat) : Option (State Label) :=
  after? (f.step? (raising raises)) n (.start (f.arguments [.int 3]) quietMemory)

/-- What comes after some steps of the example is a run of it. -/
lemma runs_of_stockAfter? {f : Function Label} {raises : RuntimeSymbol} {n : Nat} {τ : State Label}
    (comes : stockAfter? f raises n = some τ) :
    f.Runs (raising raises) (.start (f.arguments [.int 3]) quietMemory) τ := steps_of_after? comes

/-- If there is no memory for the clock, the exception leaves the function. -/
theorem stock_raises :
    ∃ b f pools code τ, Backend.ofProgram clockProgram .default = .ok b ∧
      (function (.ofBody b clock stockMethod stock)).run .empty = .ok (f, pools) ∧
      instruction (.ofBody b clock stockMethod stock) ⟨0⟩ stock.blocks[0]
        (.construct ⟨1⟩ "Clock") 0 =
        .ok code ∧
      (∀ p : code.Placement f, ∃ k : CheckedCall f (some ⟨1⟩) .unwind, k.IsOf p ∧
        Line.accessesThrough [.var ⟨1⟩] k.guarded = false ∧
        ∀ host s s', k.Fails host s s' →
          ∃ u, f.Runs host s' u ∧ u.label = .unwind ∧ u.position = 0 ∧ u.memory = s'.memory) ∧
      f.Runs (raising .alloc) (.start (f.arguments [.int 3]) quietMemory) τ ∧
      τ.label = .unwind ∧ IsPending τ.memory := by
  have computed : ((Backend.ofProgram clockProgram .default).toOption.bind fun b =>
      ((function (.ofBody b clock stockMethod stock)).run .empty).toOption.bind fun r =>
        (stockAfter? r.1 .alloc 14).map fun τ => (τ.label, τ.memory pendingAddress)) =
          some (.unwind, some (.ptr, .address (.object 0))) := by
    cbv
  obtain ⟨b, built, computed⟩ := Option.bind_eq_some_iff.1 computed
  obtain ⟨⟨f, pools⟩, lowered, computed⟩ := Option.bind_eq_some_iff.1 computed
  obtain ⟨τ, comes, values⟩ := Option.map_eq_some_iff.1 computed
  obtain ⟨left, cell⟩ := Prod.mk.inj values
  have lowered := Except.eq_ok_of_toOption lowered
  have bound : stock.blocks.length ≤ UInt32.size := by decide
  have found : stock.block? ⟨0⟩ = some stock.blocks[0] := rfl
  have instr : stock.blocks[0].instructions[0]? = some (.construct ⟨1⟩ "Clock") := rfl
  obtain ⟨code, given, _, each⟩ :=
    site_spares_result_iff (c := .ofBody b clock stockMethod stock) bound lowered found instr rfl
  refine ⟨b, f, pools, code, τ, Except.eq_ok_of_toOption built, lowered, given, fun p => ?_,
    runs_of_stockAfter? comes, left, _, cell⟩
  obtain ⟨k, isOf, spares, leaves⟩ := each p
  exact ⟨k, isOf, spares, fun host s s' fails => (leaves host s s' fails).2 rfl⟩

/-- If there is no memory for the array, the function goes on to tell null of the class of clocks
before it looks for an exception. -/
theorem stock_tells_null :
    ∃ b f pools τ part, Backend.ofProgram clockProgram .default = .ok b ∧
      (function (.ofBody b clock stockMethod stock)).run .empty = .ok (f, pools) ∧
      f.Runs (raising .allocArray) (.start (f.arguments [.int 3]) quietMemory) τ ∧
      IsPending τ.memory ∧ τ.registers (.var ⟨2⟩) = some .null ∧
      f.line? τ =
        some (.define part (.fieldOf (.runtime .array) (.ofVar ⟨2⟩) [0, itemClassIndex])) ∧
      f.line? (τ.next τ.memory) = some (.run (.store (.ptr (.symbol (.metadata "Clock"))) part)) ∧
      f.step? (raising .allocArray) τ = none := by
  have computed : ((Backend.ofProgram clockProgram .default).toOption.bind fun b =>
      ((function (.ofBody b clock stockMethod stock)).run .empty).toOption.bind fun r =>
        (stockAfter? r.1 .allocArray 17).map fun τ =>
          (τ.memory pendingAddress, τ.registers (.var ⟨2⟩), r.1.line? τ,
            r.1.line? (τ.next τ.memory), (r.1.step? (raising .allocArray) τ).isNone)) =
        some (some (.ptr, .address (.object 0)), some .null,
          some (.define (.register (.temporary 6))
            (.fieldOf (.runtime .array) (.ofVar ⟨2⟩) [0, itemClassIndex])),
          some (.run (.store (.ptr (.symbol (.metadata "Clock"))) (.register (.temporary 6)))),
          true) := by
    cbv
  obtain ⟨b, built, computed⟩ := Option.bind_eq_some_iff.1 computed
  obtain ⟨⟨f, pools⟩, lowered, computed⟩ := Option.bind_eq_some_iff.1 computed
  obtain ⟨τ, comes, values⟩ := Option.map_eq_some_iff.1 computed
  simp only [Prod.mk.injEq, Option.isNone_iff_eq_none] at values
  obtain ⟨cell, null, at', next, stuck⟩ := values
  exact ⟨b, f, pools, τ, _, Except.eq_ok_of_toOption built, Except.eq_ok_of_toOption lowered,
    runs_of_stockAfter? comes, ⟨_, cell⟩, null, at', next, stuck⟩

end Lowering

end ObjectBackend
