import ObjectBackend.Image.Start
import ObjectBackend.Proofs.Hierarchy.ParentChain
import ObjectBackend.Proofs.Target.Machine

/-!
# The code of initializers

What an initializer does when it runs. It first looks at the flag of its class, and touches nothing
until it sets the flag (`Program.step_of_checks`). Behind that it calls the initializer of the
parent and the method of the class, if there are such, and returns. Everything that is said of its
registers is about the time before the flag is set, when nothing else can run.
-/

namespace ObjectBackend

open Target

/-- The place of the flags of a class. -/
def flagsAddress (className : String) : Address :=
  .part (.symbol (.metadata className)) (.runtime .header) [0, 1]

/-- Classes with the same flag have the same name. -/
lemma flagsAddress_inj {n n' : String} (eq : flagsAddress n = flagsAddress n') : n = n' := by
  cases eq
  rfl

/-- The flags of a class that has been initialized or has not. -/
def flagsWord (isSet : Bool) : Word := .int (if isSet then initializedFlag else 0)

/-- An environment in which nothing can be called. -/
def silent : Host := fun _ _ _ => none

namespace Target.State

variable {ℓ : Type}

/-- A machine with some memory. -/
def on (σ : State ℓ) (m : Memory) : State ℓ := { σ with memory := m }

/-- A register that is assigned holds the word. -/
lemma registers_set (σ : State ℓ) (receiver : Local) (w : Word) (m : Memory) :
    (σ.set receiver w m).registers receiver = some w := Function.update_self ..

/-- Other registers keep their words when one is assigned. -/
lemma registers_set_of_ne {receiver r : Local} (ne : r ≠ receiver) {σ : State ℓ} {w : Word}
    {m : Memory} : (σ.set receiver w m).registers r = σ.registers r := Function.update_of_ne ne ..

end Target.State

/-- The line that calls a function without parameters. -/
def callLine (s : Symbol) : Line Label Label := .run (.call .void (.symbol s) [])

namespace Target.Function

variable {f : Function Label} {host : Host} {σ : State Label} {m : Memory}

/-- A function goes on if its instruction succeeds. -/
lemma step?_run {i : Instr} {result : Option Word} (here : f.line? σ = some (.run i))
    (succeeds : i.run? host σ.registers σ.memory = some (result, m)) :
    f.step? host σ = some (σ.next m) := by
  rw [Function.step?, here]
  exact Line.run?_run succeeds

/-- A call is not a step of the initializer alone, and neither is its return. -/
lemma step?_call {s : Symbol} (here : f.line? σ = some (callLine s)) (m : Memory) :
    f.step? silent (σ.on m) = none := by
  have here : f.line? (σ.on m) = some (callLine s) := here
  rw [Function.step?, here]
  rfl

/-- A function that returns makes no more steps. -/
lemma step?_return {o : Option Target.Operand} (here : f.line? σ = some (.leave (.ret o)))
    (m : Memory) : f.step? silent (σ.on m) = none := by
  have here : f.line? (σ.on m) = some (.leave (.ret o)) := here
  rw [Function.step?, here]
  rfl

end Target.Function

namespace Program

variable {p : Program} {c : ClassDef} {σ σ' : State Label} {m : Memory} {isSet : Bool}

/-- The functions that an initializer calls: the initializer of the parent and the method of the
class. -/
def initializerCalls (p : Program) (c : ClassDef) : List Symbol :=
  ((c.parentName.filter p.needsInitialization).map Symbol.initializer).toList
    ++ (c.initializer?.map fun m => Symbol.method (c.reference m)).toList

/-- The lines with which an initializer looks at the flag. -/
def checkLines (c : ClassDef) : List (Line Label Label) :=
  [.define (.register (.temporary 0))
      (.load .i32 (.part (.runtime .header) (.metadata c.name) [0, 1])),
    .define (.register (.temporary 1))
      (.binary .and .i32 (.register (.temporary 0)) (.int initializedFlag)),
    .define (.register (.temporary 2)) (.icmp .ne .i32 (.register (.temporary 1)) (.int 0)),
    .leave (.condBr (.register (.temporary 2)) .exit .init)]

/-- The lines with which it sets the flag. -/
def markLines (c : ClassDef) : List (Line Label Label) :=
  [.define (.register (.temporary 3))
      (.binary .or .i32 (.register (.temporary 0)) (.int initializedFlag)),
    .run (.store ⟨.i32, .register (.temporary 3)⟩
      (.part (.runtime .header) (.metadata c.name) [0, 1]))]

/-- The lines with which it makes some calls and returns. -/
def callLines (symbols : List Symbol) : List (Line Label Label) :=
  symbols.map callLine ++ [.leave (.br .exit)]

/-- The lines of the block that checks the flag. -/
lemma lines?_entry : (p.initializer c).lines? .entry = some (checkLines c) := rfl

/-- The lines of the block that sets the flag and makes the calls. -/
lemma lines?_init :
    (p.initializer c).lines? .init = some (markLines c ++ callLines (p.initializerCalls c)) := by
  change some _ = some _
  rw [callLines, initializerCalls, List.map_append, ← List.append_assoc, ← List.append_assoc]
  cases c.parentName.filter p.needsInitialization <;> cases c.initializer? <;> rfl

/-- The line of the block that returns. -/
lemma lines?_exit : (p.initializer c).lines? .exit = some [.leave (.ret none)] := rfl

/-- Where an initializer can be before it has set the flag, and what its registers hold there. -/
inductive Checks (isSet : Bool) : State Label → Prop
  | load {σ : State Label} : σ.label = .entry → σ.position = 0 → Checks isSet σ
  | mask {σ : State Label} : σ.label = .entry → σ.position = 1 →
      σ.registers (.temporary 0) = some (flagsWord isSet) → Checks isSet σ
  | compare {σ : State Label} : σ.label = .entry → σ.position = 2 →
      σ.registers (.temporary 0) = some (flagsWord isSet) →
      σ.registers (.temporary 1) = some (flagsWord isSet) → Checks isSet σ
  | branch {σ : State Label} : σ.label = .entry → σ.position = 3 →
      σ.registers (.temporary 0) = some (flagsWord isSet) →
      σ.registers (.temporary 2) = some (.ofBool isSet) → Checks isSet σ
  | combine {σ : State Label} : σ.label = .init → σ.position = 0 → isSet = false →
      σ.registers (.temporary 0) = some (flagsWord false) → Checks isSet σ
  | store {σ : State Label} : σ.label = .init → σ.position = 1 → isSet = false →
      σ.registers (.temporary 3) = some (flagsWord true) → Checks isSet σ

/-- An initializer has set the flag and made some of its calls. -/
structure Calls (p : Program) (c : ClassDef) (σ : State Label) (made rest : List Symbol) :
    Prop where
  calls : p.initializerCalls c = made ++ rest
  label : σ.label = .init
  position : σ.position = 2 + made.length

/-- An initializer is about to return. -/
def Returns (σ : State Label) : Prop := σ.label = .exit ∧ σ.position = 0

/-- The calls are those of the parent's initializer and of the class's method. -/
lemma mem_initializerCalls {x : Symbol} : x ∈ p.initializerCalls c ↔
    (∃ n, c.parentName.filter p.needsInitialization = some n ∧ x = .initializer n) ∨
      ∃ m, c.initializer? = some m ∧ x = .method (c.reference m) := by
  rw [initializerCalls, List.mem_append, Option.mem_toList, Option.mem_toList,
    Option.map_eq_some_iff, Option.map_eq_some_iff]
  simp only [eq_comm (b := x)]

/-- An initializer makes two calls at most. -/
lemma length_initializerCalls_le (p : Program) (c : ClassDef) :
    (p.initializerCalls c).length ≤ 2 := by
  rw [initializerCalls]
  cases c.parentName.filter p.needsInitialization <;> cases c.initializer? <;> simp

section Lines

variable {made rest : List Symbol} {s : Symbol}

/-- The line an initializer is at is one of the block it is in. -/
lemma line?_of_label {lines : List (Line Label Label)} {l : Label}
    (block : (p.initializer c).lines? l = some lines) (label : σ.label = l) :
    (p.initializer c).line? σ = lines[σ.position]? := by
  rw [Function.line?, label, block]
  rfl

/-- Among the calls the initializer is in front of those that are still to be made. -/
lemma line?_eq_getElem?_callLines (calls : Calls p c σ made rest) :
    (p.initializer c).line? σ = (callLines rest)[0]? := by
  rw [line?_of_label lines?_init calls.label, calls.position, calls.calls, callLines,
    List.map_append, List.append_assoc, List.getElem?_append_right (Nat.le_add_right 2 made.length)]
  have passed : 2 + made.length - (markLines c).length = (made.map callLine).length := by
    rw [List.length_map]
    exact Nat.add_sub_cancel_left 2 made.length
  rw [passed, List.getElem?_append_right (Nat.le_refl _), Nat.sub_self, callLines]

/-- The line of a call that is still to be made. -/
lemma line?_of_calls (calls : Calls p c σ made (s :: rest)) :
    (p.initializer c).line? σ = some (callLine s) :=
  line?_eq_getElem?_callLines calls

/-- The line behind the last call. -/
lemma line?_of_calls_nil (calls : Calls p c σ made []) :
    (p.initializer c).line? σ = some (.leave (.br .exit)) :=
  line?_eq_getElem?_callLines calls

/-- An initializer that is about to return is at the line that does. -/
lemma line?_of_returns (returns : Returns σ) :
    (p.initializer c).line? σ = some (.leave (.ret none)) := by
  rw [line?_of_label lines?_exit returns.1, returns.2]
  rfl

/-- Behind a call the initializer goes on with the next one. -/
lemma Calls.next (calls : Calls p c σ made (s :: rest)) (m : Memory) :
    Calls p c (σ.next m) (made ++ [s]) rest where
  calls := by rw [calls.calls, List.append_assoc]; rfl
  label := calls.label
  position := by
    rw [State.next, calls.position, List.length_append]
    rfl

/-- The method of the class is called last. -/
lemma Calls.of_method {r : MethodRef} (calls : Calls p c σ made (.method r :: rest)) :
    rest = [] ∧ ∃ m, c.initializer? = some m ∧ r = c.reference m := by
  have eq := calls.calls
  rw [initializerCalls] at eq
  generalize c.parentName.filter p.needsInitialization = parent at eq
  generalize c.initializer? = own at eq ⊢
  cases parent <;> cases own <;> cases made with
  | nil => simp_all
  | cons first made => cases made <;> simp_all

end Lines

/-- How much of an initializer is ahead; a call counts for more than a whole initializer that finds
its flag set. -/
def ahead (σ : State Label) : Nat :=
  match σ.label with
  | .entry => 8 - σ.position
  | .init => if σ.position < 2 then 4 - σ.position else 10 * (4 - σ.position) + 2
  | _ => 1

section Steps

/-- Masking the flags leaves what they are. -/
lemma eval?_and : BinaryOp.and.eval? 32 (if isSet then initializedFlag else 0) initializedFlag =
    some (if isSet then initializedFlag else 0) := by
  cases isSet <;> rfl

/-- Setting the bit of a cleared flag leaves that bit. -/
lemma eval?_or : BinaryOp.or.eval? 32 0 initializedFlag = some initializedFlag := rfl

/-- How much is ahead of an initializer that has made some of its calls. -/
lemma Calls.ahead_eq {made rest : List Symbol} (calls : Calls p c σ made rest) :
    ahead σ = 10 * (2 - made.length) + 2 := by
  have behind : ¬ σ.position < 2 := by
    rw [calls.position]
    omega
  simp only [ahead, calls.label, if_neg behind]
  rw [calls.position]
  omega

/-- An initializer that has a call to make has made one at most. -/
lemma Calls.length_lt {made rest : List Symbol} {x : Symbol}
    (calls : Calls p c σ made (x :: rest)) : made.length < 2 := by
  have le := length_initializerCalls_le p c
  rw [calls.calls, List.length_append, List.length_cons] at le
  omega

/-- One line is ahead of an initializer that is about to return. -/
lemma Returns.ahead_eq (returns : Returns σ) : ahead σ = 1 := by
  simp only [ahead, returns.1]

/-- Before the flag is set, an initializer looks at it, and either leaves everything as it is and
gets on, or sets the flag and comes to its calls. -/
lemma step_of_checks (flags : m (flagsAddress c.name) = some (.i32, flagsWord isSet))
    (checks : Checks isSet σ) :
    ∃ σ', (p.initializer c).step? silent (σ.on m) = some σ' ∧
      ((σ'.memory = m ∧ ahead σ' < ahead σ ∧ (Checks isSet σ' ∨ isSet = true ∧ Returns σ')) ∨
        isSet = false ∧
          σ'.memory = Function.update m (flagsAddress c.name) (some (.i32, flagsWord true)) ∧
          Calls p c σ' [] (p.initializerCalls c)) := by
  -- every line but the branch moves on within its block, and `ahead` counts such lines down
  have gets_on {σ' : State Label} {i : Nat} (same : σ'.label = σ.label) (position : σ.position = i)
      (next : σ'.position = σ.position + 1)
      (early : σ.label = .entry ∧ i < 3 ∨ σ.label = .init ∧ i < 1) : ahead σ' < ahead σ := by
    rcases early with ⟨label, lt⟩ | ⟨label, lt⟩
    · simp only [ahead, same, label, next, position]
      omega
    · obtain rfl : i = 0 := by omega
      simp only [ahead, same, label, next, position]
      decide
  have line {l : Label} {lines : List (Line Label Label)} {i : Nat} (label : σ.label = l)
      (block : (p.initializer c).lines? l = some lines) (position : σ.position = i) :
      (p.initializer c).line? (σ.on m) = lines[i]? :=
    (line?_of_label block label).trans (congrArg (lines[·]?) position)
  cases checks with
  | load label position =>
    have loads : (Instr.load .i32 (.part (.runtime .header) (.metadata c.name) [0, 1])).run? silent
        σ.registers m = some (some (flagsWord isSet), m) := by
      change (m (flagsAddress c.name)).bind (fun e =>
        if e.1 = IrType.i32 then some (some e.2, m) else none) = _
      rw [flags]
      rfl
    refine ⟨_, Function.step?_define (line label lines?_entry position) loads,
      .inl ⟨rfl, gets_on rfl position rfl (.inl ⟨label, by decide⟩), .inl ?_⟩⟩
    exact .mask label (congrArg (· + 1) position) (State.registers_set ..)
  | mask label position first =>
    have masks : (Instr.binary .and .i32 (.register (.temporary 0)) (.int initializedFlag)).run?
        silent σ.registers m = some (some (flagsWord isSet), m) := by
      simp [Instr.run?, Value.word?, first, flagsWord, Word.int?, IrType.intWidth?,
        IrType.isInteger, IrType.width?, eval?_and]
    refine ⟨_, Function.step?_define (line label lines?_entry position) masks,
      .inl ⟨rfl, gets_on rfl position rfl (.inl ⟨label, by decide⟩), .inl ?_⟩⟩
    refine .compare label (congrArg (· + 1) position) ?_ (State.registers_set ..)
    rw [State.registers_set_of_ne (by decide)]
    exact first
  | compare label position first second =>
    have compares : (Instr.icmp .ne .i32 (.register (.temporary 1)) (.int 0)).run? silent
        σ.registers m = some (some (.ofBool isSet), m) := by
      simp only [Instr.run?, Value.word?, second]
      cases isSet <;> rfl
    refine ⟨_, Function.step?_define (line label lines?_entry position) compares,
      .inl ⟨rfl, gets_on rfl position rfl (.inl ⟨label, by decide⟩), .inl ?_⟩⟩
    refine .branch label (congrArg (· + 1) position) ?_ (State.registers_set ..)
    rw [State.registers_set_of_ne (by decide)]
    exact first
  | branch label position first second =>
    have goes : (Term.condBr (.register (.temporary 2)) Label.exit Label.init).target?
        σ.registers = some (if isSet then .exit else .init) := by
      simp only [Term.target?, Value.word?, second]
      cases isSet <;> rfl
    refine ⟨_, Function.step?_leave (line label lines?_entry position) goes, .inl ⟨rfl, ?_⟩⟩
    have five : ahead σ = 5 := by simp only [ahead, label, position]
    rw [five]
    cases isSet with
    | true => exact ⟨show 1 < 5 by decide, .inr ⟨rfl, rfl, rfl⟩⟩
    | false => exact ⟨show 4 < 5 by decide, .inl (.combine rfl rfl rfl first)⟩
  | combine label position unset first =>
    subst unset
    have combines : (Instr.binary .or .i32 (.register (.temporary 0)) (.int initializedFlag)).run?
        silent σ.registers m = some (some (flagsWord true), m) := by
      simp [Instr.run?, Value.word?, first, flagsWord, Word.int?, IrType.intWidth?,
        IrType.isInteger, IrType.width?, eval?_or]
    refine ⟨_, Function.step?_define (line label lines?_init position) combines,
      .inl ⟨rfl, gets_on rfl position rfl (.inr ⟨label, by decide⟩), .inl ?_⟩⟩
    exact .store label (congrArg (· + 1) position) rfl (State.registers_set ..)
  | store label position unset first =>
    -- the only one of these lines that changes the memory
    have stores : (Instr.store ⟨.i32, .register (.temporary 3)⟩
        (.part (.runtime .header) (.metadata c.name) [0, 1])).run? silent σ.registers m =
          some (none, Function.update m (flagsAddress c.name) (some (.i32, flagsWord true))) := by
      simp only [Instr.run?, Value.word?, first]
      rfl
    refine ⟨_, Function.step?_run (line label lines?_init position) stores, .inr ⟨unset, rfl, ?_⟩⟩
    exact ⟨rfl, label, congrArg (· + 1) position⟩

end Steps

end Program

end ObjectBackend
