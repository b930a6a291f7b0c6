import ObjectBackend.Proofs.Flow.Handlers
import ObjectBackend.Proofs.Simulation

/-!
# Execution of bodies

What a body does when it runs. Only what needs no objects, no calls and no exceptions is executed:
integers are computed with and compared, other values are moved about, and references are told apart
(`Body.IsArithmetic`). Integers wrap around, and the distance of a shift counts modulo the width of
the shifted number. All phis of a block take their values at once, on the edge by which the block is
entered.
-/

namespace ObjectBackend

open Floating (Binary32 Binary64)

/-- What a variable holds. References are of any type. -/
inductive Scalar (ρ : Type) where
  | int (n : BitVec 32)
  | long (n : BitVec 64)
  | float (x : Binary32)
  | double (x : Binary64)
  | reference (object? : Option ρ)
deriving DecidableEq

/-- The variables that have been assigned, with what they hold. -/
abbrev Values (ρ : Type) := Var → Option (Scalar ρ)

variable {ρ : Type} {w : Nat}

/-- A value is one of a kind. -/
def Scalar.HasKind : Scalar ρ → Kind → Prop
  | int _, .int | long _, .long | float _, .float | double _, .double => True
  | reference _, kind => kind.isReference = true
  | _, _ => False

section Numbers

/-- Minus one, zero or one, as one number is less than, equal to or greater than another one. -/
def order (a b : BitVec w) : BitVec 32 :=
  if a.toInt < b.toInt then -1 else if b.toInt < a.toInt then 1 else 0

namespace BinaryOperator

/-- The result of an operator on two numbers of one width. A division may fail and is not computed.
-/
def number? (a b : BitVec w) : BinaryOperator → Option (BitVec w)
  | add => some (a + b)
  | subtract => some (a - b)
  | multiply => some (a * b)
  | and => some (a &&& b)
  | or => some (a ||| b)
  | xor => some (a ^^^ b)
  | divide | modulo | compare | shiftLeft | shiftRight | shiftRightUnsigned => none

/-- The result of a shift. -/
def shifted? (a : BitVec w) (distance : BitVec 32) : BinaryOperator → Option (BitVec w)
  | shiftLeft => some (a <<< (distance.toNat % w))
  | shiftRight => some (a.sshiftRight (distance.toNat % w))
  | shiftRightUnsigned => some (a >>> (distance.toNat % w))
  | _ => none

/-- The result of an operator. -/
def result? (operator : BinaryOperator) (operand : Numeric) (x y : Scalar ρ) : Option (Scalar ρ) :=
  match operand, x, y with
  | .int, .int a, .int b =>
    if operator = compare then some (.int (order a b))
    else ((operator.number? a b).or (operator.shifted? a b)).map .int
  | .long, .long a, .long b =>
    if operator = compare then some (.int (order a b)) else (operator.number? a b).map .long
  | .long, .long a, .int b => (operator.shifted? a b).map .long
  | _, _, _ => none

end BinaryOperator

namespace Numeric

/-- The negative of a number of a type. -/
def negative? : Numeric → Scalar ρ → Option (Scalar ρ)
  | int, .int n => some (.int (-n))
  | long, .long n => some (.long (-n))
  | _, _ => none

/-- A number of one type as a number of another one. -/
def converted? : Numeric → Numeric → Scalar ρ → Option (Scalar ρ)
  | int, int, .int n => some (.int n)
  | int, long, .int n => some (.long (n.signExtend 64))
  | long, int, .long n => some (.int (n.setWidth 32))
  | long, long, .long n => some (.long n)
  | _, _, _ => none

end Numeric

/-- The short integer that is held for a number: its low bits, extended again. -/
def Subword.narrowed (n : BitVec 32) : Subword → BitVec 32
  | byte => (n.setWidth 8).signExtend 32
  | short => (n.setWidth 16).signExtend 32
  | char => (n.setWidth 16).setWidth 32

end Numbers

namespace Instruction

/-- The value that an instruction computes. -/
def value? (values : Values ρ) : Instruction → Option (Scalar ρ)
  | intConstant _ value => some (.int value.toBitVec)
  | longConstant _ value => some (.long value.toBitVec)
  | binary operator _ first second operand => do
    operator.result? operand (← values first) (← values second)
  | negate _ operand type => do type.negative? (← values operand)
  | assign _ assignee => values assignee
  | numericCast _ value source target => do source.converted? target (← values value)
  | integerCast _ value subword _ => do
    let .int n ← values value | none
    return .int (subword.narrowed n)
  | _ => none

/-- The values behind an instruction. -/
def execute? (values : Values ρ) (i : Instruction) : Option (Values ρ) :=
  if i = nop then some values
  else do return Function.update values (← i.defined) (some (← i.value? values))

/-- Whether an instruction only computes with integers or moves a value. -/
def isArithmetic : Instruction → Bool
  | nop | intConstant .. | longConstant .. | assign .. | integerCast .. => true
  | binary operator _ _ _ operand =>
    operator ≠ .divide && operator ≠ .modulo && !operand.isFloating
  | negate _ _ type => !type.isFloating
  | numericCast _ _ source target => !source.isFloating && !target.isFloating
  | _ => false

/-- Arithmetic is no call site. -/
lemma isCallSite_of_isArithmetic {i : Instruction} (arithmetic : i.isArithmetic = true) :
    i.isCallSite = false := by
  cases i with
  | _ => first | rfl | cases arithmetic

end Instruction

/-- Whether a value passes a test against zero or null. References have no order. -/
def BranchCondition.holds? : BranchCondition → Scalar ρ → Option Bool
  | condition, .int n => ofNumber? n.toInt condition
  | condition, .long n => ofNumber? n.toInt condition
  | equal, .reference object? | null, .reference object? => some object?.isNone
  | notEqual, .reference object? | notNull, .reference object? => some object?.isSome
  | _, _ => none
where
  /-- Whether a number passes a test against zero. -/
  ofNumber? (n : Int) : BranchCondition → Option Bool
  | equal => some (n = 0)
  | notEqual => some (n ≠ 0)
  | less => some (n < 0)
  | lessOrEqual => some (n ≤ 0)
  | greater => some (0 < n)
  | greaterOrEqual => some (0 ≤ n)
  | null | notNull => none

section References

variable [DecidableEq ρ]

/-- Whether two values pass a test. -/
def BinaryBranchCondition.holds? : BinaryBranchCondition → Scalar ρ → Scalar ρ → Option Bool
  | equal, .int a, .int b => some (a = b)
  | equal, .long a, .long b => some (a = b)
  | notEqual, .int a, .int b => some (a ≠ b)
  | notEqual, .long a, .long b => some (a ≠ b)
  | referenceEqual, .reference a, .reference b => some (a = b)
  | referenceNotEqual, .reference a, .reference b => some (a ≠ b)
  | _, _, _ => none

namespace Terminator

/-- The block that a terminator goes to. A switch goes to the target of the first key that equals
the number. -/
def target? (values : Values ρ) : Terminator → Option BlockId
  | jump target => some target
  | branch condition operand consequent alternative => do
    return if ← condition.holds? (← values operand) then consequent else alternative
  | binaryBranch condition first second consequent alternative => do
    return if ← condition.holds? (← values first) (← values second) then consequent
      else alternative
  | switch condition table otherwise => do
    let .int n ← values condition | none
    return ((table.find? (·.1.toBitVec = n)).map (·.2)).getD otherwise
  | exit _ | raise _ | unreachable => none

/-- Whether a terminator goes to another block or returns a value. The keys of a switch differ. -/
def isArithmetic : Terminator → Bool
  | jump _ | branch .. | binaryBranch .. | exit (some _) => true
  | switch _ table _ => (table.map (·.1)).Nodup
  | exit none | raise _ | unreachable => false

end Terminator

/-- The value of a phi on an edge from a block. -/
def Phi.value? (phi : Phi) (source : BlockId) (values : Values ρ) : Option (Scalar ρ) := do
  values (← phi.incomings.find? (·.source = source)).value

/-- The values behind some phis, each of which takes its value from those before all of them. -/
def enter? (source : BlockId) (values : Values ρ) : List Phi → Values ρ → Option (Values ρ)
  | [], entered => some entered
  | phi :: phis, entered => do
    let d ← phi.value? source values
    enter? source values phis (Function.update entered phi.receiver (some d))

/-- A body in the middle of its execution. -/
structure Activation (ρ : Type) where
  point : Point
  values : Values ρ

namespace Body

/-- The execution of a body with some arguments starts at its entry. The parameters are the first
variables. -/
def start (arguments : List (Scalar ρ)) : Activation ρ :=
  { point := ⟨.entry, 0⟩, values := fun v => arguments[v.index]? }

/-- One step of execution: over an instruction, or to another block and over its phis. -/
def step? (b : Body) (a : Activation ρ) : Option (Activation ρ) := do
  let block ← b.block? a.point.block
  match block.instructions[a.point.position]? with
  | some i => return { a with
      point := ⟨a.point.block, a.point.position + 1⟩, values := ← i.execute? a.values }
  | none =>
    let target ← block.terminator.target? a.values
    let next ← b.block? target
    return { point := ⟨target, 0⟩, values := ← enter? a.point.block a.values next.phis a.values }

/-- The value that a body returns where it is. -/
def result? (b : Body) (a : Activation ρ) : Option (Scalar ρ) := do
  let block ← b.block? a.point.block
  match block.instructions[a.point.position]?, block.terminator with
  | none, .exit (some v) => a.values v
  | _, _ => none

/-- A body returns a value for some arguments. -/
def Returns (b : Body) (arguments : List (Scalar ρ)) (result : Scalar ρ) : Prop :=
  ∃ a, Steps b.step? (start arguments) a ∧ b.result? a = some result

variable {b : Body} {a : Activation ρ} {block : BasicBlock} {values : Values ρ}

/-- A body goes on to the next instruction if the one it is at executes. -/
lemma step?_next {i : Instruction} (found : b.block? a.point.block = some block)
    (instr : block.instructions[a.point.position]? = some i)
    (executes : i.execute? a.values = some values) :
    b.step? a = some ⟨⟨a.point.block, a.point.position + 1⟩, values⟩ := by
  simp [step?, found, instr, executes]

/-- A body goes on in the block that its terminator leads to, if the phis there can be entered. -/
lemma step?_exit {target : BlockId} {next : BasicBlock}
    (found : b.block? a.point.block = some block)
    (atEnd : a.point.position = block.instructions.length)
    (goes : block.terminator.target? a.values = some target) (found' : b.block? target = some next)
    (enters : enter? a.point.block a.values next.phis a.values = some values) :
    b.step? a = some ⟨⟨target, 0⟩, values⟩ := by
  simp [step?, found, atEnd, goes, found', enters]

end Body

end References

/-- A body that exits with a variable returns what the variable holds. -/
lemma Body.result?_exit {b : Body} {a : Activation ρ} {block : BasicBlock} {v : Var}
    (found : b.block? a.point.block = some block)
    (atEnd : a.point.position = block.instructions.length)
    (exits : block.terminator = .exit (some v)) : b.result? a = a.values v := by
  simp [result?, found, atEnd, exits]

namespace Body

variable [DecidableEq ρ] {b : Body} {args : List (Scalar ρ)} {a : Activation ρ} {d d' : Scalar ρ}

/-- Where a value is returned, there is nothing left to execute. -/
lemma step?_eq_none (result : b.result? a = some d) : b.step? a = none := by
  obtain ⟨block, found, result⟩ := Option.bind_eq_some_iff.1 result
  split at result
  case h_1 v atEnd exits => simp [step?, found, atEnd, exits, Terminator.target?]
  case h_2 => cases result

/-- A body returns at most one value, -/
lemma Returns.eq (first : b.Returns args d) (second : b.Returns args d') : d = d' := by
  obtain ⟨a, steps, result⟩ := first
  obtain ⟨a', steps', result'⟩ := second
  obtain rfl := Steps.eq_of_ends steps steps' (step?_eq_none result) (step?_eq_none result')
  exact Option.some.inj (result.symm.trans result')

/-- and if it does, it does not run forever. -/
lemma Returns.ends (returns : b.Returns args d) : ¬ NeverEnds b.step? (start args) := by
  obtain ⟨a, steps, result⟩ := returns
  intro ends
  obtain ⟨_, next⟩ := ends a steps
  cases (step?_eq_none result).symm.trans next

end Body

/-- A variable that is assigned a value keeps holding one. -/
lemma exists_update {values : Values ρ} {u v : Var} (d : Scalar ρ)
    (holds : ∃ d, values u = some d) : ∃ d', Function.update values v (some d) u = some d' := by
  by_cases eq : u = v
  · rw [eq, Function.update_self]
    exact ⟨d, rfl⟩
  · rw [Function.update_of_ne eq]
    exact holds

/-- Phis that have values can be entered. Their receivers hold values then, and so does whatever
held one before. -/
lemma exists_enter? {source : BlockId} {values entered : Values ρ} {phis : List Phi}
    (given : ∀ phi ∈ phis, ∃ d, phi.value? source values = some d) :
    ∃ entered', enter? source values phis entered = some entered' ∧
      (∀ v, (∃ d, entered v = some d) → ∃ d, entered' v = some d) ∧
      ∀ phi ∈ phis, ∃ d, entered' phi.receiver = some d := by
  induction phis generalizing entered with
  | nil => exact ⟨entered, rfl, fun _ holds => holds, List.forall_mem_nil _⟩
  | cons phi phis ih =>
    obtain ⟨⟨d, first⟩, others⟩ := List.forall_mem_cons.1 given
    obtain ⟨entered', enters, kept, hold⟩ :=
      @ih (Function.update entered phi.receiver (some d)) others
    refine ⟨entered', ?_, fun v holds => kept v (exists_update d holds), ?_⟩
    · rw [enter?, first]
      exact enters
    · exact List.forall_mem_cons.2 ⟨kept _ ⟨d, Function.update_self ..⟩, hold⟩

/-- There is a way through a body to where it is executed, and the variables that are written on it
hold values. -/
def Activation.Reached (b : Body) (parameters : List Var) (a : Activation ρ) : Prop :=
  ∃ written, b.Run parameters written a.point ∧ ∀ v ∈ written, ∃ d, a.values v = some d

namespace Activation.Reached

variable {b : Body} {parameters new : List Var} {a a' : Activation ρ} {v : Var}

/-- What is read holds a value. -/
lemma reads (reached : a.Reached b parameters) (strict : b.StrictSsa parameters)
    (reads : b.Reads a.point v) : ∃ d, a.values v = some d := by
  obtain ⟨written, run, hold⟩ := reached
  exact hold v (strict.reads run reads)

/-- What a phi takes holds a value. -/
lemma takes (reached : a.Reached b parameters) (strict : b.StrictSsa parameters) {target : BlockId}
    (exit : b.Exit a.point target) (takes : b.Takes a.point.block target v) :
    ∃ d, a.values v = some d := by
  obtain ⟨written, run, hold⟩ := reached
  exact hold v (strict.takes run exit takes)

/-- A step leads from a place that can be reached with values to another one. -/
lemma step (reached : a.Reached b parameters) (step : b.Step a.point new a'.point)
    (kept : ∀ v, (∃ d, a.values v = some d) → ∃ d, a'.values v = some d)
    (hold : ∀ v ∈ new, ∃ d, a'.values v = some d) : a'.Reached b parameters := by
  obtain ⟨written, run, holds⟩ := reached
  exact ⟨written ++ new, run.step step,
    List.forall_mem_append.2 ⟨fun v mem => kept v (holds v mem), hold⟩⟩

end Activation.Reached

/-- A body that only computes with integers. It is not entered through phis, nothing in it is
protected by handlers, so no block receives an exception, it returns a value, and its phis have a
value for each predecessor. -/
structure Body.IsArithmetic (b : Body) : Prop where
  entry : ∀ block, b.block? .entry = some block → block.phis = []
  unprotected : ∀ block ∈ b.blocks, block.tryCatches = [] ∧ block.exceptionVariable = none
  instructions : ∀ block ∈ b.blocks, ∀ i ∈ block.instructions, i.isArithmetic = true
  terminators : ∀ block ∈ b.blocks, block.terminator.isArithmetic = true
  covered : ∀ e ∈ b.numberedBlocks, ∀ phi ∈ e.2.phis, ∀ source ∈ b.predecessors e.1,
    source ∈ phi.incomings.map (·.source)

end ObjectBackend
