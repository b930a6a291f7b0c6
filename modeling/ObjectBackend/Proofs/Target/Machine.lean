import Mathlib.Logic.Function.Basic
import ObjectBackend.Proofs.Simulation
import ObjectBackend.Target.Function

/-!
# Execution

What emitted code does when it runs. A machine is at a line of a block; registers and memory hold
words. Integers are kept as the numbers they mean, and operations work on as many bits as their type
has. Where the behaviour of the code is not defined there is no step, and there is none for reals
either. What functions outside do is up to the environment (`Host`).

A place in memory is known by the way its address comes about. Nothing is assumed about where places
lie, so what has been stored through one name of a place is only found again through that name.
-/

namespace ObjectBackend.Target

/-- The address of a place in memory. -/
inductive Address where
  /-- Data or a function of the module or of its environment. -/
  | symbol (name : Symbol)
  /-- What the environment has allocated. -/
  | object (number : Nat)
  /-- What the running function has allocated for itself. -/
  | frame
  /-- A part of what an address points to, with indices that are counted in a type. -/
  | part (whole : Address) (type : IrType) (indices : List Int)
deriving DecidableEq

/-- What a register or a place in memory holds. -/
inductive Word where
  | int (n : Int)
  | address (a : Address)
  | null
deriving DecidableEq

namespace Word

/-- The word of a truth value. -/
def ofBool (b : Bool) : Word := int b.toInt

/-- The number that a word is. -/
def int? : Word → Option Int
  | int n => some n
  | _ => none

/-- The place that a word points to. -/
def address? : Word → Option Address
  | address a => some a
  | _ => none

end Word

/-- The registers of a running function. -/
abbrev Registers := Local → Option Word

/-- The words in memory, with the types that they are loaded as. -/
abbrev Memory := Address → Option (IrType × Word)

/-- The place where a pending exception is kept. -/
def pendingAddress : Address := .symbol (.runtime .pendingException)

/-- An exception has been raised and not been caught. -/
def IsPending (m : Memory) : Prop := ∃ a, m pendingAddress = some (.ptr, .address a)

/-- What the functions outside do: their results, if they have one, and the memory behind them. -/
abbrev Host := Symbol → List Word → Memory → Option (Option Word × Memory)

/-- The word that a value stands for. -/
def Value.word? (r : Registers) : Value → Option Word
  | register name => r name
  | symbol s => some (.address (.symbol s))
  | int n => some (.int n)
  | bool b => some (.ofBool b)
  | null => some .null
  | part base s indices => some (.address (.part (.symbol s) base (indices.map Int.ofNat)))
  | real _ | zero | undef | offset _ _ | verbatim _ => none

/-- The width of integers of a type. -/
def IrType.intWidth? (type : IrType) : Option Nat := if type.isInteger then type.width? else none

/-- The number that some bits mean; a single one has no sign. -/
def numberOf {w : Nat} (x : BitVec w) : Int := if w = 1 then x.toNat else x.toInt

/-- An operation on bits. A distance beyond the width, a division by zero and one that overflows
have no result. -/
def BinaryOp.bits? {w : Nat} (x y : BitVec w) : BinaryOp → Option (BitVec w)
  | add => some (x + y)
  | sub => some (x - y)
  | mul => some (x * y)
  | sdiv => if y = 0 || x = .intMin w && y = -1 then none else some (x.sdiv y)
  | srem => if y = 0 || x = .intMin w && y = -1 then none else some (x.srem y)
  | and => some (x &&& y)
  | or => some (x ||| y)
  | xor => some (x ^^^ y)
  | shl => if y.toNat < w then some (x <<< y.toNat) else none
  | ashr => if y.toNat < w then some (x.sshiftRight y.toNat) else none
  | lshr => if y.toNat < w then some (x >>> y.toNat) else none
  | fadd | fsub | fmul | fdiv | frem => none

/-- An operation on two numbers of a width. -/
def BinaryOp.eval? (op : BinaryOp) (w : Nat) (a b : Int) : Option Int :=
  (op.bits? (.ofInt w a) (.ofInt w b)).map numberOf

/-- A comparison of two words; only numbers have an order. -/
def Predicate.holds? : Predicate → Word → Word → Option Bool
  | eq, a, b => some (a = b)
  | ne, a, b => some (a ≠ b)
  | slt, .int a, .int b => some (a < b)
  | sle, .int a, .int b => some (a ≤ b)
  | sgt, .int a, .int b => some (b < a)
  | sge, .int a, .int b => some (b ≤ a)
  | _, _, _ => none

/-- A conversion of an integer from one width to another. -/
def CastOp.eval? (op : CastOp) (source target : Nat) (n : Int) : Option Int :=
  match op with
  | trunc | zext => some (numberOf ((BitVec.ofInt source n).setWidth target))
  | sext => some (numberOf ((BitVec.ofInt source n).signExtend target))
  | _ => none

/-- The result of an instruction, if it has one, and the memory behind it. -/
def Instr.run? (host : Host) (r : Registers) (m : Memory) : Instr → Option (Option Word × Memory)
  | binary op type lhs rhs => do
    let a ← (← lhs.word? r).int?
    let b ← (← rhs.word? r).int?
    return (some (.int (← op.eval? (← type.intWidth?) a b)), m)
  | icmp predicate _ lhs rhs => do
    return (some (.ofBool (← predicate.holds? (← lhs.word? r) (← rhs.word? r))), m)
  | cast op operand target => do
    let w ← operand.value.word? r
    if op = .bitcast && operand.type = target then return (some w, m)
    else
      let n ← op.eval? (← operand.type.intWidth?) (← target.intWidth?) (← w.int?)
      return (some (.int n), m)
  | load type address => do
    let (stored, w) ← m (← (← address.word? r).address?)
    if stored = type then return (some w, m) else none
  | store operand address => do
    let w ← operand.value.word? r
    let a ← (← address.word? r).address?
    return (none, Function.update m a (some (operand.type, w)))
  | element base address indices => do
    let a ← (← address.word? r).address?
    let path ← indices.mapM fun i => i.word? r >>= Word.int?
    return (some (.address (.part a base path)), m)
  | call _ callee arguments => do
    let .symbol f ← (← callee.word? r).address? | none
    host f (← arguments.mapM fun o => o.value.word? r) m
  | alloca _ => some (some (.address .frame), m)
  | select condition _ consequent alternative => do
    let n ← (← condition.word? r).int?
    return (some (← (if n = 0 then alternative else consequent).word? r), m)
  | fneg _ _ | fcmp _ _ _ _ => none

/-- The label that a terminator goes to. -/
def Term.target? {ℓ : Type} (r : Registers) : Term ℓ → Option ℓ
  | br target => some target
  | condBr condition consequent alternative => do
    let n ← (← condition.word? r).int?
    return if n = 0 then alternative else consequent
  | switch _ value otherwise cases => do
    let n ← (← value.word? r).int?
    return (cases.lookup n).getD otherwise
  | ret _ | unreachable => none

/-- A machine in the middle of a function. -/
structure State (ℓ : Type) where
  label : ℓ
  /-- The number of lines of the block that have been executed. -/
  position : Nat
  /-- The block that this one has been entered from. -/
  source : Option ℓ
  /-- The registers when the block was entered, from which all its phis read. -/
  entered : Registers
  registers : Registers
  memory : Memory

namespace State

variable {ℓ : Type}

/-- The state in which a function is entered. -/
def start [BlockLabel ℓ] (registers : Registers) (memory : Memory) : State ℓ :=
  { label := BlockLabel.entry, position := 0, source := none, entered := registers, registers
    memory }

/-- The state behind a line that has no result. -/
def next (s : State ℓ) (memory : Memory) : State ℓ := { s with position := s.position + 1, memory }

/-- The state behind a line with a result. -/
def set (s : State ℓ) (receiver : Local) (w : Word) (memory : Memory) : State ℓ :=
  { s.next memory with registers := Function.update s.registers receiver (some w) }

/-- The state at the start of a block that is entered. -/
def enter (s : State ℓ) (target : ℓ) : State ℓ :=
  { s with label := target, position := 0, source := some s.label, entered := s.registers }

end State

variable {ℓ : Type} [DecidableEq ℓ]

/-- The state behind a line. -/
def Line.run? (host : Host) (s : State ℓ) : Line ℓ ℓ → Option (State ℓ)
  | comment _ => some (s.next s.memory)
  | run i => do
    let (_, memory) ← i.run? host s.registers s.memory
    return s.next memory
  | define (.register receiver) i => do
    let (some w, memory) ← i.run? host s.registers s.memory | none
    return s.set receiver w memory
  | phi (.register receiver) _ incomings => do
    let (value, _) ← incomings.find? fun e => some e.2 = s.source
    return s.set receiver (← value.word? s.entered) s.memory
  | leave t => return s.enter (← t.target? s.registers)
  | define _ _ | phi _ _ _ => none

namespace Line

variable {host : Host} {σ : State ℓ} {i : Instr} {m : Memory}

/-- A line with an instruction that succeeds leads on. -/
lemma run?_run {result : Option Word}
    (succeeds : i.run? host σ.registers σ.memory = some (result, m)) :
    (run i : Line ℓ ℓ).run? host σ = some (σ.next m) := by
  change (do let (_, memory) ← i.run? host σ.registers σ.memory; return σ.next memory) = _
  rw [succeeds]
  rfl

/-- A line with an instruction that fails leads nowhere. -/
lemma run?_run_eq_none (fails : i.run? host σ.registers σ.memory = none) :
    (run i : Line ℓ ℓ).run? host σ = none := by
  change (do let (_, memory) ← i.run? host σ.registers σ.memory; return σ.next memory) = _
  rw [fails]
  rfl

/-- A line that defines a register leads on with the result in it. -/
lemma run?_define {receiver : Local} {w : Word}
    (succeeds : i.run? host σ.registers σ.memory = some (some w, m)) :
    (define (.register receiver) i : Line ℓ ℓ).run? host σ = some (σ.set receiver w m) := by
  change (do let (some w, memory) ← i.run? host σ.registers σ.memory | none
             return σ.set receiver w memory) = _
  rw [succeeds]
  rfl

/-- A line that defines a register fails if its instruction does. -/
lemma run?_define_eq_none (receiver : Value)
    (fails : i.run? host σ.registers σ.memory = none) :
    (define receiver i : Line ℓ ℓ).run? host σ = none := by
  cases receiver with
  | register receiver =>
    change (do let (some w, memory) ← i.run? host σ.registers σ.memory | none
               return σ.set receiver w memory) = _
    rw [fails]
    rfl
  | _ => rfl

end Line

namespace Function

/-- The lines of the block with a label. -/
def lines? (f : Function ℓ) (label : ℓ) : Option (List (Line ℓ ℓ)) :=
  (f.blocks.find? (·.label = label)).map Block.lines

/-- The lines at a label are those of a block with the label. -/
lemma mem_blocks_of_lines? {f : Function ℓ} {l : ℓ} {lines : List (Line ℓ ℓ)}
    (found : f.lines? l = some lines) : ∃ b ∈ f.blocks, b.label = l ∧ b.lines = lines := by
  obtain ⟨b, first, eq⟩ := Option.map_eq_some_iff.1 found
  have label := List.find?_some first
  exact ⟨b, List.mem_of_find?_eq_some first, of_decide_eq_true label, eq⟩

/-- Blocks whose labels differ are found by them. -/
lemma lines?_of_mem {f : Function ℓ} (nodup : (f.blocks.map Block.label).Nodup) {b : Block ℓ ℓ}
    (mem : b ∈ f.blocks) : f.lines? b.label = some b.lines := by
  obtain ⟨before, after, eq⟩ := List.append_of_mem mem
  rw [eq, List.map_append] at nodup
  have first : ∀ c ∈ before, ¬ decide (c.label = b.label) = true := by
    intro c memc
    rw [decide_eq_true_eq]
    exact (List.nodup_append.1 nodup).2.2 _ (List.mem_map_of_mem memc) _ (List.mem_cons_self ..)
  rw [lines?, eq, List.find?_append, List.find?_eq_none.2 first, Option.none_or,
    List.find?_cons, decide_eq_true rfl]
  rfl

/-- The line that a machine is at. -/
def line? (f : Function ℓ) (s : State ℓ) : Option (Line ℓ ℓ) := do (← f.lines? s.label)[s.position]?

/-- One step of a machine. -/
def step? (host : Host) (f : Function ℓ) (s : State ℓ) : Option (State ℓ) := do
  (← f.line? s).run? host s

/-- Some steps of a machine. -/
def Runs (host : Host) (f : Function ℓ) : State ℓ → State ℓ → Prop :=
  Relation.ReflTransGen fun s t => f.step? host s = some t

/-- A line that assigns to a register is executed. -/
lemma step?_define {host : Host} {f : Function ℓ} {σ : State ℓ} {receiver : Local} {i : Instr}
    {w : Word} {m : Memory} (at' : f.line? σ = some (.define (.register receiver) i))
    (result : i.run? host σ.registers σ.memory = some (some w, m)) :
    f.step? host σ = some (σ.set receiver w m) := by
  rw [step?, at']
  exact Line.run?_define result

/-- A block is left for the one that its terminator goes to. -/
lemma step?_leave {host : Host} {f : Function ℓ} {σ : State ℓ} {t : Term ℓ} {target : ℓ}
    (at' : f.line? σ = some (.leave t)) (goes : t.target? σ.registers = some target) :
    f.step? host σ = some (σ.enter target) := by
  rw [step?, at']
  change (do return σ.enter (← t.target? σ.registers)) = _
  rw [goes]
  rfl

/-- A phi takes its value for the block that this one has been entered from. -/
lemma step?_phi {host : Host} {f : Function ℓ} {σ : State ℓ} {receiver : Local} {type : IrType}
    {incomings : List (Value × ℓ)} {v : Value} {l : ℓ} {w : Word}
    (at' : f.line? σ = some (.phi (.register receiver) type incomings))
    (taken : incomings.find? (fun e => some e.2 = σ.source) = some (v, l))
    (word : v.word? σ.entered = some w) : f.step? host σ = some (σ.set receiver w σ.memory) := by
  rw [step?, at']
  change (do
    let (value, _) ← incomings.find? fun e : Value × ℓ => some e.2 = σ.source
    return σ.set receiver (← value.word? σ.entered) σ.memory) = _
  rw [taken]
  change (do return σ.set receiver (← v.word? σ.entered) σ.memory) = _
  rw [word]
  rfl

/-- The registers in which a function finds the words that it is called with. -/
def arguments (f : Function ℓ) (words : List Word) : Registers := fun l =>
  ((f.parameters.map (·.value)).zip words).lookup (.register l)

variable [BlockLabel ℓ]

/-- A function that is called with some words returns a word, and it changes the memory. -/
def Returns (host : Host) (f : Function ℓ) (words : List Word) (m : Memory) (w : Word)
    (m' : Memory) : Prop :=
  words.length = f.parameters.length ∧ ∃ σ operand,
    f.Runs host (.start (f.arguments words) m) σ ∧
    f.line? σ = some (.leave (.ret (some operand))) ∧
    operand.value.word? σ.registers = some w ∧ σ.memory = m'

/-- A function returns at most one word. -/
lemma Returns.eq {host : Host} {f : Function ℓ} {words : List Word} {m m₁ m₂ : Memory}
    {w₁ w₂ : Word}
    (first : f.Returns host words m w₁ m₁) (second : f.Returns host words m w₂ m₂) :
    w₁ = w₂ ∧ m₁ = m₂ := by
  obtain ⟨_, σ, o, runs, at', word, rfl⟩ := first
  obtain ⟨_, τ, o', runs', at'', word', rfl⟩ := second
  have ends : ∀ {υ : State ℓ} {o : Operand}, f.line? υ = some (.leave (.ret (some o))) →
      f.step? host υ = none := by
    intro υ o at'
    rw [step?, at']
    rfl
  have same : σ = τ := Steps.eq_of_ends runs runs' (ends at') (ends at'')
  subst same
  obtain rfl : o = o' := by
    have eq := Option.some.inj (at'.symm.trans at'')
    exact Option.some.inj (Term.ret.inj (Line.leave.inj eq))
  exact ⟨Option.some.inj (word.symm.trans word'), rfl⟩

/-- Calls from outside of a function do what the function does. -/
def ProvidedBy (f : Function ℓ) (host : Host) : Prop :=
  ∀ words m w m', f.Returns host words m w m' → host f.name words m = some (some w, m')

end Function

end ObjectBackend.Target
