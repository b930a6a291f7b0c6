import ObjectBackend.Target.Function

/-!
# Functions under construction

A draft is a function with a current block, to which lines are appended. Blocks are appended at the
end or inserted after the current one, when a source block is split; temporaries and splits are
numbered. The last block of each source block is recorded, and finishing a draft puts these labels
where phis name source blocks.
-/

namespace ObjectBackend.Target

/-- Where the value of a phi comes from. -/
inductive Source (ℓ : Type) where
  | label (label : ℓ)
  /-- The last block of a source block. -/
  | block (block : BlockId)
deriving DecidableEq

/-- A function under construction. -/
structure Draft (ℓ : Type) where
  name : Symbol
  result : IrType
  parameters : List Operand
  blocks : List (Block ℓ (Source ℓ))
  current : Nat
  nextTemporary : Nat
  nextSplit : Nat
  lastBlocks : List (BlockId × ℓ)

namespace Draft

variable {ℓ : Type} [BlockLabel ℓ]

/-- A function with an empty first block. -/
def start (name : Symbol) (result : IrType) (parameters : List Operand) : Draft ℓ :=
  { name, result, parameters
    blocks := [{ label := BlockLabel.entry, lines := [] }]
    current := 0
    nextTemporary := 0
    nextSplit := 0
    lastBlocks := [] }

/-- The block that lines are appended to. -/
def currentBlock? (d : Draft ℓ) : Option (Block ℓ (Source ℓ)) := d.blocks[d.current]?

/-- The label of the current block. -/
def currentLabel (d : Draft ℓ) : ℓ := (d.currentBlock?.map (·.label)).getD BlockLabel.entry

/-- Whether the current block has been left. -/
def isTerminated (d : Draft ℓ) : Bool := d.currentBlock?.any Block.isTerminated

/-- Append an empty block at the end. -/
def appendBlock (d : Draft ℓ) (label : ℓ) : Draft ℓ :=
  { d with blocks := d.blocks ++ [{ label, lines := [] }] }

/-- Insert an empty block after the current one. -/
def insertBlock (d : Draft ℓ) (label : ℓ) : Draft ℓ :=
  { d with
    blocks := d.blocks.insertIdx (min (d.current + 1) d.blocks.length) { label, lines := [] } }

/-- Insert an empty block after the current one, under a label with a new number. -/
def split (d : Draft ℓ) (label : Nat → ℓ) : ℓ × Draft ℓ :=
  (label d.nextSplit, { d.insertBlock (label d.nextSplit) with nextSplit := d.nextSplit + 1 })

/-- Whether there is a block with a label. -/
def hasBlock [DecidableEq ℓ] (d : Draft ℓ) (label : ℓ) : Bool := d.blocks.any (·.label = label)

/-- Go on in the first block with a label, if there is one. -/
def goTo [DecidableEq ℓ] (d : Draft ℓ) (label : ℓ) : Draft ℓ :=
  match d.blocks.findIdx? (·.label = label) with
  | some i => { d with current := i }
  | none => d

/-- Record the current block as the last one of a source block. -/
def finishBlock (d : Draft ℓ) (block : BlockId) : Draft ℓ :=
  { d with lastBlocks := (block, d.currentLabel) :: d.lastBlocks }

/-- A new temporary. -/
def fresh (d : Draft ℓ) : Value × Draft ℓ :=
  (.register (.temporary d.nextTemporary), { d with nextTemporary := d.nextTemporary + 1 })

/-- Append a line to the current block. -/
def push (d : Draft ℓ) (line : Line ℓ (Source ℓ)) : Draft ℓ :=
  { d with blocks := d.blocks.modify d.current (·.push line) }

/-- Leave the current block, unless it is left already. -/
def terminate (d : Draft ℓ) (term : Term ℓ) : Draft ℓ :=
  { d with blocks := d.blocks.modify d.current (·.terminate term) }

/-- Append an instruction whose result goes to a new temporary. -/
def define (d : Draft ℓ) (instr : Instr) : Value × Draft ℓ :=
  let (receiver, d) := d.fresh
  (receiver, d.push (.define receiver instr))

/-- Append a call; its result, if there is one, goes to a new temporary. -/
def call (d : Draft ℓ) (result : IrType) (callee : Value) (arguments : List Operand) :
    Option Value × Draft ℓ :=
  if result = .void then (none, d.push (.run (.call result callee arguments)))
  else
    let (receiver, d) := d.define (.call result callee arguments)
    (some receiver, d)

/-- The label that the source of a phi stands for. -/
def resolve (d : Draft ℓ) : Source ℓ → ℓ
  | .label label => label
  | .block block => (d.lastBlocks.lookup block).getD (BlockLabel.ofBlock block)

/-- The function as it stands. -/
def toFunction (d : Draft ℓ) : Function ℓ :=
  { name := d.name
    result := d.result
    parameters := d.parameters
    blocks := d.blocks.map (Block.mapSources d.resolve) }

/-- The finished function; blocks that are not left end as unreachable. -/
def finish (d : Draft ℓ) : Function ℓ :=
  toFunction { d with blocks := d.blocks.map (·.terminate .unreachable) }

end Draft

end ObjectBackend.Target
