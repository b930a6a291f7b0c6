import ObjectBackend.Target.Instr

/-!
# Functions

A function is a list of labelled blocks of lines. Labels are of any type; `BlockLabel` says how they
are written and which ones stand for the blocks of a source body. While a function is being put
together a phi may name a source block, whose last block is not known yet; in a finished function
all sources of phis are labels.
-/

namespace ObjectBackend.Target

/-- What the labels of blocks are. -/
class BlockLabel (ℓ : Type) where
  text : ℓ → String
  /-- The label of the first block of a source block. -/
  ofBlock : BlockId → ℓ
  /-- The label of the first block of a function. -/
  entry : ℓ

/-- Labels that are given as texts. -/
instance : BlockLabel String where
  text := id
  ofBlock := BlockId.text
  entry := "entry"

/-- A line of a block, with labels `ℓ` and sources `σ` of phis. -/
inductive Line (ℓ σ : Type) where
  | comment (text : String)
  | run (instr : Instr)
  | define (receiver : Value) (instr : Instr)
  | phi (receiver : Value) (type : IrType) (incomings : List (Value × σ))
  | leave (term : Term ℓ)
deriving DecidableEq

namespace Line

variable {ℓ σ τ : Type}

/-- Whether the line leaves the block. -/
def isLeave : Line ℓ σ → Bool
  | leave _ => true
  | _ => false

/-- Replace the sources of phis. -/
def mapSources (f : σ → τ) : Line ℓ σ → Line ℓ τ
  | comment text => comment text
  | run instr => run instr
  | define receiver instr => define receiver instr
  | phi receiver type incomings =>
    phi receiver type (incomings.map fun (value, source) => (value, f source))
  | leave term => leave term

/-- The text of a line. -/
def text [BlockLabel ℓ] : Line ℓ ℓ → String
  | comment text => "; " ++ text
  | run instr => instr.text
  | define receiver instr => receiver.text ++ " = " ++ instr.text
  | phi receiver type incomings =>
    receiver.text ++ " = phi " ++ type.text ++ " "
      ++ String.intercalate ", " (incomings.map fun (value, source) =>
        "[ " ++ value.text ++ ", %" ++ BlockLabel.text source ++ " ]")
  | leave term => term.text BlockLabel.text

end Line

/-- A labelled block of lines. -/
structure Block (ℓ σ : Type) where
  label : ℓ
  lines : List (Line ℓ σ)
deriving DecidableEq

namespace Block

variable {ℓ σ τ : Type}

/-- Whether a line leaves the block. -/
def isTerminated (b : Block ℓ σ) : Bool := b.lines.any Line.isLeave

/-- Append a line. -/
def push (b : Block ℓ σ) (line : Line ℓ σ) : Block ℓ σ := { b with lines := b.lines ++ [line] }

/-- Leave the block, unless it is left already. -/
def terminate (b : Block ℓ σ) (term : Term ℓ) : Block ℓ σ :=
  if b.isTerminated then b else b.push (.leave term)

/-- Replace the sources of phis. -/
def mapSources (f : σ → τ) (b : Block ℓ σ) : Block ℓ τ :=
  { label := b.label, lines := b.lines.map (Line.mapSources f) }

/-- The label and the lines of a block. -/
def text [BlockLabel ℓ] (b : Block ℓ ℓ) : String :=
  BlockLabel.text b.label ++ ":\n"
    ++ String.join (b.lines.map fun line => "  " ++ line.text ++ "\n")

end Block

/-- A function with its parameters and its blocks, the first of which is entered. -/
structure Function (ℓ : Type) where
  name : Symbol
  result : IrType
  parameters : List Operand
  blocks : List (Block ℓ ℓ)
deriving DecidableEq

/-- The definition of a function, with a blank line between blocks. -/
def Function.text {ℓ : Type} [BlockLabel ℓ] (f : Function ℓ) : String :=
  "define " ++ f.result.text ++ " @" ++ f.name.text ++ operandsText f.parameters ++ " \x7b\n"
    ++ String.intercalate "\n" (f.blocks.map Block.text) ++ "\x7d\n"

end ObjectBackend.Target
