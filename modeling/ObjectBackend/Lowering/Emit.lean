import ObjectBackend.Image.Pools
import ObjectBackend.Target.Draft

/-!
# Emission

The code of a checked body is put together by steps that cannot fail. Each step extends the draft of
the function and may register literals and call sites; the edges to blocks that several places share
are recorded until these blocks are written.
-/

namespace ObjectBackend.Lowering

open Target

/-- What has been emitted so far. -/
structure Progress where
  draft : Draft Label
  pools : Pools
  /-- The call sites of the current block with a handler, and where they leave from. -/
  landings : List (Nat × Label)
  /-- The values that are returned through the shared exit, and where they come from. -/
  exits : List (Option Value × Label)
  /-- Whether the function may return with an exception pending. -/
  unwinds : Bool

/-- A step of emission. -/
abbrev Emit (α : Type) := StateM Progress α

namespace Emit

/-- A step on the draft. -/
def onDraft {α : Type} (f : Draft Label → α × Draft Label) : Emit α :=
  modifyGet fun s => let (a, draft) := f s.draft; (a, { s with draft })

/-- Append a line. -/
def line (l : Line Label (Source Label)) : Emit Unit := onDraft fun d => ((), d.push l)

/-- Append an instruction without result. -/
def run (i : Instr) : Emit Unit := line (.run i)

/-- Append an instruction whose result goes to a register. -/
def assign (receiver : Local) (i : Instr) : Emit Unit := line (.define (.register receiver) i)

/-- Append an instruction whose result goes to the register of a variable. -/
def assignVar (receiver : Var) (i : Instr) : Emit Unit := assign (.var receiver) i

/-- Append an instruction whose result goes to a new temporary. -/
def define (i : Instr) : Emit Value := onDraft (·.define i)

/-- A new temporary. -/
def fresh : Emit Value := onDraft (·.fresh)

/-- Append a phi. -/
def phi (receiver : Value) (type : IrType) (incomings : List (Value × Source Label)) : Emit Unit :=
  line (.phi receiver type incomings)

/-- Append a call; its result, if there is one, goes to a new temporary. -/
def call (result : IrType) (callee : Symbol) (arguments : List Target.Operand) :
    Emit (Option Value) :=
  onDraft (·.call result (.symbol callee) arguments)

/-- Leave the current block. -/
def leave (t : Term Label) : Emit Unit := onDraft fun d => ((), d.terminate t)

/-- The label of the current block. -/
def here : Emit Label := onDraft fun d => (d.currentLabel, d)

/-- Append an empty block at the end. -/
def appendBlock (l : Label) : Emit Unit := onDraft fun d => ((), d.appendBlock l)

/-- Insert an empty block after the current one. -/
def insertBlock (l : Label) : Emit Unit := onDraft fun d => ((), d.insertBlock l)

/-- Insert an empty block after the current one, as a part of the block that starts at a label. -/
def split (first : Label) : Emit Label := onDraft (·.split (Label.split first))

/-- Go on in a block. -/
def continueAt (l : Label) : Emit Unit := onDraft fun d => ((), d.goTo l)

/-- A string literal. -/
def literal (text : String) : Emit Value :=
  modifyGet fun s =>
    let (symbol, pools) := s.pools.intern text
    (.symbol symbol, { s with pools })

/-- Register a call site. -/
def register (site : CallSite) : Emit Nat :=
  modifyGet fun s =>
    let (id, pools) := s.pools.register site
    (id, { s with pools })

/-- Copy a value to the register of a variable. -/
def copyTo (receiver : Var) (type : IrType) (value : Value) : Emit Unit :=
  assignVar receiver (.copy type value)

end Emit

end ObjectBackend.Lowering
