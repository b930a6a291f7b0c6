import ObjectBackend.Source.Program

/-!
# Well-formed bodies

What the analyses and the lowering rely on: a body has blocks, every block has a terminator, every
block and variable that is named exists, a phi names only predecessors as sources, and nothing that
a protected block defines from its first call site on reaches one of its handlers. The check names
the first fault it meets, block by block and in each block in the order of execution.
-/

namespace ObjectBackend

namespace Body

/-- The blocks that have a block among their successors. -/
def predecessors (b : Body) (id : BlockId) : List BlockId :=
  (b.numberedBlocks.filter fun (_, block) => id ∈ block.successors).map (·.1)

/-- That a block exists. -/
def checkBlock (name : String) (b : Body) (id : BlockId) : Except ProgramError Unit :=
  if id.index < b.blocks.length then .ok () else .error (.unknownBlock name id)

/-- That a variable exists. -/
def checkVar (name : String) (b : Body) (v : Var) : Except ProgramError Unit :=
  if v.index < b.kinds.length then .ok () else .error (.unknownVariable name v)

/-- That everything a phi names exists. -/
def checkPhi (name : String) (b : Body) (phi : Phi) : Except ProgramError Unit := do
  checkVar name b phi.receiver
  phi.incomings.forM fun incoming => do
    checkBlock name b incoming.source
    checkVar name b incoming.value

/-- That every variable an instruction names exists. -/
def checkInstruction (name : String) (b : Body) (i : Instruction) : Except ProgramError Unit := do
  i.defined.toList.forM (checkVar name b)
  i.used.forM (checkVar name b)

/-- That a block has a terminator and everything it names exists. -/
def checkNames (name : String) (b : Body) (id : BlockId) (block : BasicBlock) :
    Except ProgramError Unit := do
  if !block.isTerminated then throw (.missingTerminator name id)
  block.successors.forM (checkBlock name b)
  block.phis.forM (checkPhi name b)
  block.instructions.forM (checkInstruction name b)
  block.terminator.used.forM (checkVar name b)
  block.exceptionVariable.toList.forM (checkVar name b)

/-- That the phis of a block name only predecessors of it. -/
def checkSources (name : String) (b : Body) (id : BlockId) (block : BasicBlock) :
    Except ProgramError Unit :=
  block.phis.forM fun phi => phi.incomings.forM fun incoming =>
    if incoming.source ∈ b.predecessors id then .ok ()
    else .error (.notPredecessor name phi.receiver id incoming.source)

end Body

namespace BasicBlock

/-- What a block defines at its first call site or after it. A handler is entered from that site at
the earliest, so these values need not exist there. -/
def lateValues (b : BasicBlock) : List Var :=
  (b.instructions.dropWhile (!·.isCallSite)).filterMap Instruction.defined

/-- The values that the phis of a block take on the edge from another block. -/
def valuesFrom (b : BasicBlock) (source : BlockId) : List Var :=
  b.phis.flatMap fun phi =>
    (phi.incomings.filter (·.source = source)).map (·.value)

/-- The values that the instructions and the terminator of a block read. -/
def usedValues (b : BasicBlock) : List Var :=
  b.instructions.flatMap Instruction.used ++ b.terminator.used

end BasicBlock

namespace Body

/-- The values that flow from a protected block into one of its handlers: those its phis take, and
those it reads itself, unless a block protects itself. -/
def handlerInputs (b : Body) (id handler : BlockId) : List Var :=
  match b.block? handler with
  | none => []
  | some block => block.valuesFrom id ++ if handler = id then [] else block.usedValues

/-- That no late value of a block flows into one of its handlers. -/
def checkHandlerInputs (name : String) (b : Body) (id : BlockId) (block : BasicBlock) :
    Except ProgramError Unit :=
  block.tryCatches.forM fun tryCatch =>
    (b.handlerInputs id tryCatch.handler).forM fun v =>
      if v ∈ block.lateValues then .error (.lateValue name v tryCatch.handler id) else .ok ()

/-- That a body is well formed; the name is used only in an error. -/
def check (name : String) (b : Body) : Except ProgramError Unit := do
  if b.blocks.isEmpty then throw (.noBlocks name)
  b.numberedBlocks.forM fun (id, block) => checkNames name b id block
  b.numberedBlocks.forM fun (id, block) => checkSources name b id block
  b.numberedBlocks.forM fun (id, block) => checkHandlerInputs name b id block

end Body

/-- That every body of a class is well formed. -/
def ClassDef.check (c : ClassDef) : Except ProgramError Unit :=
  c.methods.forM fun m => m.body.toList.forM (Body.check (c.reference m).text)

/-- That every body of a program is well formed. -/
def Program.check (p : Program) : Except ProgramError Unit := p.classes.forM ClassDef.check

end ObjectBackend
