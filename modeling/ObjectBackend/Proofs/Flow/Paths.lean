import Mathlib.Logic.Relation
import Mathlib.Tactic.Tauto
import ObjectBackend.Flow.Liveness

/-!
# Liveness by paths

What it means for a variable to be live, apart from any analysis. A variable is live at the start of
a block if a path of blocks leads on from there, none of which writes the variable, to a block that
reads it before writing it, or to a block that does not write it and on an edge from which a phi
takes it. Within a block, a list of instructions needs a variable if one of them reads it before it
is written, or if none writes it and it is needed after them (`NeededBy`).
-/

namespace ObjectBackend

variable {v : Var} {later : Prop}

/-- A variable is needed before some instructions: they read it before writing it, or they do not
write it and it is needed after them. -/
def NeededBy (v : Var) (later : Prop) : List Instruction → Prop
  | [] => later
  | i :: is => v ∈ i.used ∨ i.defined ≠ some v ∧ NeededBy v later is

/-- A variable is needed before some instructions because of them, or because it is needed later and
they do not write it. -/
lemma neededBy_or {other : Prop} {is : List Instruction} :
    NeededBy v (later ∨ other) is ↔
      NeededBy v later is ∨ (∀ i ∈ is, i.defined ≠ some v) ∧ other := by
  induction is with
  | nil => simp [NeededBy]
  | cons i is ih =>
    simp only [NeededBy, ih, List.forall_mem_cons]
    tauto

namespace BasicBlock

/-- A block reads a variable before writing it. -/
def ReadsFirst (b : BasicBlock) (v : Var) : Prop :=
  v ∉ b.headDefs ∧ NeededBy v (v ∈ b.terminator.used) b.instructions

/-- A block defines what its instructions define and what its phis and its entry do. -/
lemma mem_defs {b : BasicBlock} :
    v ∈ b.defs ↔ (∃ i ∈ b.instructions, i.defined = some v) ∨ v ∈ b.headDefs := by
  rw [defs, List.mem_append, List.mem_filterMap]

end BasicBlock

namespace Body

variable {b : Body} {id target : BlockId} {block : BasicBlock}

/-- A block writes a variable. -/
def Writes (b : Body) (v : Var) (id : BlockId) : Prop :=
  ∃ block, b.block? id = some block ∧ v ∈ block.defs

/-- A phi takes a variable on an edge from a block. -/
def FlowsFrom (b : Body) (v : Var) (id : BlockId) : Prop :=
  ∃ block ∈ b.blocks, ∃ phi ∈ block.phis, ⟨id, v⟩ ∈ phi.incomings

/-- A block itself is a reason for a variable to be live at its start. -/
def Needs (b : Body) (v : Var) (id : BlockId) : Prop :=
  (∃ block, b.block? id = some block ∧ block.ReadsFirst v) ∨ ¬ b.Writes v id ∧ b.FlowsFrom v id

/-- Control may go from one block to another, and the first one does not write a variable. -/
def Passes (b : Body) (v : Var) (id target : BlockId) : Prop :=
  ¬ b.Writes v id ∧ target ∈ b.successors id

/-- A variable is live at the start of a block. -/
def LiveIn (b : Body) (v : Var) (id : BlockId) : Prop :=
  ∃ last, Relation.ReflTransGen (b.Passes v) id last ∧ b.Needs v last

/-- A variable is live at the end of a block. -/
def LiveOut (b : Body) (v : Var) (id : BlockId) : Prop :=
  b.FlowsFrom v id ∨ ∃ target ∈ b.successors id, b.LiveIn v target

/-- A variable is live in a block before the instruction at a position. -/
def LiveAt (b : Body) (v : Var) (id : BlockId) (position : Nat) : Prop :=
  ∃ block, b.block? id = some block ∧
    NeededBy v (v ∈ block.terminator.used ∨ b.LiveOut v id) (block.instructions.drop position)

/-- Only blocks that exist have successors. -/
lemma exists_of_mem_successors (edge : target ∈ b.successors id) :
    ∃ block, b.block? id = some block := by
  rw [successors] at edge
  split at edge
  case h_1 => cases edge
  case h_2 block found => exact ⟨block, found⟩

/-- A variable is live at the start of a block because of the block, or because it is live at the
start of a successor and the block does not write it. -/
lemma liveIn_iff :
    b.LiveIn v id ↔
      b.Needs v id ∨ ¬ b.Writes v id ∧ ∃ target ∈ b.successors id, b.LiveIn v target := by
  constructor
  · rintro ⟨last, steps, needs⟩
    rcases Relation.ReflTransGen.cases_head_iff.1 steps with rfl | ⟨target, ⟨kept, edge⟩, steps⟩
    · exact .inl needs
    · exact .inr ⟨kept, target, edge, last, steps, needs⟩
  · rintro (needs | ⟨kept, target, edge, last, steps, needs⟩)
    · exact ⟨id, .refl, needs⟩
    · exact ⟨last, .head ⟨kept, edge⟩ steps, needs⟩

/-- A block does not write a variable if neither its head nor an instruction does. -/
lemma not_writes_iff (found : b.block? id = some block) :
    ¬ b.Writes v id ↔ v ∉ block.headDefs ∧ ∀ i ∈ block.instructions, i.defined ≠ some v := by
  rw [Writes, found]
  simp only [Option.some.injEq, exists_eq_left', BasicBlock.mem_defs, not_or, not_exists, not_and,
    ne_eq, and_comm]

/-- A variable is live at the start of a block if it is live before the first instruction and the
head does not write it. -/
lemma liveIn_iff_liveAt (found : b.block? id = some block) :
    b.LiveIn v id ↔ v ∉ block.headDefs ∧ b.LiveAt v id 0 := by
  rw [liveIn_iff, LiveAt, Needs, found]
  simp only [Option.some.injEq, exists_eq_left', List.drop_zero, neededBy_or, LiveOut,
    BasicBlock.ReadsFirst, not_writes_iff found]
  tauto

/-- A variable is live before an instruction if that reads it, or if it is live after the
instruction and not written. -/
lemma liveAt_iff {position : Nat} {i : Instruction} (found : b.block? id = some block)
    (instr : block.instructions[position]? = some i) :
    b.LiveAt v id position ↔
      v ∈ i.used ∨ i.defined ≠ some v ∧ b.LiveAt v id (position + 1) := by
  obtain ⟨lt, rfl⟩ := List.getElem?_eq_some_iff.1 instr
  rw [LiveAt, LiveAt, found]
  simp only [Option.some.injEq, exists_eq_left', List.drop_eq_getElem_cons lt, NeededBy]

end Body

end ObjectBackend
