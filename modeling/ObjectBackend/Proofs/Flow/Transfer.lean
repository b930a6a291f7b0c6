import Mathlib.Tactic.Tauto
import ObjectBackend.Flow.BitSet
import ObjectBackend.Proofs.Flow.Paths
import ObjectBackend.Proofs.Source.Validity

/-!
# The transfer of a block

What the sets that the analysis makes of a block hold, in terms of the block: `BitSet.Holds` ties a
set to a property of variables, and every operation on sets to an operation on properties. Stepping
back over instructions leads from what is needed after them to what is needed before them
(`Holds.foldr_liveBefore`).

All variables of a body that is well formed lie below the width of its sets (`Body.width`).
-/

namespace ObjectBackend

variable {s : BitSet} {P : Var → Prop} {v : Var} {vs : List Var}

/-- A set holds just the variables that have a property. -/
def BitSet.Holds (s : BitSet) (P : Var → Prop) : Prop :=
  ∀ x, s.contains x = true ↔ ∃ v : Var, v.index = x ∧ P v

namespace BitSet.Holds

/-- A variable is in a set if it has the property. -/
lemma contains_index (holds : s.Holds P) : s.contains v.index = true ↔ P v := by
  rw [holds]
  constructor
  · rintro ⟨w, eq, h⟩
    rwa [← Var.eq_of_index_eq eq]
  · exact fun h => ⟨v, rfl, h⟩

/-- A set holds just the variables with any property that says the same. -/
lemma congr {Q : Var → Prop} (holds : s.Holds P) (iff : ∀ v, P v ↔ Q v) : s.Holds Q := by
  intro x
  rw [holds]
  simp only [iff]

/-- The empty set holds no variable. -/
lemma empty (capacity : Nat) : (BitSet.empty capacity).Holds fun _ => False := by
  intro x
  simp [contains_empty]

/-- The number of a variable is among the numbers of variables just if the variable is among them.
-/
lemma mem_map_index {x : Nat} : x ∈ vs.map Var.index ↔ ∃ v : Var, v.index = x ∧ v ∈ vs := by
  simp only [List.mem_map, and_comm]

/-- After an insertion a set also holds the variables that were inserted. -/
lemma insertAll (holds : s.Holds P) (vs : List Var) (small : ∀ v ∈ vs, v.index < s.width) :
    (s.insertAll (vs.map Var.index)).Holds fun v => P v ∨ v ∈ vs := by
  intro x
  rw [contains_insertAll, holds, mem_map_index]
  constructor
  · rintro (⟨v, eq, h⟩ | ⟨_, v, eq, mem⟩)
    · exact ⟨v, eq, .inl h⟩
    · exact ⟨v, eq, .inr mem⟩
  · rintro ⟨v, rfl, h | mem⟩
    · exact .inl ⟨v, rfl, h⟩
    · exact .inr ⟨small v mem, v, rfl, mem⟩

/-- After a removal a set holds the variables that were not removed. -/
lemma eraseAll (holds : s.Holds P) (vs : List Var) :
    (s.eraseAll (vs.map Var.index)).Holds fun v => P v ∧ v ∉ vs := by
  intro x
  rw [contains_eraseAll, holds]
  constructor
  · rintro ⟨⟨v, rfl, h⟩, other⟩
    exact ⟨v, rfl, h, fun mem => other (List.mem_map_of_mem mem)⟩
  · rintro ⟨v, rfl, h, other⟩
    refine ⟨⟨v, rfl, h⟩, fun mem => ?_⟩
    obtain ⟨w, eq, mem⟩ := mem_map_index.1 mem
    exact other (Var.eq_of_index_eq eq ▸ mem)

/-- Stepping back over an instruction leads to what is needed before it. -/
lemma liveBefore {i : Instruction} (holds : s.Holds P) (small : ∀ v ∈ i.used, v.index < s.width) :
    (BasicBlock.liveBefore i s).Holds fun v => v ∈ i.used ∨ i.defined ≠ some v ∧ P v := by
  have erased := holds.eraseAll i.defined.toList
  refine (erased.insertAll i.used (by rwa [width_eraseAll])).congr fun v => ?_
  simp only [Option.mem_toList, ne_eq]
  tauto

/-- Stepping back over instructions keeps the width. -/
lemma width_foldr_liveBefore {is : List Instruction} :
    (is.foldr BasicBlock.liveBefore s).width = s.width := by
  induction is with
  | nil => rfl
  | cons i is ih => rw [List.foldr_cons, BasicBlock.liveBefore, width_insertAll, width_eraseAll, ih]

/-- Stepping back over instructions leads to what is needed before them. -/
lemma foldr_liveBefore {is : List Instruction} (holds : s.Holds P)
    (small : ∀ i ∈ is, ∀ v ∈ i.used, v.index < s.width) :
    (is.foldr BasicBlock.liveBefore s).Holds fun v => NeededBy v (P v) is := by
  induction is with
  | nil => exact holds
  | cons i is ih =>
    obtain ⟨first, others⟩ := List.forall_mem_cons.1 small
    exact (ih others).liveBefore (by rwa [width_foldr_liveBefore])

end BitSet.Holds

namespace Body

variable {name : String} {b : Body} {id : BlockId} {block : BasicBlock}

/-- The width of the sets of variables of a body. -/
def width (b : Body) : Nat := (BitSet.empty b.kinds.length).width

/-- A declared variable is within the width of the sets. -/
lemma lt_width (lt : v.index < b.kinds.length) : v.index < b.width :=
  Nat.lt_of_lt_of_le lt (BitSet.le_width_empty _)

/-- A set that declared variables are inserted into holds just these. -/
lemma holds_ofVars (exist : ∀ v ∈ vs, v.index < b.kinds.length) :
    ((BitSet.empty b.kinds.length).insertAll (vs.map Var.index)).Holds (· ∈ vs) :=
  ((BitSet.Holds.empty _).insertAll vs fun v mem => lt_width (exist v mem)).congr fun v => by simp

/-- The values that flow from a block are those that phis take on the edges from it. -/
lemma mem_phiInputs : v ∈ b.phiInputs id ↔ b.FlowsFrom v id := by
  simp only [phiInputs, FlowsFrom, List.mem_flatMap, List.mem_map, List.mem_filter,
    decide_eq_true_eq]
  constructor
  · rintro ⟨block, mem, phi, memPhi, ⟨source, value⟩, ⟨given, rfl⟩, rfl⟩
    exact ⟨block, mem, phi, memPhi, given⟩
  · rintro ⟨block, mem, phi, memPhi, given⟩
    exact ⟨block, mem, phi, memPhi, ⟨id, v⟩, ⟨given, rfl⟩, rfl⟩

/-- What flows from a block is a declared variable, and the block exists. -/
lemma FlowsFrom.lt (checked : b.check name = .ok ()) (flows : b.FlowsFrom v id) :
    id.index < b.blocks.length ∧ v.index < b.kinds.length := by
  obtain ⟨block, mem, phi, memPhi, given⟩ := flows
  exact incoming_lt checked mem memPhi given

/-- The variables that a block reads before writing them. -/
lemma holds_uses (checked : b.check name = .ok ()) (mem : block ∈ b.blocks) :
    (block.uses b.kinds.length).Holds block.ReadsFirst := by
  have atEnd := holds_ofVars fun v used => terminator_used_lt checked mem used
  have small : ∀ i ∈ block.instructions, ∀ v ∈ i.used, v.index < BitSet.width
      ((BitSet.empty b.kinds.length).insertAll (block.terminator.used.map Var.index)) := by
    rw [BitSet.width_insertAll]
    exact fun i instr v used => lt_width (used_lt checked mem instr used)
  exact ((atEnd.foldr_liveBefore small).eraseAll block.headDefs).congr fun v => and_comm

/-- What the transfer of a block holds: the variables it reads before writing them, those it writes,
and those that flow from it. -/
structure TransferSpec (b : Body) (id : BlockId) (block : BasicBlock) (t : Transfer) : Prop where
  uses : t.uses.Holds block.ReadsFirst
  defs : t.defs.Holds (· ∈ block.defs)
  phiUses : t.phiUses.Holds (b.FlowsFrom · id)

/-- Every block has its transfer. -/
lemma getElem?_transfers (checked : b.check name = .ok ()) (found : b.block? id = some block) :
    ∃ t, b.transfers[id.index]? = some t ∧ b.TransferSpec id block t := by
  have mem : block ∈ b.blocks := List.mem_of_getElem? found
  have numbered : b.numberedBlocks[id.index]? = some (id, block) := by
    rw [getElem?_numberedBlocks, BlockId.ofIndex_index, ← block?, found]
    rfl
  refine ⟨_, by rw [transfers, List.getElem?_map, numbered, Option.map_some], ?_⟩
  refine ⟨holds_uses checked mem, holds_ofVars fun v written => defs_lt checked mem written, ?_⟩
  refine (holds_ofVars fun v flows => ?_).congr fun v => mem_phiInputs
  exact (FlowsFrom.lt checked (mem_phiInputs.1 flows)).2

/-- There is one transfer for each block. -/
lemma length_transfers (b : Body) : b.transfers.length = b.blocks.length := by
  simp [transfers, numberedBlocks]

/-- The sets of a transfer have the width of the body. -/
lemma width_transfer {t : Transfer} (mem : t ∈ b.transfers) :
    t.phiUses.width = b.width ∧ t.uses.width = b.width := by
  obtain ⟨⟨id, block⟩, _, rfl⟩ := List.mem_map.1 mem
  refine ⟨BitSet.width_insertAll _ _, ?_⟩
  simp only [BasicBlock.uses]
  rw [BitSet.width_eraseAll, BitSet.Holds.width_foldr_liveBefore, BitSet.width_insertAll]
  rfl

end Body

end ObjectBackend
