import ObjectBackend.Proofs.Flow.Handlers

/-!
# Available variables

How to see that a body is in strict SSA form without looking at its paths. If for each block some
variables are known to be available at its start, because they are written at the end of each block
before it, and all that is read is among them or has been written in the block before, then whatever
is read has been written on every path (`Body.Availability.strictSsa`). Only bodies without handlers
are dealt with, since handlers are entered from the middle of a block.
-/

namespace ObjectBackend

/-- The variables that are written at a position of a block, if some are at its start. -/
def BasicBlock.availableAt (block : BasicBlock) (start : List Var) (position : Nat) : List Var :=
  start ++ (block.instructions.take position).filterMap Instruction.defined

/-- The variables that are available at the end of a block. -/
def BasicBlock.availableAtEnd (block : BasicBlock) (start : List Var) : List Var :=
  block.availableAt start block.instructions.length

namespace Body

/-- Some variables are available at the starts of blocks, and all that is read is available. -/
structure Availability (b : Body) (parameters : List Var) (available : BlockId → List Var) :
    Prop where
  single : (parameters ++ b.blocks.flatMap (·.defs)).Nodup
  unprotected : ∀ block ∈ b.blocks, block.tryCatches = []
  entry : ∀ block ∈ (b.block? .entry).toList, available .entry ⊆ parameters ++ block.headDefs
  instructions : ∀ e ∈ b.numberedBlocks, ∀ i ∈ e.2.instructions.zipIdx,
    i.1.used ⊆ e.2.availableAt (available e.1) i.2
  terminators : ∀ e ∈ b.numberedBlocks,
    e.2.terminator.used ⊆ e.2.availableAtEnd (available e.1)
  edges : ∀ e ∈ b.numberedBlocks, ∀ target ∈ e.2.successors, ∀ block ∈ (b.block? target).toList,
    available target ⊆ e.2.availableAtEnd (available e.1) ++ block.headDefs ∧
      block.valuesFrom e.1 ⊆ e.2.availableAtEnd (available e.1)

namespace Availability

variable {b : Body} {parameters written : List Var} {available : BlockId → List Var} {pt : Point}
  {block : BasicBlock}

/-- Without handlers control leaves a block at its end only. -/
lemma exists_of_exit (availability : b.Availability parameters available) {target : BlockId}
    (exit : b.Exit pt target) : ∃ block, b.block? pt.block = some block ∧
      pt.position = block.instructions.length ∧ target ∈ block.successors := by
  cases exit with
  | atEnd found atEnd successor => exact ⟨_, found, atEnd, successor⟩
  | atSite found _ _ handler =>
    rw [availability.unprotected _ (List.mem_of_getElem? found)] at handler
    cases handler

/-- What is available at a place has been written on each path to it. -/
lemma availableAt_subset (availability : b.Availability parameters available)
    (run : b.Run parameters written pt) (found : b.block? pt.block = some block) :
    block.availableAt (available pt.block) pt.position ⊆ written := by
  induction run generalizing block with
  | entry found' =>
    rw [BasicBlock.availableAt, List.take_zero, List.filterMap_nil, List.append_nil]
    obtain rfl := Option.some.inj (found.symm.trans found')
    exact availability.entry _ (Option.mem_toList.2 found')
  | step run step ih =>
    cases step with
    | next found' instr =>
      obtain rfl := Option.some.inj (found.symm.trans found')
      rw [BasicBlock.availableAt, List.take_add_one, instr, List.filterMap_append,
        ← List.append_assoc]
      refine List.append_subset.2 ⟨List.subset_append_of_subset_left _ (ih found), ?_⟩
      intro v mem
      obtain ⟨i, here, writes⟩ := List.mem_filterMap.1 mem
      obtain rfl := Option.some.inj (Option.mem_toList.1 here)
      exact List.mem_append_right _ (Option.mem_toList.2 writes)
    | exit exit found' =>
      obtain rfl := Option.some.inj (found.symm.trans found')
      obtain ⟨source, foundSource, atEnd, successor⟩ := availability.exists_of_exit exit
      obtain ⟨carried, _⟩ := availability.edges _ (mem_numberedBlocks foundSource) _ successor _
        (Option.mem_toList.2 found)
      have before := ih foundSource
      rw [atEnd] at before
      rw [BasicBlock.availableAt, List.take_zero, List.filterMap_nil, List.append_nil]
      apply List.Subset.trans carried
      apply List.append_subset.2
      exact ⟨List.subset_append_of_subset_left _ before, List.subset_append_right _ _⟩

/-- So the body is in strict SSA form. -/
theorem strictSsa (availability : b.Availability parameters available) :
    b.StrictSsa parameters where
  single := availability.single
  reads {written pt v} run reads := by
    cases reads with
    | instruction found instr used =>
      have place := List.mk_mem_zipIdx_iff_getElem?.2 instr
      apply availability.availableAt_subset run found
      exact availability.instructions _ (mem_numberedBlocks found) _ place used
    | terminator found atEnd used =>
      apply availability.availableAt_subset run found
      rw [atEnd]
      exact availability.terminators _ (mem_numberedBlocks found) used
  takes {written pt target v} run exit takes := by
    obtain ⟨source, foundSource, atEnd, successor⟩ := availability.exists_of_exit exit
    obtain ⟨block, found, taken⟩ := takes
    apply availability.availableAt_subset run foundSource
    rw [atEnd]
    exact (availability.edges _ (mem_numberedBlocks foundSource) _ successor _
      (Option.mem_toList.2 found)).2 taken

end Availability

end Body

end ObjectBackend
