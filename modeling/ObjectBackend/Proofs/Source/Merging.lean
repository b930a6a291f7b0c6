import Mathlib.Data.List.Perm.Subperm
import ObjectBackend.Proofs.Source.Validity

/-!
# The edges that phis merge

A phi gives one value for each edge into its block. The check of a body sees to half of this: what a
phi names is a predecessor of its block. Whether it names all of them, and each once, the check does
not ask, and it accepts a body with any of its incomings left out or repeated.
-/

namespace ObjectBackend

/-- The blocks that a phi takes its values from. -/
def Phi.sources (phi : Phi) : List BlockId := phi.incomings.map (·.source)

/-- A phi of a block takes one value from each predecessor of it and none from another block. -/
def Phi.MergesEdges (b : Body) (id : BlockId) (phi : Phi) : Prop :=
  ∀ source, phi.sources.count source = if id ∈ b.successors source then 1 else 0

/-- One phi stands in for another: it has the same receiver and names nothing new. -/
structure Phi.Narrows (phi' phi : Phi) : Prop where
  receiver : phi'.receiver = phi.receiver
  incomings : phi'.incomings ⊆ phi.incomings

/-- A block with other phis. -/
def BasicBlock.mapPhis (g : Phi → Phi) (block : BasicBlock) : BasicBlock :=
  { block with phis := block.phis.map g }

/-- A body with other phis. -/
def Body.mapPhis (g : Phi → Phi) (b : Body) : Body :=
  { b with blocks := b.blocks.map (·.mapPhis g) }

section Phis

variable {g : Phi → Phi} {b : Body} {block : BasicBlock} {id source : BlockId} {name : String}
  {v : Var}

/-- The phis of a block whose phis are changed. -/
@[simp]
lemma BasicBlock.mapPhis_phis : (block.mapPhis g).phis = block.phis.map g := rfl

/-- Changing phis changes no successors. -/
@[simp]
lemma BasicBlock.mapPhis_successors : (block.mapPhis g).successors = block.successors := rfl

/-- Changing phis changes no protected ranges. -/
@[simp]
lemma BasicBlock.mapPhis_tryCatches : (block.mapPhis g).tryCatches = block.tryCatches := rfl

/-- Changing phis changes no values that are defined from a site on. -/
@[simp]
lemma BasicBlock.mapPhis_lateValues : (block.mapPhis g).lateValues = block.lateValues := rfl

/-- Changing phis changes no values that are used besides. -/
@[simp]
lemma BasicBlock.mapPhis_usedValues : (block.mapPhis g).usedValues = block.usedValues := rfl

/-- Narrower phis take no other values. -/
lemma BasicBlock.mem_valuesFrom_of_mapPhis (narrow : ∀ phi, (g phi).Narrows phi)
    (mem : v ∈ (block.mapPhis g).valuesFrom source) : v ∈ block.valuesFrom source := by
  obtain ⟨_, mapped, mem⟩ := List.mem_flatMap.1 mem
  obtain ⟨phi, memPhi, rfl⟩ := List.mem_map.1 mapped
  obtain ⟨incoming, given, rfl⟩ := List.mem_map.1 mem
  obtain ⟨given, from_⟩ := List.mem_filter.1 given
  refine List.mem_flatMap.2 ⟨phi, memPhi, List.mem_map_of_mem (List.mem_filter.2 ⟨?_, from_⟩)⟩
  exact (narrow phi).incomings given

namespace Body

/-- The numbered blocks of a body whose phis are changed. -/
lemma mapPhis_numberedBlocks :
    (b.mapPhis g).numberedBlocks = b.numberedBlocks.map fun e => (e.1, e.2.mapPhis g) := by
  simp [numberedBlocks, mapPhis, List.zipIdx_map]

/-- A block of a body whose phis are changed. -/
@[simp]
lemma mapPhis_block? : (b.mapPhis g).block? id = (b.block? id).map (·.mapPhis g) :=
  List.getElem?_map ..

/-- Changing phis changes no predecessors. -/
@[simp]
lemma mapPhis_predecessors : (b.mapPhis g).predecessors id = b.predecessors id := by
  rw [predecessors, mapPhis_numberedBlocks, List.filter_map, List.map_map]
  rfl

/-- Changing phis changes nothing about which blocks exist. -/
@[simp]
lemma mapPhis_checkBlock : (b.mapPhis g).checkBlock name = b.checkBlock name := by
  funext id
  simp [checkBlock, mapPhis]

/-- Changing phis changes nothing about which variables are declared. -/
@[simp]
lemma mapPhis_checkVar : (b.mapPhis g).checkVar name = b.checkVar name := rfl

/-- Changing phis changes nothing about which instructions are accepted. -/
@[simp]
lemma mapPhis_checkInstruction :
    (b.mapPhis g).checkInstruction name = b.checkInstruction name := rfl

/-- What a narrower phi names exists. -/
lemma checkPhi_of_narrows {phi phi' : Phi} (narrow : phi'.Narrows phi)
    (checked : b.checkPhi name phi = .ok ()) : (b.mapPhis g).checkPhi name phi' = .ok () := by
  obtain ⟨_, receiver, incomings⟩ := Except.exists_of_bind_eq_ok checked
  rw [checkPhi, narrow.receiver, mapPhis_checkVar, mapPhis_checkBlock, receiver]
  exact Except.forM_eq_ok fun _ given =>
    Except.of_forM_eq_ok incomings (narrow.incomings given)

/-- Phis that name fewer things pass the check of the names that the others pass. -/
lemma checkNames_mapPhis (narrow : ∀ phi, (g phi).Narrows phi)
    (checked : b.checkNames name id block = .ok ()) :
    (b.mapPhis g).checkNames name id (block.mapPhis g) = .ok () := by
  rw [checkNames] at checked ⊢
  split at checked
  case isTrue => cases checked
  case isFalse terminated =>
    obtain ⟨_, successors, checked⟩ := Except.exists_of_bind_eq_ok checked
    obtain ⟨_, phis, checked⟩ := Except.exists_of_bind_eq_ok checked
    have phis' : (block.mapPhis g).phis.forM ((b.mapPhis g).checkPhi name) = .ok () := by
      refine Except.forM_eq_ok fun _ mapped => ?_
      obtain ⟨phi, mem, rfl⟩ := List.mem_map.1 mapped
      exact checkPhi_of_narrows (narrow phi) (Except.of_forM_eq_ok phis mem)
    rw [phis', mapPhis_checkBlock, mapPhis_checkVar, mapPhis_checkInstruction,
      BasicBlock.mapPhis_successors, successors]
    exact (if_neg terminated).trans checked

/-- Phis that name fewer things pass the check of the sources that the others pass. -/
lemma checkSources_mapPhis (narrow : ∀ phi, (g phi).Narrows phi)
    (checked : b.checkSources name id block = .ok ()) :
    (b.mapPhis g).checkSources name id (block.mapPhis g) = .ok () := by
  refine Except.forM_eq_ok fun _ mapped => Except.forM_eq_ok fun incoming given => ?_
  obtain ⟨phi, mem, rfl⟩ := List.mem_map.1 mapped
  have source := Except.of_forM_eq_ok (Except.of_forM_eq_ok checked mem)
    ((narrow phi).incomings given)
  rw [mapPhis_predecessors]
  split at source
  case isTrue predecessor => exact if_pos predecessor
  case isFalse => cases source

/-- Phis that name fewer things pass the check of handler inputs that the others pass. -/
lemma checkHandlerInputs_mapPhis (narrow : ∀ phi, (g phi).Narrows phi)
    (checked : b.checkHandlerInputs name id block = .ok ()) :
    (b.mapPhis g).checkHandlerInputs name id (block.mapPhis g) = .ok () := by
  refine Except.forM_eq_ok fun tryCatch mem => Except.forM_eq_ok fun v input => ?_
  refine Except.of_forM_eq_ok (Except.of_forM_eq_ok checked mem) ?_
  rw [handlerInputs, mapPhis_block?] at input
  rw [handlerInputs]
  cases found : b.block? tryCatch.handler with
  | none =>
    rw [found] at input
    exact input
  | some handling =>
    rw [found] at input
    rcases List.mem_append.1 input with taken | read
    · exact List.mem_append_left _ (BasicBlock.mem_valuesFrom_of_mapPhis narrow taken)
    · exact List.mem_append_right _ read

/-- A body that passes its check does so with narrower phis. -/
lemma check_mapPhis (narrow : ∀ phi, (g phi).Narrows phi) (checked : b.check name = .ok ()) :
    (b.mapPhis g).check name = .ok () := by
  obtain ⟨blocks, names, sources, inputs⟩ := check_eq_ok_iff.1 checked
  rw [check_eq_ok_iff, mapPhis_numberedBlocks]
  simp only [List.forall_mem_map]
  exact ⟨by simpa [mapPhis] using blocks, fun e mem => checkNames_mapPhis narrow (names e mem),
    fun e mem => checkSources_mapPhis narrow (sources e mem),
    fun e mem => checkHandlerInputs_mapPhis narrow (inputs e mem)⟩

end Body

end Phis

section Coverage

variable {b : Body} {block : BasicBlock} {id : BlockId} {name : String} {phi : Phi}

/-- A phi has a source for each value that comes in. -/
lemma Phi.length_sources : phi.sources.length = phi.incomings.length := List.length_map _

/-- Merging the edges into a block is naming its predecessors, in some order. -/
lemma Phi.mergesEdges_iff_perm (bound : b.blocks.length ≤ UInt32.size) :
    phi.MergesEdges b id ↔ phi.sources.Perm (b.predecessors id) := by
  rw [List.perm_iff_count]
  refine forall_congr' fun source => ?_
  rw [(Body.nodup_predecessors bound id).count]
  simp only [Body.mem_predecessors_iff bound]

/-- Of a phi that names predecessors only, the number of its incomings tells whether it names all.
-/
lemma Phi.mergesEdges_iff (bound : b.blocks.length ≤ UInt32.size)
    (named : ∀ source ∈ phi.sources, id ∈ b.successors source) :
    phi.MergesEdges b id ↔
      phi.sources.Nodup ∧ (b.predecessors id).length ≤ phi.incomings.length := by
  rw [mergesEdges_iff_perm bound, ← length_sources]
  constructor
  · intro perm
    exact ⟨perm.nodup_iff.2 (Body.nodup_predecessors bound id), Nat.le_of_eq perm.length_eq.symm⟩
  · rintro ⟨nodup, length⟩
    have sub : phi.sources ⊆ b.predecessors id := fun source mem =>
      (Body.mem_predecessors_iff bound).2 (named source mem)
    exact (nodup.subperm sub).perm_of_length_le length

/-- A phi of an accepted body names predecessors of its block only. It merges the edges into the
block exactly if it names no predecessor twice and has as many incomings as there are predecessors,
and this the acceptance does not depend on: the body is accepted with any narrower phis, too. -/
theorem Body.phi_mergesEdges_iff (bound : b.blocks.length ≤ UInt32.size)
    (checked : b.check name = .ok ()) (found : b.block? id = some block) (mem : phi ∈ block.phis) :
    (∀ source ∈ phi.sources, id ∈ b.successors source) ∧
      (phi.MergesEdges b id ↔
        phi.sources.Nodup ∧ (b.predecessors id).length ≤ phi.incomings.length) ∧
      ∀ g : Phi → Phi, (∀ phi, (g phi).Narrows phi) → (b.mapPhis g).check name = .ok () := by
  have named : ∀ source ∈ phi.sources, id ∈ b.successors source := by
    intro source mem'
    obtain ⟨incoming, given, rfl⟩ := List.mem_map.1 mem'
    rw [← Body.mem_predecessors_iff bound]
    exact Body.mem_predecessors checked (Body.mem_numberedBlocks found) mem given
  exact ⟨named, Phi.mergesEdges_iff bound named, fun _ narrow => Body.check_mapPhis narrow checked⟩

/-- The phi at the head of a loop. -/
def loopHead : Phi := ⟨⟨1⟩, [⟨⟨0⟩, ⟨0⟩⟩, ⟨⟨1⟩, ⟨2⟩⟩]⟩

/-- A body that counts its parameter up until it overflows to zero. -/
def countUp (phi : Phi) : Body :=
  { kinds := [.int, .int, .int, .int]
    blocks :=
      [{ BasicBlock.empty with
          instructions := [.intConstant ⟨3⟩ 1]
          terminator := .jump ⟨1⟩ },
       { BasicBlock.empty with
          phis := [phi]
          instructions := [.binary .add ⟨2⟩ ⟨1⟩ ⟨3⟩ .int]
          terminator := .branch .equal ⟨2⟩ ⟨2⟩ ⟨1⟩ },
       { BasicBlock.empty with terminator := .exit (some ⟨1⟩) }] }

/-- The phi of the loop takes its value from the entry and from the loop itself. -/
theorem loopHead_merges :
    (countUp loopHead).check "main" = .ok () ∧ loopHead.MergesEdges (countUp loopHead) ⟨1⟩ := by
  have checked : (countUp loopHead).check "main" = .ok () := rfl
  have found : (countUp loopHead).block? ⟨1⟩ = some _ := rfl
  obtain ⟨_, merges, _⟩ :=
    Body.phi_mergesEdges_iff (by decide) checked found (List.mem_singleton_self loopHead)
  exact ⟨checked, merges.2 ⟨by decide, by decide⟩⟩

/-- Without the incoming from the loop itself the body is accepted, although the phi has no value on
that edge. -/
theorem openLoop_accepted :
    (countUp ⟨⟨1⟩, [⟨⟨0⟩, ⟨0⟩⟩]⟩).check "main" = .ok () ∧
      ⟨1⟩ ∈ (countUp ⟨⟨1⟩, [⟨⟨0⟩, ⟨0⟩⟩]⟩).successors ⟨1⟩ ∧
      ¬Phi.MergesEdges (countUp ⟨⟨1⟩, [⟨⟨0⟩, ⟨0⟩⟩]⟩) ⟨1⟩ ⟨⟨1⟩, [⟨⟨0⟩, ⟨0⟩⟩]⟩ := by
  refine ⟨rfl, by decide, fun merges => ?_⟩
  exact absurd (merges ⟨1⟩) (by decide)

end Coverage

end ObjectBackend
