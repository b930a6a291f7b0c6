import Mathlib.Data.List.Nodup
import Mathlib.Tactic.Lemma
import ObjectBackend.Flow.Liveness
import ObjectBackend.Proofs.Success
import ObjectBackend.Source.Validity

/-!
# Well-formed bodies

What `Body.check` promises of a body it accepts: the blocks and the variables that the analyses of
bodies look up exist.
-/

namespace ObjectBackend

/-- A block is told by its number. -/
lemma BlockId.ofIndex_index (id : BlockId) : BlockId.ofIndex id.index = id := by
  simp [ofIndex, index]

/-- A number of four bytes is that of a block. -/
lemma BlockId.index_ofIndex {i : Nat} (lt : i < UInt32.size) : (BlockId.ofIndex i).index = i :=
  UInt32.toNat_ofNat_of_lt lt

/-- Blocks with the same number are the same. -/
lemma BlockId.eq_of_index_eq {a b : BlockId} (eq : a.index = b.index) : a = b := by
  rw [← ofIndex_index a, eq, ofIndex_index]

/-- A variable is told by its number. -/
lemma Var.ofIndex_index (v : Var) : Var.ofIndex v.index = v := by simp [ofIndex, index]

/-- Variables with the same number are the same. -/
lemma Var.eq_of_index_eq {v w : Var} (eq : v.index = w.index) : v = w := by
  rw [← ofIndex_index v, eq, ofIndex_index]

namespace Body

variable {name : String} {b : Body} {id : BlockId} {block : BasicBlock} {v : Var}

/-- The numbers of the successors are those of the blocks that succeed. -/
lemma mem_successorIndices {j : Nat} :
    j ∈ b.successorIndices id.index ↔ ∃ target ∈ b.successors id, target.index = j := by
  rw [successorIndices, BlockId.ofIndex_index, List.mem_map]

/-- Each block is numbered by its place. -/
lemma getElem?_numberedBlocks (b : Body) (i : Nat) :
    b.numberedBlocks[i]? = (b.blocks[i]?).map fun block => (BlockId.ofIndex i, block) := by
  rw [numberedBlocks, List.getElem?_map, List.getElem?_zipIdx, Option.map_map]
  simp [Function.comp_def]

/-- A block is found under its number, as long as the numbers suffice. -/
lemma block?_of_mem (bound : b.blocks.length ≤ UInt32.size)
    (mem : (id, block) ∈ b.numberedBlocks) : b.block? id = some block := by
  obtain ⟨i, found⟩ := List.getElem?_of_mem mem
  rw [getElem?_numberedBlocks, Option.map_eq_some_iff] at found
  obtain ⟨block', found, eq⟩ := found
  obtain ⟨rfl, rfl⟩ := Prod.mk.inj eq
  have lt := Nat.lt_of_lt_of_le (List.getElem?_eq_some_iff.1 found).1 bound
  rw [block?, BlockId.index_ofIndex lt]
  exact found

/-- A block that exists is among the numbered ones. -/
lemma mem_numberedBlocks (found : b.block? id = some block) : (id, block) ∈ b.numberedBlocks := by
  refine List.mem_of_getElem? (i := id.index) ?_
  rw [getElem?_numberedBlocks, BlockId.ofIndex_index, ← block?, found]
  rfl

/-- Blocks have different numbers, as long as the numbers suffice. -/
lemma nodup_numbers (bound : b.blocks.length ≤ UInt32.size) :
    (b.numberedBlocks.map Prod.fst).Nodup := by
  have numbers : b.numberedBlocks.map Prod.fst =
      (List.range b.blocks.length).map BlockId.ofIndex := by
    rw [numberedBlocks, List.map_map, List.range_eq_range', ← List.zipIdx_map_snd 0 b.blocks,
      List.map_map]
    rfl
  rw [numbers]
  refine List.Nodup.map_on ?_ List.nodup_range
  intro i memi j memj eq
  rw [List.mem_range] at memi memj
  rw [← BlockId.index_ofIndex (Nat.lt_of_lt_of_le memi bound), eq,
    BlockId.index_ofIndex (Nat.lt_of_lt_of_le memj bound)]

/-- A body passes its check if it has blocks and each of them passes the three parts of the check.
-/
lemma check_eq_ok_iff : b.check name = .ok () ↔ b.blocks ≠ [] ∧
    (∀ e ∈ b.numberedBlocks, b.checkNames name e.1 e.2 = .ok ()) ∧
    (∀ e ∈ b.numberedBlocks, b.checkSources name e.1 e.2 = .ok ()) ∧
    ∀ e ∈ b.numberedBlocks, b.checkHandlerInputs name e.1 e.2 = .ok () := by
  have nonempty : ¬b.blocks.isEmpty = true ↔ b.blocks ≠ [] := by rw [List.isEmpty_iff]
  rw [check, ← nonempty]
  constructor
  · intro checked
    split at checked
    case isTrue => cases checked
    case isFalse blocks =>
      obtain ⟨_, names, checked⟩ := Except.exists_of_bind_eq_ok checked
      obtain ⟨_, sources, inputs⟩ := Except.exists_of_bind_eq_ok checked
      exact ⟨blocks, fun _ => Except.of_forM_eq_ok names, fun _ => Except.of_forM_eq_ok sources,
        fun _ => Except.of_forM_eq_ok inputs⟩
  · rintro ⟨blocks, names, sources, inputs⟩
    have names' := Except.forM_eq_ok names
    have sources' := Except.forM_eq_ok sources
    have inputs' := Except.forM_eq_ok inputs
    rw [if_neg blocks, names', sources', inputs']
    rfl

/-- The check of a body goes through all its blocks. -/
lemma check_spec (checked : b.check name = .ok ()) {i : Nat} (found : b.blocks[i]? = some block) :
    b.checkNames name (.ofIndex i) block = .ok () := by
  have numbered : (BlockId.ofIndex i, block) ∈ b.numberedBlocks := by
    refine List.mem_of_getElem? (i := i) ?_
    rw [getElem?_numberedBlocks, found]
    rfl
  exact (check_eq_ok_iff.1 checked).2.1 _ numbered

/-- The check of the names in a block goes through all of them. -/
lemma checkNames_spec (checked : b.checkNames name id block = .ok ()) :
    block.phis.forM (b.checkPhi name) = .ok () ∧
      block.instructions.forM (b.checkInstruction name) = .ok () ∧
      block.terminator.used.forM (b.checkVar name) = .ok () ∧
      block.exceptionVariable.toList.forM (b.checkVar name) = .ok () := by
  rw [checkNames] at checked
  split at checked
  case isTrue => cases checked
  case isFalse =>
    obtain ⟨_, _, checked⟩ := Except.exists_of_bind_eq_ok checked
    obtain ⟨_, phis, checked⟩ := Except.exists_of_bind_eq_ok checked
    obtain ⟨_, instructions, checked⟩ := Except.exists_of_bind_eq_ok checked
    obtain ⟨_, terminator, exception⟩ := Except.exists_of_bind_eq_ok checked
    exact ⟨phis, instructions, terminator, exception⟩

/-- A block that is checked exists. -/
lemma lt_of_checkBlock (checked : b.checkBlock name id = .ok ()) : id.index < b.blocks.length := by
  rw [checkBlock] at checked
  split at checked
  case isTrue lt => exact lt
  case isFalse => cases checked

/-- The successors of a block exist. -/
lemma lt_of_mem_successors (checked : b.check name = .ok ()) {target : BlockId}
    (mem : block ∈ b.blocks) (successor : target ∈ block.successors) :
    target.index < b.blocks.length := by
  obtain ⟨k, found⟩ := List.getElem?_of_mem mem
  have names := check_spec checked found
  rw [checkNames] at names
  split at names
  case isTrue => cases names
  case isFalse =>
    obtain ⟨_, successors, _⟩ := Except.exists_of_bind_eq_ok names
    exact lt_of_checkBlock (Except.of_forM_eq_ok successors successor)

/-- There is a first block. -/
lemma length_pos (checked : b.check name = .ok ()) : 0 < b.blocks.length :=
  List.length_pos_of_ne_nil (check_eq_ok_iff.1 checked).1

/-- The phis of a block name predecessors of it. -/
lemma mem_predecessors (checked : b.check name = .ok ()) (mem : (id, block) ∈ b.numberedBlocks)
    {phi : Phi} {incoming : Incoming} (memPhi : phi ∈ block.phis)
    (given : incoming ∈ phi.incomings) : incoming.source ∈ b.predecessors id := by
  have phis := (check_eq_ok_iff.1 checked).2.2.1 _ mem
  have source := Except.of_forM_eq_ok (Except.of_forM_eq_ok phis memPhi) given
  split at source
  case isTrue predecessor => exact predecessor
  case isFalse => cases source

/-- The predecessors of a block are the blocks with an edge to it. -/
lemma mem_predecessors_iff (bound : b.blocks.length ≤ UInt32.size) {source : BlockId} :
    source ∈ b.predecessors id ↔ id ∈ b.successors source := by
  rw [predecessors, List.mem_map]
  constructor
  · rintro ⟨⟨_, block⟩, mem, rfl⟩
    obtain ⟨numbered, edge⟩ := List.mem_filter.1 mem
    rw [successors, block?_of_mem bound numbered]
    exact of_decide_eq_true edge
  · intro edge
    rw [successors] at edge
    cases found : b.block? source with
    | none =>
      rw [found] at edge
      cases edge
    | some block =>
      rw [found] at edge
      exact ⟨_, List.mem_filter.2 ⟨mem_numberedBlocks found, decide_eq_true edge⟩, rfl⟩

/-- No block is a predecessor twice. -/
lemma nodup_predecessors (bound : b.blocks.length ≤ UInt32.size) (id : BlockId) :
    (b.predecessors id).Nodup :=
  (nodup_numbers bound).sublist (List.filter_sublist.map Prod.fst)

/-- A phi that names each predecessor once names nothing else. -/
lemma sources_perm (bound : b.blocks.length ≤ UInt32.size) (checked : b.check name = .ok ())
    (mem : (id, block) ∈ b.numberedBlocks) {phi : Phi} (memPhi : phi ∈ block.phis)
    (complete : ∀ source ∈ b.predecessors id, (phi.incomings.map (·.source)).count source = 1) :
    (phi.incomings.map (·.source)).Perm (b.predecessors id) := by
  rw [List.perm_iff_count]
  intro source
  by_cases predecessor : source ∈ b.predecessors id
  · rw [complete source predecessor]
    exact (List.count_eq_one_of_mem (nodup_predecessors bound id) predecessor).symm
  · have unnamed : source ∉ phi.incomings.map (·.source) := by
      intro named
      obtain ⟨incoming, given, rfl⟩ := List.mem_map.1 named
      exact predecessor (mem_predecessors checked mem memPhi given)
    rw [List.count_eq_zero_of_not_mem unnamed, List.count_eq_zero_of_not_mem predecessor]

/-- A variable that is checked exists. -/
lemma lt_of_checkVar (checked : b.checkVar name v = .ok ()) : v.index < b.kinds.length := by
  rw [checkVar] at checked
  split at checked
  case isTrue lt => exact lt
  case isFalse => cases checked

/-- The variables that instructions read exist. -/
lemma used_lt (checked : b.check name = .ok ()) {i : Instruction} (mem : block ∈ b.blocks)
    (instr : i ∈ block.instructions) (used : v ∈ i.used) : v.index < b.kinds.length := by
  obtain ⟨k, found⟩ := List.getElem?_of_mem mem
  have names := checkNames_spec (check_spec checked found)
  obtain ⟨_, _, uses⟩ := Except.exists_of_bind_eq_ok (Except.of_forM_eq_ok names.2.1 instr)
  exact lt_of_checkVar (Except.of_forM_eq_ok uses used)

/-- The variables that terminators read exist. -/
lemma terminator_used_lt (checked : b.check name = .ok ()) (mem : block ∈ b.blocks)
    (used : v ∈ block.terminator.used) : v.index < b.kinds.length := by
  obtain ⟨k, found⟩ := List.getElem?_of_mem mem
  have names := checkNames_spec (check_spec checked found)
  exact lt_of_checkVar (Except.of_forM_eq_ok names.2.2.1 used)

/-- The variables that blocks write exist. -/
lemma defs_lt (checked : b.check name = .ok ()) (mem : block ∈ b.blocks)
    (written : v ∈ block.defs) : v.index < b.kinds.length := by
  obtain ⟨k, found⟩ := List.getElem?_of_mem mem
  obtain ⟨phis, instructions, _, exception⟩ := checkNames_spec (check_spec checked found)
  rw [BasicBlock.defs, BasicBlock.headDefs, List.mem_append, List.mem_append, List.mem_filterMap,
    List.mem_map] at written
  rcases written with ⟨i, mem, defined⟩ | ⟨phi, mem, rfl⟩ | caught
  · obtain ⟨_, writes, _⟩ := Except.exists_of_bind_eq_ok (Except.of_forM_eq_ok instructions mem)
    exact lt_of_checkVar (Except.of_forM_eq_ok writes (Option.mem_toList.2 defined))
  · obtain ⟨_, receiver, _⟩ := Except.exists_of_bind_eq_ok (Except.of_forM_eq_ok phis mem)
    exact lt_of_checkVar receiver
  · exact lt_of_checkVar (Except.of_forM_eq_ok exception caught)

/-- The sources and the values of phis exist. -/
lemma incoming_lt (checked : b.check name = .ok ()) {phi : Phi} {incoming : Incoming}
    (mem : block ∈ b.blocks) (memPhi : phi ∈ block.phis) (given : incoming ∈ phi.incomings) :
    incoming.source.index < b.blocks.length ∧ incoming.value.index < b.kinds.length := by
  obtain ⟨k, found⟩ := List.getElem?_of_mem mem
  have names := checkNames_spec (check_spec checked found)
  obtain ⟨_, _, incomings⟩ := Except.exists_of_bind_eq_ok (Except.of_forM_eq_ok names.1 memPhi)
  obtain ⟨_, source, value⟩ := Except.exists_of_bind_eq_ok (Except.of_forM_eq_ok incomings given)
  exact ⟨lt_of_checkBlock source, lt_of_checkVar value⟩

end Body

end ObjectBackend
