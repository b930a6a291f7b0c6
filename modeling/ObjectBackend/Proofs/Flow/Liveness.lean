import ObjectBackend.Proofs.Flow.Fixpoint

/-!
# Exact liveness

The analysis finds just the variables that are live (`Liveness.analysis_is_exact`): at the starts
and the ends of blocks, where its sets are the fixpoint, and across every call site, where it steps
back over the instructions that follow. Each call site has one entry, and a frame is as large as the
longest list of references that has to be kept.
-/

namespace ObjectBackend

variable {b : Body} {name : String} {id : BlockId} {block : BasicBlock} {v : Var}

/-- The places of the call sites of a body, in the order of blocks and instructions. -/
def Body.callSites (b : Body) : List (BlockId × Nat) :=
  b.numberedBlocks.flatMap fun (id, block) =>
    (block.instructions.zipIdx.filter (·.1.isCallSite)).map fun (_, position) => (id, position)

namespace Liveness

/-- The sets stored at the ends of blocks hold the variables that are live there. -/
lemma liveOut_holds (checked : b.check name = .ok ()) (found : b.block? id = some block) :
    ∃ out, (analyze b).liveOut[id.index]? = some out ∧ out.width = b.width ∧
      out.Holds (b.LiveOut · id) := by
  obtain ⟨invariant, done⟩ := Body.solution_invariant checked
  obtain ⟨t, spec, width, _, stored, _⟩ := invariant.exists_sets checked done found
  refine ⟨_, stored, (Transfer.width_out ..).trans width, fun x => ?_⟩
  rw [Transfer.contains_out invariant.sized.width width, spec.phiUses x]
  constructor
  · rintro (⟨v, eq, flows⟩ | ⟨j, edge, s, start, mem⟩)
    · exact ⟨v, eq, .inl flows⟩
    · obtain ⟨target, step, rfl⟩ := Body.mem_successorIndices.1 edge
      obtain ⟨v, eq, live⟩ := invariant.sound target s start x mem
      exact ⟨v, eq, .inr ⟨target, step, live⟩⟩
  · rintro ⟨v, rfl, flows | ⟨target, edge, live⟩⟩
    · exact .inl ⟨v, rfl, flows⟩
    · obtain ⟨s, start, mem⟩ := invariant.contains_of_liveIn checked done live
      exact .inr ⟨target.index, Body.mem_successorIndices.2 ⟨target, edge, rfl⟩, s, start, mem⟩

/-- Stepping back over instructions while collecting call sites is stepping back over them. -/
lemma collect_fst {atEnd : BitSet} {is : List (Instruction × Nat)} :
    (collect b id atEnd is).1 = (is.map (·.1)).foldr BasicBlock.liveBefore atEnd := by
  induction is with
  | nil => rfl
  | cons i is ih =>
    rw [List.map_cons, List.foldr_cons, ← ih]
    rfl

/-- The call sites that are collected are those there are. -/
lemma map_collect_snd {atEnd : BitSet} {is : List (Instruction × Nat)} :
    (collect b id atEnd is).2.map (fun s => (s.block, s.position)) =
      (is.filter (·.1.isCallSite)).map fun (_, position) => (id, position) := by
  induction is with
  | nil => rfl
  | cons i is ih =>
    obtain ⟨i, position⟩ := i
    rw [collect, List.map_append, ih, List.filter_cons]
    cases i.isCallSite <;> simp

/-- The references that are live across an instruction after which others follow. -/
def across (b : Body) (atEnd : BitSet) (i : Instruction) (is : List Instruction) : List Var :=
  references b
    ((is.foldr BasicBlock.liveBefore atEnd).eraseAll (i.defined.toList.map Var.index))

/-- The call site at a position is found among those that are collected. -/
lemma find?_collect (b : Body) (id : BlockId) (atEnd : BitSet) (first : Nat)
    {is : List Instruction} {i : Instruction} {n : Nat} (instr : is[n]? = some i)
    (site : i.isCallSite = true) :
    (collect b id atEnd (is.zipIdx first)).2.find?
        (fun s => s.block = id ∧ s.position = first + n) =
      some ⟨id, first + n, across b atEnd i (is.drop (n + 1))⟩ := by
  induction is generalizing first n with
  | nil => cases instr
  | cons j is ih =>
    rw [List.zipIdx_cons]
    simp only [collect, collect_fst, List.zipIdx_map_fst]
    cases n with
    | zero =>
      obtain rfl : j = i := Option.some.inj instr
      rw [if_pos site, List.singleton_append, List.find?_cons_of_pos (by simp)]
      rfl
    | succ n =>
      have later := ih (first + 1) (n := n) instr
      rw [Nat.add_assoc, Nat.add_comm 1 n] at later
      rw [List.find?_append, later, List.drop_succ_cons]
      cases j.isCallSite <;> simp

/-- The call sites that are collected are those of one block. -/
lemma block_of_mem_collect {atEnd : BitSet} {is : List (Instruction × Nat)} {s : LiveSite}
    (mem : s ∈ (collect b id atEnd is).2) : s.block = id := by
  have mem' := List.mem_map_of_mem (f := fun s : LiveSite => (s.block, s.position)) mem
  rw [map_collect_snd] at mem'
  obtain ⟨_, _, eq⟩ := List.mem_map.1 mem'
  exact (congrArg Prod.fst eq).symm

/-- The blocks with what is live at their ends, as the call sites are collected from them. -/
lemma getElem?_zip_liveOut {out : BitSet} (found : b.block? id = some block)
    (atEnd : (analyze b).liveOut[id.index]? = some out) :
    (b.numberedBlocks.zip (analyze b).liveOut)[id.index]? = some ((id, block), out) := by
  rw [List.getElem?_zip_eq_some, Body.getElem?_numberedBlocks, BlockId.ofIndex_index,
    ← Body.block?, found]
  exact ⟨rfl, atEnd⟩

/-- A search ends at an element that gives a result if none before it does. -/
lemma findSome?_of_getElem? {α β : Type} {f : α → Option β} {xs : List α} {x : α} {y : β} {n : Nat}
    (place : xs[n]? = some x) (result : f x = some y)
    (before : ∀ m < n, ∀ x', xs[m]? = some x' → f x' = none) : xs.findSome? f = some y := by
  induction xs generalizing n with
  | nil => cases place
  | cons x' xs ih =>
    cases n with
    | zero =>
      obtain rfl : x' = x := Option.some.inj place
      rw [List.findSome?_cons, result]
    | succ n =>
      rw [List.findSome?_cons, before 0 (Nat.succ_pos n) x' rfl]
      exact ih place fun m lt x'' place' => before (m + 1) (Nat.succ_lt_succ lt) x'' place'

/-- The call site found at a place of a block is found at that place of the body. -/
lemma siteAt?_of_blockSites {out : BitSet} {position : Nat} {site : LiveSite}
    (found : b.block? id = some block) (atEnd : (analyze b).liveOut[id.index]? = some out)
    (here : (blockSites b id block out).find? (fun s => s.block = id ∧ s.position = position) =
      some site) :
    (analyze b).siteAt? id position = some site := by
  change List.find? _ ((b.numberedBlocks.zip (analyze b).liveOut).flatMap _) = _
  rw [List.find?_flatMap]
  refine findSome?_of_getElem? (getElem?_zip_liveOut found atEnd) here ?_
  rintro m less ⟨⟨other, block'⟩, out'⟩ place
  rw [List.getElem?_zip_eq_some, Body.getElem?_numberedBlocks, Option.map_eq_some_iff] at place
  obtain ⟨⟨_, _, eq⟩, _⟩ := place
  obtain rfl : BlockId.ofIndex m = other := congrArg Prod.fst eq
  refine List.find?_eq_none.2 fun s mem => ?_
  -- only positions below the number of block numbers are their own numbers, and this one is
  have elsewhere : (BlockId.ofIndex m).index ≠ id.index := by
    rw [BlockId.index_ofIndex (Nat.lt_trans less (UInt32.toNat_lt _))]
    exact Nat.ne_of_lt less
  rw [block_of_mem_collect mem]
  simp only [decide_eq_true_eq, not_and]
  exact fun eq => absurd (congrArg BlockId.index eq) elsewhere

/-- The references of a set are its variables of a kind of references, in ascending order. -/
lemma references_spec {s : BitSet} {P : Var → Prop} (holds : s.Holds P) :
    (references b s).Pairwise (·.index < ·.index) ∧
      ∀ v, v ∈ references b s ↔ (b.kindOf v).any Kind.isReference = true ∧ P v := by
  have position : ∀ x ∈ s.toList, (Var.ofIndex x).index = x := fun x mem => by
    obtain ⟨v, rfl, _⟩ := (holds x).1 (BitSet.mem_toList.1 mem)
    rw [Var.ofIndex_index]
  constructor
  · refine List.pairwise_map.2 ((s.toList_sorted.filter _).imp_of_mem ?_)
    intro x y memx memy less
    rwa [position x (List.mem_filter.1 memx).1, position y (List.mem_filter.1 memy).1]
  · intro v
    rw [references, List.mem_map]
    constructor
    · rintro ⟨x, mem, rfl⟩
      obtain ⟨mem, isReference⟩ := List.mem_filter.1 mem
      rw [Body.kindOf, position x mem]
      refine ⟨isReference, holds.contains_index.1 ?_⟩
      rw [position x mem]
      exact BitSet.mem_toList.1 mem
    · rintro ⟨isReference, h⟩
      refine ⟨v.index, List.mem_filter.2 ⟨?_, isReference⟩, Var.ofIndex_index v⟩
      exact BitSet.mem_toList.2 (holds.contains_index.2 h)

/-- The entry of a call site: the references that are live after it, but its own result. -/
lemma siteAt?_spec {position : Nat} {i : Instruction} (checked : b.check name = .ok ())
    (found : b.block? id = some block) (instr : block.instructions[position]? = some i)
    (site : i.isCallSite = true) :
    ∃ live, (analyze b).siteAt? id position = some ⟨id, position, live⟩ ∧
      live.Pairwise (·.index < ·.index) ∧
      ∀ v, v ∈ live ↔ (b.kindOf v).any Kind.isReference = true ∧
        b.LiveAt v id (position + 1) ∧ i.defined ≠ some v := by
  obtain ⟨out, atEnd, width, holds⟩ := liveOut_holds checked found
  have mem : block ∈ b.blocks := List.mem_of_getElem? found
  have atTerminator := holds.insertAll block.terminator.used
    fun v used => width ▸ Body.lt_width (Body.terminator_used_lt checked mem used)
  have small : ∀ j ∈ block.instructions.drop (position + 1), ∀ v ∈ j.used, v.index < BitSet.width
      (out.insertAll (block.terminator.used.map Var.index)) := by
    rw [BitSet.width_insertAll, width]
    exact fun j later v used =>
      Body.lt_width (Body.used_lt checked mem (List.mem_of_mem_drop later) used)
  have after := (atTerminator.foldr_liveBefore small).eraseAll i.defined.toList
  have live : ∀ v, NeededBy v (b.LiveOut v id ∨ v ∈ block.terminator.used)
      (block.instructions.drop (position + 1)) ∧ v ∉ i.defined.toList ↔
        b.LiveAt v id (position + 1) ∧ i.defined ≠ some v := by
    intro v
    rw [Body.LiveAt, found]
    simp only [Option.some.injEq, exists_eq_left', Option.mem_toList, or_comm]
  have here := find?_collect b id (out.insertAll (block.terminator.used.map Var.index)) 0 instr site
  rw [Nat.zero_add] at here
  obtain ⟨sorted, members⟩ := references_spec (after.congr live)
  exact ⟨_, siteAt?_of_blockSites found atEnd here, sorted, members⟩

/-- There is one entry for each call site, in their order. -/
lemma map_sites (b : Body) :
    (analyze b).sites.map (fun s => (s.block, s.position)) = b.callSites := by
  change List.map _ ((b.numberedBlocks.zip (analyze b).liveOut).flatMap _) = _
  have whole : (b.numberedBlocks.zip (analyze b).liveOut).map (·.1) = b.numberedBlocks := by
    refine List.map_fst_zip (Nat.le_of_eq ?_)
    change _ = b.solution.liveOut.length
    rw [Body.length_solution_liveOut]
    simp [Body.numberedBlocks]
  rw [Body.callSites, ← whole, List.flatMap_map, List.map_flatMap, whole]
  congr 1
  funext entry
  exact map_collect_snd

/-- The size of a frame is the largest length of a list of references. -/
lemma frameSize_spec (l : Liveness) :
    (∀ s ∈ l.sites, s.live.length ≤ l.frameSize) ∧
      (l.frameSize = 0 ∨ ∃ s ∈ l.sites, s.live.length = l.frameSize) := by
  have general : ∀ (ns : List Nat) (start : Nat), (∀ n ∈ ns, n ≤ ns.foldl max start) ∧
      start ≤ ns.foldl max start ∧ (ns.foldl max start = start ∨ ns.foldl max start ∈ ns) := by
    intro ns
    induction ns with
    | nil => simp
    | cons n ns ih =>
      intro start
      obtain ⟨all, ge, attained⟩ := ih (max start n)
      rw [List.foldl_cons]
      refine ⟨?_, by omega, ?_⟩
      · rw [List.forall_mem_cons]
        exact ⟨by omega, all⟩
      · rcases attained with eq | mem
        · rw [eq, List.mem_cons]
          omega
        · exact .inr (List.mem_cons_of_mem _ mem)
  obtain ⟨all, _, attained⟩ := general (l.sites.map (·.live.length)) 0
  refine ⟨fun s mem => all _ (List.mem_map_of_mem mem), attained.imp_right fun mem => ?_⟩
  exact List.mem_map.1 mem

/-- Liveness is exact. In a body that is well formed, the sets at the start and at the end of each
block hold the variables that are live there by paths; each call site has one entry, whose list
holds, in ascending order, the references that are live after the instruction but its own result;
and the size of a frame is the largest length of these lists. -/
theorem analysis_is_exact (checked : b.check name = .ok ()) :
    (∀ id block, b.block? id = some block →
      ∃ start out, (analyze b).liveIn[id.index]? = some start ∧
        (analyze b).liveOut[id.index]? = some out ∧
        start.Holds (b.LiveIn · id) ∧ out.Holds (b.LiveOut · id)) ∧
    (analyze b).sites.map (fun s => (s.block, s.position)) = b.callSites ∧
    (∀ id block position i, b.block? id = some block →
      block.instructions[position]? = some i → i.isCallSite = true →
      ∃ live, (analyze b).siteAt? id position = some ⟨id, position, live⟩ ∧
        live.Pairwise (·.index < ·.index) ∧
        ∀ v, v ∈ live ↔ (b.kindOf v).any Kind.isReference = true ∧
          b.LiveAt v id (position + 1) ∧ i.defined ≠ some v) ∧
    (∀ s ∈ (analyze b).sites, s.live.length ≤ (analyze b).frameSize) ∧
    ((analyze b).frameSize = 0 ∨
      ∃ s ∈ (analyze b).sites, s.live.length = (analyze b).frameSize) := by
  refine ⟨?_, map_sites b, ?_, frameSize_spec _⟩
  · intro id block found
    obtain ⟨start, atStart, live⟩ := Body.solution_holds checked found
    obtain ⟨out, atEnd, _, live'⟩ := liveOut_holds checked found
    exact ⟨start, out, atStart, atEnd, live, live'⟩
  · intro id block position i found instr site
    exact siteAt?_spec checked found instr site

/-- A loop that calls a method until it gives null, and then returns an object made before. -/
def pollingLoop : Body :=
  { kinds := [.object, .object]
    blocks :=
      [{ BasicBlock.empty with
          instructions := [.construct ⟨0⟩ "Queue"]
          terminator := .jump ⟨1⟩ },
       { BasicBlock.empty with
          instructions := [.invoke (some ⟨1⟩) none ⟨"Queue", ⟨"poll", [], .void⟩⟩ [] .static]
          terminator := .branch .null ⟨1⟩ ⟨2⟩ ⟨1⟩ },
       { BasicBlock.empty with terminator := .exit (some ⟨0⟩) }] }

/-- The object that is returned after the loop is kept across the call in it. -/
theorem pollingLoop_keeps :
    pollingLoop.check "main" = .ok () ∧
      ∃ live, (analyze pollingLoop).siteAt? ⟨1⟩ 0 = some ⟨⟨1⟩, 0, live⟩ ∧
        ⟨0⟩ ∈ live ∧ ⟨1⟩ ∉ live := by
  have checked : pollingLoop.check "main" = .ok () := by rfl
  obtain ⟨live, entry, _, members⟩ :=
    (analysis_is_exact checked).2.2.1 ⟨1⟩ _ 0 _ rfl rfl rfl
  have live₂ : pollingLoop.LiveIn ⟨0⟩ ⟨2⟩ :=
    ⟨⟨2⟩, .refl, .inl ⟨_, rfl, by decide, List.mem_cons_self ..⟩⟩
  refine ⟨checked, live, entry, (members _).2 ⟨rfl, ?_, by decide⟩, fun mem => ?_⟩
  · exact ⟨_, rfl, .inr (.inr ⟨⟨2⟩, by decide, live₂⟩)⟩
  · exact ((members _).1 mem).2.2 rfl

end Liveness

end ObjectBackend
