import Mathlib.Tactic.Lemma
import ObjectBackend.Proofs.Flow.Fixpoint

/-!
# The look-ups of the analysis

The analysis of live variables looks up blocks by their numbers: those that the depth-first walk
enters, those that wait to be visited with their successors and predecessors, and those whose call
sites are collected. `Liveness.analyze?` is that analysis with every such look-up made strict, so
that it gives nothing as soon as a number is not that of a block. For a well-formed body both are
the same (`Liveness.analyze?_eq`): walks and visits never leave the blocks of the body, since the
successors of its blocks are among them.
-/

namespace ObjectBackend

namespace Walk

/-- A node that is entered is not fresh any more. -/
lemma length_erase_lt {node : Nat} {fresh : List Nat} (mem : node ∈ fresh) :
    (fresh.erase node).length < fresh.length := by
  rw [List.length_erase_of_mem mem]
  exact Nat.sub_one_lt_of_lt (List.length_pos_of_mem mem)

/-- A walk that gives nothing if it enters a node without successors of its own. -/
def visit? (successors? : Nat → Option (List Nat)) (fresh : List Nat) :
    List Nat → Option (Walk fresh)
  | [] => some { rest := fresh, left := [], rest_le := Nat.le_refl _ }
  | node :: nodes =>
    if mem : node ∈ fresh then
      have shorter := length_erase_lt mem
      (successors? node).bind fun next =>
      (visit? successors? (fresh.erase node) next).bind fun below =>
      have fewer : below.rest.length < fresh.length := Nat.lt_of_le_of_lt below.rest_le shorter
      (visit? successors? below.rest nodes).map fun others =>
        { rest := others.rest
          left := below.left ++ node :: others.left
          rest_le := Nat.le_trans others.rest_le (Nat.le_of_lt fewer) }
    else
      (visit? successors? fresh nodes).map fun others =>
        { rest := others.rest, left := others.left, rest_le := others.rest_le }
termination_by nodes => (fresh.length, nodes.length)
decreasing_by
  · exact Prod.Lex.left _ _ shorter
  · exact Prod.Lex.left _ _ fewer
  · exact Prod.Lex.right _ (Nat.lt_succ_self _)

variable {successors : Nat → List Nat} {successors? : Nat → Option (List Nat)}
  {fresh nodes : List Nat}

/-- Only fresh nodes are entered. -/
lemma visit?_eq (exist : ∀ i ∈ fresh, successors? i = some (successors i)) :
    visit? successors? fresh nodes = some (visit successors fresh nodes) := by
  fun_induction visit successors fresh nodes with
  | case1 => rw [visit?]
  | case2 fresh node nodes mem shorter below fewer others ihBelow ihOthers =>
    have fewerExist : ∀ i ∈ fresh.erase node, successors? i = some (successors i) :=
      fun i member => exist i (List.mem_of_mem_erase member)
    rw [visit?, dif_pos mem, exist node mem, Option.bind_some, ihBelow fewerExist,
      Option.bind_some, ihOthers fun i member => fewerExist i (mem_of_mem_rest member)]
    rfl
  | case3 fresh node nodes stale others ih =>
    rw [visit?, dif_neg stale, ih exist]
    rfl

end Walk

/-- The reverse post-order of a graph, if every node that is entered is one of it. -/
def reversePostOrder? (successors? : Nat → Option (List Nat)) (count : Nat) :
    Option (List Nat) := do
  let reached ← Walk.visit? successors? (List.range count) [0]
  let others ← Walk.visit? successors? reached.rest (List.range count)
  return reached.left.reverse ++ others.left

/-- The reverse post-order enters only nodes that are counted. -/
lemma reversePostOrder?_eq {successors : Nat → List Nat} {successors? : Nat → Option (List Nat)}
    {count : Nat} (exist : ∀ i < count, successors? i = some (successors i)) :
    reversePostOrder? successors? count = some (reversePostOrder successors count) := by
  have known : ∀ i ∈ List.range count, successors? i = some (successors i) :=
    fun i mem => exist i (List.mem_range.1 mem)
  let rest := (Walk.visit successors (List.range count) [0]).rest
  have others : Walk.visit? successors? rest (List.range count) =
      some (Walk.visit successors rest (List.range count)) :=
    Walk.visit?_eq fun i mem => known i (Walk.mem_of_mem_rest mem)
  rw [reversePostOrder?, Walk.visit?_eq known]
  dsimp only [Option.bind_eq_bind, Option.bind_some]
  rw [others]
  rfl

namespace Body

/-- The positions of a block's successors, if there is such a block. -/
def successorIndices? (b : Body) (i : Nat) : Option (List Nat) :=
  (b.block? (.ofIndex i)).map fun block => block.successors.map BlockId.index

/-- The phis name only blocks of the body. -/
def SourcesExist (b : Body) : Prop :=
  ∀ block ∈ b.blocks, ∀ phi ∈ block.phis, ∀ incoming ∈ phi.incomings,
    (b.block? incoming.source).isSome

/-- Whether sources exist is decided by looking at each phi. -/
instance (b : Body) : Decidable b.SourcesExist :=
  inferInstanceAs (Decidable (∀ block ∈ b.blocks, ∀ phi ∈ block.phis, ∀ incoming ∈ phi.incomings,
    (b.block? incoming.source).isSome))

end Body

/-- What is live at the end of a block, if its successors exist. -/
def Transfer.out? (t : Transfer) (liveIn : List BitSet) (successors : List Nat) :
    Option BitSet :=
  successors.foldlM (fun out i => (liveIn[i]?).map out.union) t.phiUses

namespace Facts

/-- Let a block wait unless it waits already, if it has a flag. -/
def enqueue? (f : Facts) (i : Nat) : Option Facts :=
  (f.queued[i]?).map fun waits =>
    if waits then f else { f with queued := f.queued.set i true, work := i :: f.work }

/-- Visit the next block, if it and all blocks that are looked up exist. -/
def visit? (b : Body) (transfers : List Transfer) (f : Facts) (i : Nat) (work : List Nat) :
    Option Facts :=
  (f.liveIn[i]?).bind fun old =>
  (transfers[i]?).bind fun t =>
  (b.successorIndices? i).bind fun successors =>
  (t.out? f.liveIn successors).bind fun out =>
  (f.liveOut[i]?).bind fun _ =>
  (f.queued[i]?).bind fun _ =>
    let new := t.input out
    let visited :=
      { f with liveOut := f.liveOut.set i out, queued := f.queued.set i false, work }
    if new = old then some visited
    else (b.predecessorIndices i).foldlM enqueue? { visited with liveIn := f.liveIn.set i new }

end Facts

section Lookups

variable {b : Body} {name : String} {f next : Facts} {t : Transfer}
  {succs work is : List Nat} {i n : Nat}

namespace Body

/-- The number of a block that exists is again that of a block. -/
lemma index_ofIndex_lt (lt : i < b.blocks.length) :
    (BlockId.ofIndex i).index < b.blocks.length :=
  Nat.lt_of_le_of_lt (Nat.mod_le _ _) lt

/-- A block that exists has successors. -/
lemma successorIndices?_eq (lt : i < b.blocks.length) :
    b.successorIndices? i = some (b.successorIndices i) := by
  have found := List.getElem?_eq_getElem (index_ofIndex_lt lt)
  rw [successorIndices?, successorIndices, successors, block?, found]
  rfl

/-- If the look-up of a block succeeds it gives the successors. -/
lemma eq_of_successorIndices? (looked : b.successorIndices? i = some succs) :
    b.successorIndices i = succs := by
  obtain ⟨block, found, rfl⟩ := Option.map_eq_some_iff.1 looked
  rw [successorIndices, successors, found]

/-- The edges of a well-formed body lead to blocks of it. -/
lemma lt_of_mem_successorIndices (checked : b.check name = .ok ()) {j : Nat}
    (mem : j ∈ b.successorIndices i) : j < b.blocks.length := by
  obtain ⟨target, edge, rfl⟩ := List.mem_map.1 mem
  rw [successors] at edge
  split at edge
  case h_1 => cases edge
  case h_2 block found =>
    exact lt_of_mem_successors checked (List.mem_of_getElem? found) edge

/-- The phis of a well-formed body name only blocks of it. -/
lemma sourcesExist (checked : b.check name = .ok ()) : b.SourcesExist := by
  intro block mem phi memPhi incoming given
  have lt := (incoming_lt checked mem memPhi given).1
  rw [block?, List.getElem?_eq_getElem lt]
  rfl

end Body

namespace Transfer

/-- What is live at the end of a block whose successors have sets. -/
lemma out?_eq {liveIn : List BitSet} (exist : ∀ j ∈ succs, j < liveIn.length) :
    t.out? liveIn succs = some (t.out liveIn succs) := by
  rw [out?, out]
  generalize t.phiUses = out
  induction succs generalizing out with
  | nil => rfl
  | cons j succs ih =>
    obtain ⟨lt, others⟩ := List.forall_mem_cons.1 exist
    rw [List.foldlM_cons, List.foldl_cons, List.getElem?_eq_getElem lt]
    exact ih others _

/-- If all look-ups at the end of a block succeed, they give what is live there. -/
lemma eq_of_out? {liveIn : List BitSet} {out : BitSet} (looked : t.out? liveIn succs = some out) :
    t.out liveIn succs = out := by
  rw [out?] at looked
  rw [Transfer.out]
  generalize t.phiUses = first at *
  induction succs generalizing first with
  | nil => exact Option.some.inj looked
  | cons j succs ih =>
    rw [List.foldlM_cons] at looked
    obtain ⟨_, joined, looked⟩ := Option.bind_eq_some_iff.1 looked
    obtain ⟨s, found, rfl⟩ := Option.map_eq_some_iff.1 joined
    rw [List.foldl_cons, found]
    exact ih _ looked

end Transfer

namespace Facts

/-- A block that has a flag is let to wait. -/
lemma enqueue?_eq {waits : Bool} (flag : f.queued[i]? = some waits) :
    f.enqueue? i = some (f.enqueue i) := by
  rw [enqueue?, enqueue, flag]
  cases waits <;> rfl

/-- If a block can be let to wait with all look-ups succeeding, it has a flag. -/
lemma eq_of_enqueue? (looked : f.enqueue? i = some next) : f.enqueue i = next := by
  obtain ⟨waits, flag, _⟩ := Option.map_eq_some_iff.1 looked
  exact Option.some.inj ((enqueue?_eq flag).symm.trans looked)

/-- If blocks can be let to wait with all look-ups succeeding, they are. -/
lemma eq_of_foldlM_enqueue? (looked : is.foldlM enqueue? f = some next) :
    is.foldl enqueue f = next := by
  induction is generalizing f with
  | nil => exact Option.some.inj looked
  | cons i is ih =>
    rw [List.foldlM_cons] at looked
    obtain ⟨f', first, looked⟩ := Option.bind_eq_some_iff.1 looked
    rw [List.foldl_cons, eq_of_enqueue? first]
    exact ih looked

/-- Blocks that have flags are let to wait. -/
lemma Waiting.foldlM_enqueue? (waiting : Waiting n f) (lt : ∀ i ∈ is, i < n) :
    is.foldlM Facts.enqueue? f = some (is.foldl Facts.enqueue f) := by
  induction is generalizing f with
  | nil => rfl
  | cons i is ih =>
    obtain ⟨first, others⟩ := List.forall_mem_cons.1 lt
    rw [List.foldlM_cons, enqueue?_eq (waiting.queued i first), List.foldl_cons]
    exact ih (waiting.enqueue first).1 others

/-- A visit all of whose look-ups succeed is a step. -/
lemma step?_of_visit? {transfers : List Transfer} (top : f.work = i :: work)
    (visited : f.visit? b transfers i work = some next) : f.step? b transfers = some next := by
  obtain ⟨old, found, visited⟩ := Option.bind_eq_some_iff.1 visited
  obtain ⟨t, transfer, visited⟩ := Option.bind_eq_some_iff.1 visited
  obtain ⟨succs, edges, visited⟩ := Option.bind_eq_some_iff.1 visited
  obtain ⟨out, looked, visited⟩ := Option.bind_eq_some_iff.1 visited
  obtain ⟨_, _, visited⟩ := Option.bind_eq_some_iff.1 visited
  obtain ⟨_, _, visited⟩ := Option.bind_eq_some_iff.1 visited
  have edges : b.successorIndices i = succs := Body.eq_of_successorIndices? edges
  rw [step?, top]
  dsimp only
  rw [found, transfer]
  dsimp only
  rw [visit, edges, Transfer.eq_of_out? looked]
  dsimp only at visited ⊢
  split
  case isTrue same => rwa [if_pos same] at visited
  case isFalse changed =>
    rw [if_neg changed] at visited
    rw [eq_of_foldlM_enqueue? visited]

/-- All look-ups of a visit succeed. -/
lemma Invariant.exists_visit? (checked : b.check name = .ok ()) (invariant : Invariant b f)
    (top : f.work = i :: work) : ∃ next, f.visit? b b.transfers i work = some next := by
  obtain ⟨sized, waiting, _, _⟩ := invariant
  have lt := waiting.lt i (top ▸ List.mem_cons_self ..)
  have found := List.getElem?_eq_getElem (sized.liveIn.symm ▸ lt)
  have transfer := List.getElem?_eq_getElem ((Body.length_transfers b).symm ▸ lt)
  have stored := List.getElem?_eq_getElem (sized.liveOut.symm ▸ lt)
  have next : ∀ j ∈ b.successorIndices i, j < f.liveIn.length := fun j mem => by
    rw [sized.liveIn]
    exact Body.lt_of_mem_successorIndices checked mem
  have blocks : ∀ j ∈ b.predecessorIndices i, j < b.blocks.length := fun j =>
    lt_of_mem_predecessorIndices
  rw [visit?, found, transfer, Body.successorIndices?_eq lt, stored, waiting.queued i lt]
  dsimp only [Option.bind_some]
  rw [Transfer.out?_eq next, Option.bind_some]
  split
  case isTrue => exact ⟨_, rfl⟩
  case isFalse => exact ⟨_, (waiting.pop top).foldlM_enqueue? blocks⟩

/-- Visit blocks until none waits, if all blocks that are looked up exist. -/
def solve? (b : Body) (transfers : List Transfer) (f : Facts) (rising : f.Rising b transfers) :
    Option Facts :=
  match top : f.work with
  | [] => some f
  | i :: work =>
    match visited : f.visit? b transfers i work with
    | none => none
    | some next => solve? b transfers next (rising.step (step?_of_visit? top visited))
termination_by (f.room, f.work.length)
decreasing_by
  rcases rising.decreases (step?_of_visit? top visited) with less | ⟨same, less⟩
  · exact Prod.Lex.left _ _ less
  · rw [same]
    exact Prod.Lex.right _ less

/-- All look-ups of the search succeed. -/
lemma Invariant.solve?_eq (checked : b.check name = .ok ()) (rising : f.Rising b b.transfers)
    (invariant : Invariant b f) :
    f.solve? b b.transfers rising = some (f.solve b b.transfers rising) := by
  fun_induction Facts.solve b b.transfers f rising with
  | case1 f rising none =>
    unfold Facts.solve?
    split
    case h_1 => rfl
    case h_2 i work top =>
      obtain ⟨next, visited⟩ := invariant.exists_visit? checked top
      rw [step?_of_visit? top visited] at none
      cases none
  | case2 f rising next step ih =>
    unfold Facts.solve?
    split
    case h_1 top =>
      rw [step?, top] at step
      cases step
    case h_2 i work top =>
      obtain ⟨next', visited⟩ := invariant.exists_visit? checked top
      obtain rfl := Option.some.inj (step.symm.trans (step?_of_visit? top visited))
      split
      case h_1 none => cases visited.symm.trans none
      case h_2 next'' visited' =>
        obtain rfl := Option.some.inj (visited.symm.trans visited')
        exact ih (invariant.step checked step)

end Facts

/-- Every block is found with its entry of a list that has one for each. -/
lemma mapM_zipIdx {α β γ : Type} (g : α → β → γ) (before : List β) {xs : List α} {ys : List β}
    (length : xs.length = ys.length) :
    (xs.zipIdx before.length).mapM (fun e => ((before ++ ys)[e.2]?).map (g e.1)) =
      some (List.zipWith g xs ys) := by
  induction xs generalizing before ys with
  | nil => rfl
  | cons x xs ih =>
    obtain _ | ⟨y, ys⟩ := ys
    case nil => cases length
    have first : (before ++ y :: ys)[before.length]? = some y := by simp
    have others := ih (before ++ [y]) (Nat.succ.inj length)
    rw [List.length_append, List.length_singleton, List.append_assoc,
      List.singleton_append] at others
    rw [List.zipIdx_cons, List.mapM_cons, first, others]
    rfl

namespace Liveness

/-- The live variables of a body, if all blocks that are looked up exist. -/
def analyze? (b : Body) : Option Liveness :=
  if b.SourcesExist then
    (reversePostOrder? b.successorIndices? b.blocks.length).bind fun work =>
    (Facts.solve? b b.transfers { Facts.start b with work } (Facts.rising_start b)).bind
      fun facts =>
    (b.numberedBlocks.zipIdx.mapM fun e =>
      (facts.liveOut[e.2]?).map (blockSites b e.1.1 e.1.2)).map fun sites =>
    { liveIn := facts.liveIn, liveOut := facts.liveOut, sites := sites.flatten }
  else none

/-- The analysis of a well-formed body looks up no block that does not exist. -/
lemma analyze?_eq (checked : b.check name = .ok ()) : analyze? b = some (analyze b) := by
  have order : reversePostOrder? b.successorIndices? b.blocks.length =
      some (reversePostOrder b.successorIndices b.blocks.length) :=
    reversePostOrder?_eq fun i => Body.successorIndices?_eq
  have facts : (Facts.start b).solve? b b.transfers (Facts.rising_start b) = some b.solution :=
    (Facts.invariant_start b).solve?_eq checked (Facts.rising_start b)
  have length : b.numberedBlocks.length = b.solution.liveOut.length := by
    rw [Body.length_solution_liveOut]
    simp [Body.numberedBlocks]
  have sites : b.numberedBlocks.zipIdx.mapM (fun e =>
      (b.solution.liveOut[e.2]?).map (blockSites b e.1.1 e.1.2)) =
      some (List.zipWith (fun e => blockSites b e.1 e.2) b.numberedBlocks b.solution.liveOut) :=
    mapM_zipIdx (fun (e : BlockId × BasicBlock) => blockSites b e.1 e.2) [] length
  rw [analyze?, if_pos (Body.sourcesExist checked), order, Option.bind_some]
  change Option.bind (Facts.solve? b b.transfers (Facts.start b) _) _ = _
  rw [facts, Option.bind_some, sites, Option.map_some, analyze]
  dsimp only
  rw [List.flatMap_def, List.zip_eq_zipWith, List.map_zipWith]

end Liveness

end Lookups

end ObjectBackend
