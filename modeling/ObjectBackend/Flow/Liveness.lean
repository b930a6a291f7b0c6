import ObjectBackend.Flow.BitSet
import ObjectBackend.Flow.PostOrder
import ObjectBackend.Source.Code

/-!
# Live variables

Which variables are needed later, at the start of each block and across each call site. A variable
is live at the start of a block if the block reads it before writing it, or if it is live at the end
and not written; at the end of a block it is live if a successor needs it at its start or a phi of a
successor takes it over that edge.

The search (`Facts.step?`) starts from empty sets and visits one waiting block after the other. A
visit overwrites the block's two sets with what follows from the starts of its successors, and lets
the predecessors wait if the start has changed. What is found at a start never exceeds what flows to
the block (`Facts.Rising`). So an overwritten set can only grow, within a fixed width, and the
search ends.
-/

namespace ObjectBackend

/-- What a block does to the live variables. -/
structure Transfer where
  /-- Read before they are written. -/
  uses : BitSet
  /-- Written. -/
  defs : BitSet
  /-- Taken by phis of other blocks on the edges from this one. -/
  phiUses : BitSet

namespace BasicBlock

/-- The variables that a block writes before its first instruction. -/
def headDefs (b : BasicBlock) : List Var :=
  b.phis.map (·.receiver) ++ b.exceptionVariable.toList

/-- The variables that a block writes. -/
def defs (b : BasicBlock) : List Var :=
  b.instructions.filterMap Instruction.defined ++ b.headDefs

/-- Step back over an instruction. -/
def liveBefore (i : Instruction) (after : BitSet) : BitSet :=
  (after.eraseAll (i.defined.toList.map Var.index)).insertAll (i.used.map Var.index)

/-- The variables that a block reads before writing them. -/
def uses (capacity : Nat) (b : BasicBlock) : BitSet :=
  let atEnd := (BitSet.empty capacity).insertAll (b.terminator.used.map Var.index)
  (b.instructions.foldr liveBefore atEnd).eraseAll (b.headDefs.map Var.index)

end BasicBlock

namespace Body

/-- The values that phis take on the edges from a block. -/
def phiInputs (b : Body) (id : BlockId) : List Var :=
  b.blocks.flatMap fun block => block.phis.flatMap fun phi =>
    (phi.incomings.filter (·.source = id)).map (·.value)

/-- What the blocks do to the live variables. -/
def transfers (b : Body) : List Transfer :=
  let capacity := b.kinds.length
  b.numberedBlocks.map fun (id, block) =>
    { uses := block.uses capacity
      defs := (BitSet.empty capacity).insertAll (block.defs.map Var.index)
      phiUses := (BitSet.empty capacity).insertAll ((b.phiInputs id).map Var.index) }

/-- The positions of a block's successors. -/
def successorIndices (b : Body) (i : Nat) : List Nat :=
  (b.successors (.ofIndex i)).map BlockId.index

/-- The positions of a block's predecessors. -/
def predecessorIndices (b : Body) (i : Nat) : List Nat :=
  (List.range b.blocks.length).filter fun j => (b.successorIndices j).contains i

end Body

namespace Transfer

/-- What is live at the end of a block, given what is live at the starts of all blocks. -/
def out (t : Transfer) (liveIn : List BitSet) (successors : List Nat) : BitSet :=
  successors.foldl (fun out i => (liveIn[i]?).elim out out.union) t.phiUses

/-- What is live at the start of a block, given what is live at its end. -/
def input (t : Transfer) (out : BitSet) : BitSet := (out.subtract t.defs).union t.uses

/-- What is live at the start of a block, given what is live at the starts of all blocks. -/
def flow (t : Transfer) (liveIn : List BitSet) (successors : List Nat) : BitSet :=
  t.input (t.out liveIn successors)

end Transfer

/-- How far the search for the live variables has come. -/
structure Facts where
  /-- The variables found to be live at the start of each block. -/
  liveIn : List BitSet
  /-- The variables found to be live at the end of each block when it was last visited. -/
  liveOut : List BitSet
  /-- Whether each block waits to be visited. -/
  queued : List Bool
  /-- The blocks that wait, the next one first. -/
  work : List Nat

namespace Facts

/-- Nothing is known to be live, and all blocks wait in reverse post-order. -/
def start (b : Body) : Facts :=
  let count := b.blocks.length
  { liveIn := List.replicate count (BitSet.empty b.kinds.length)
    liveOut := List.replicate count (BitSet.empty b.kinds.length)
    queued := List.replicate count true
    work := reversePostOrder b.successorIndices count }

/-- Let a block wait, unless it waits already. -/
def enqueue (f : Facts) (i : Nat) : Facts :=
  if f.queued[i]? = some false then
    { f with queued := f.queued.set i true, work := i :: f.work }
  else f

/-- Visit the next block: note what is live at its end and at its start. If its start changes, its
predecessors have to be visited again. -/
def visit (b : Body) (f : Facts) (i : Nat) (work : List Nat) (old : BitSet) (t : Transfer) :
    Facts :=
  let out := t.out f.liveIn (b.successorIndices i)
  let new := t.input out
  let visited :=
    { f with liveOut := f.liveOut.set i out, queued := f.queued.set i false, work }
  if new = old then visited
  else (b.predecessorIndices i).foldl enqueue { visited with liveIn := f.liveIn.set i new }

/-- One step of the search. -/
def step? (b : Body) (transfers : List Transfer) (f : Facts) : Option Facts :=
  match f.work with
  | [] => none
  | i :: work =>
    match f.liveIn[i]?, transfers[i]? with
    | some old, some t => some (f.visit b i work old t)
    | _, _ => some { f with work }

/-- What is found to be live at the start of a block never exceeds what flows there. -/
def Rising (b : Body) (transfers : List Transfer) (f : Facts) : Prop :=
  ∀ (i : Nat) (s : BitSet) (t : Transfer), f.liveIn[i]? = some s → transfers[i]? = some t →
    s ≤ t.flow f.liveIn (b.successorIndices i)

/-- How many numbers can still be added to some sets. -/
def roomIn : List BitSet → Nat
  | [] => 0
  | s :: ss => s.room + roomIn ss

/-- The number of facts that can still be found. -/
def room (f : Facts) : Nat := roomIn f.liveIn

end Facts

namespace Transfer

variable {t : Transfer} {liveIn : List BitSet} {succs : List Nat} {i : Nat} {old new : BitSet}

/-- The end of a block is as wide as what its phis take. -/
theorem width_out (t : Transfer) (liveIn : List BitSet) (succs : List Nat) :
    (t.out liveIn succs).width = t.phiUses.width := by
  unfold out
  generalize t.phiUses = out
  induction succs generalizing out with
  | nil => rfl
  | cons j succs ih =>
    rw [List.foldl_cons, ih]
    cases liveIn[j]? <;> rfl

/-- What flows from a block grows with what is live at a start. -/
theorem out_le_out_set (found : liveIn[i]? = some old) (le : old ≤ new) :
    t.out liveIn succs ≤ t.out (liveIn.set i new) succs := by
  have general : ∀ out out' : BitSet, out ≤ out' →
      succs.foldl (fun out j => (liveIn[j]?).elim out out.union) out ≤
        succs.foldl (fun out j => ((liveIn.set i new)[j]?).elim out out.union) out' := by
    induction succs with
    | nil => exact fun _ _ le => le
    | cons j succs ih =>
      intro out out' leOut
      refine ih _ _ ?_
      dsimp only
      by_cases eq : i = j
      · subst eq
        rw [found, List.getElem?_set_self (List.getElem?_eq_some_iff.1 found).1]
        exact BitSet.union_le_union leOut le
      · rw [List.getElem?_set_ne eq]
        cases liveIn[j]? with
        | none => exact leOut
        | some s => exact BitSet.union_le_union leOut (BitSet.le_refl s)
  exact general _ _ (BitSet.le_refl _)

/-- What flows to a block grows with what is live at a start. -/
theorem flow_le_flow_set (found : liveIn[i]? = some old) (le : old ≤ new) :
    t.flow liveIn succs ≤ t.flow (liveIn.set i new) succs :=
  BitSet.union_le_union (BitSet.subtract_le_subtract (out_le_out_set found le) _)
    (BitSet.le_refl _)

end Transfer

namespace Facts

variable {b : Body} {transfers : List Transfer} {f next : Facts} {i : Nat} {work : List Nat}
  {old : BitSet} {t : Transfer}

/-- Letting blocks wait changes nothing that is known to be live. -/
theorem liveIn_foldl_enqueue (is : List Nat) (f : Facts) :
    (is.foldl enqueue f).liveIn = f.liveIn := by
  induction is generalizing f with
  | nil => rfl
  | cons i is ih =>
    rw [List.foldl_cons, ih]
    unfold enqueue
    split <;> rfl

/-- Overwriting a set with itself changes nothing. -/
theorem set_of_getElem? {liveIn : List BitSet} (found : liveIn[i]? = some old) :
    liveIn.set i old = liveIn := by
  obtain ⟨lt, rfl⟩ := List.getElem?_eq_some_iff.1 found
  exact List.set_getElem_self lt

/-- A visit overwrites what is live at the start of the block. -/
theorem liveIn_visit (found : f.liveIn[i]? = some old) :
    (f.visit b i work old t).liveIn =
      f.liveIn.set i (t.flow f.liveIn (b.successorIndices i)) := by
  unfold visit
  dsimp only
  split
  case isTrue same =>
    show f.liveIn = f.liveIn.set i (t.input _)
    rw [same, set_of_getElem? found]
  case isFalse => exact liveIn_foldl_enqueue ..

/-- At the start nothing is live. -/
theorem rising_start (b : Body) : (start b).Rising b b.transfers := by
  intro i s t found transfer
  obtain ⟨⟨id, block⟩, _, rfl⟩ := List.mem_map.1 (List.mem_of_getElem? transfer)
  rw [List.eq_of_mem_replicate (List.mem_of_getElem? found)]
  refine BitSet.empty_le ?_
  show (Transfer.out _ _ _).width = _
  rw [Transfer.width_out]
  exact BitSet.width_insertAll ..

/-- What a visit finds does not exceed what flows to the blocks afterwards. -/
theorem Rising.visit (rising : f.Rising b transfers) (found : f.liveIn[i]? = some old)
    (transfer : transfers[i]? = some t) : (f.visit b i work old t).Rising b transfers := by
  intro j s t' found' transfer'
  rw [liveIn_visit found] at *
  have more := rising i old t found transfer
  refine BitSet.le_trans ?_ (Transfer.flow_le_flow_set found more)
  by_cases eq : i = j
  · subst eq
    rw [List.getElem?_set_self (List.getElem?_eq_some_iff.1 found).1] at found'
    obtain rfl := Option.some.inj found'
    obtain rfl := Option.some.inj (transfer.symm.trans transfer')
    exact BitSet.le_refl _
  · rw [List.getElem?_set_ne eq] at found'
    exact rising j s t' found' transfer'

/-- A step keeps what is found below what flows to the blocks. -/
theorem Rising.step (rising : f.Rising b transfers) (step : f.step? b transfers = some next) :
    next.Rising b transfers := by
  unfold step? at step
  split at step
  case h_1 => cases step
  case h_2 i work top =>
    split at step
    case h_1 old t found transfer =>
      cases step
      exact rising.visit found transfer
    case h_2 =>
      cases step
      exact rising

/-- Replacing a set by one with less room leaves less room. -/
theorem roomIn_set_lt {liveIn : List BitSet} {new : BitSet} (found : liveIn[i]? = some old)
    (less : new.room < old.room) : roomIn (liveIn.set i new) < roomIn liveIn := by
  induction liveIn generalizing i with
  | nil => cases found
  | cons s ss ih =>
    cases i with
    | zero =>
      obtain rfl : s = old := Option.some.inj found
      rw [List.set_cons_zero, roomIn, roomIn]
      omega
    | succ i =>
      have lt := ih (i := i) found
      rw [List.set_cons_succ, roomIn, roomIn]
      omega

/-- A visit finds new facts, or only takes the block from those that wait. -/
theorem Rising.visit_decreases (rising : f.Rising b transfers) (top : f.work = i :: work)
    (found : f.liveIn[i]? = some old) (transfer : transfers[i]? = some t) :
    (f.visit b i work old t).room < f.room ∨
      (f.visit b i work old t).room = f.room ∧
        (f.visit b i work old t).work.length < f.work.length := by
  by_cases same : t.flow f.liveIn (b.successorIndices i) = old
  · refine .inr ⟨?_, ?_⟩
    · rw [room, room, liveIn_visit found, same, set_of_getElem? found]
    · unfold Facts.visit
      dsimp only
      rw [if_pos (show t.input _ = old from same), top]
      exact Nat.lt_succ_self _
  · refine .inl ?_
    rw [room, room, liveIn_visit found]
    exact roomIn_set_lt found (BitSet.room_lt_of_le (rising i old t found transfer) same)

/-- A step finds new facts, or leaves fewer blocks waiting. -/
theorem Rising.decreases (rising : f.Rising b transfers) (step : f.step? b transfers = some next) :
    next.room < f.room ∨ next.room = f.room ∧ next.work.length < f.work.length := by
  unfold step? at step
  split at step
  case h_1 => cases step
  case h_2 i work top =>
    split at step
    case h_1 old t found transfer =>
      cases step
      exact rising.visit_decreases top found transfer
    case h_2 =>
      cases step
      refine .inr ⟨rfl, ?_⟩
      rw [top]
      exact Nat.lt_succ_self _

/-- Visit blocks until none waits. -/
def solve (b : Body) (transfers : List Transfer) (f : Facts) (rising : f.Rising b transfers) :
    Facts :=
  match step : f.step? b transfers with
  | none => f
  | some next => solve b transfers next (rising.step step)
termination_by (f.room, f.work.length)
decreasing_by
  rcases rising.decreases step with less | ⟨same, less⟩
  · exact Prod.Lex.left _ _ less
  · rw [same]
    exact Prod.Lex.right _ less

end Facts

/-- The facts about a body when no block waits any more. -/
def Body.solution (b : Body) : Facts :=
  (Facts.start b).solve b b.transfers (Facts.rising_start b)

/-- A call site and the references that are live across it, its own result left out. -/
structure LiveSite where
  block : BlockId
  position : Nat
  live : List Var
deriving DecidableEq

/-- The live variables of a body. -/
structure Liveness where
  liveIn : List BitSet
  liveOut : List BitSet
  sites : List LiveSite

namespace Liveness

/-- The members of a set that are references, in ascending order. -/
def references (b : Body) (s : BitSet) : List Var :=
  (s.toList.filter fun i => (b.kinds[i]?).any Kind.isReference).map Var.ofIndex

/-- Step back over instructions, collecting the call sites. -/
def collect (b : Body) (id : BlockId) (atEnd : BitSet) :
    List (Instruction × Nat) → BitSet × List LiveSite
  | [] => (atEnd, [])
  | (i, position) :: rest =>
    let (after, sites) := collect b id atEnd rest
    let across := after.eraseAll (i.defined.toList.map Var.index)
    let here :=
      if i.isCallSite then [{ block := id, position, live := references b across }] else []
    (across.insertAll (i.used.map Var.index), here ++ sites)

/-- The call sites of a block at whose end a set of variables is live. -/
def blockSites (b : Body) (id : BlockId) (block : BasicBlock) (liveOut : BitSet) :
    List LiveSite :=
  (collect b id (liveOut.insertAll (block.terminator.used.map Var.index))
    block.instructions.zipIdx).2

/-- The live variables of a body. -/
def analyze (b : Body) : Liveness :=
  let facts := b.solution
  { liveIn := facts.liveIn
    liveOut := facts.liveOut
    sites := (b.numberedBlocks.zip facts.liveOut).flatMap fun ((id, block), out) =>
      blockSites b id block out }

/-- The call site at a position of a block. -/
def siteAt? (l : Liveness) (block : BlockId) (position : Nat) : Option LiveSite :=
  l.sites.find? fun s => s.block = block ∧ s.position = position

/-- The number of cells a frame needs for the references of any call site. -/
def frameSize (l : Liveness) : Nat := (l.sites.map (·.live.length)).foldl max 0

end Liveness

end ObjectBackend
