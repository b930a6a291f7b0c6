import ObjectBackend.Proofs.Flow.PostOrder
import ObjectBackend.Proofs.Flow.Transfer

/-!
# The fixpoint

The sets that the search for live variables ends with hold the live variables
(`Body.solution_holds`). Three invariants of its steps say so. The flags mark the blocks that wait,
each of which waits once (`Facts.Waiting`). Nothing is in a set without a path that makes it live
(`Facts.Sound`), which every visit keeps since it follows an edge backwards. And a block that does
not wait has both sets as they follow from the starts of its successors (`Facts.Settled`), which
every visit keeps since the blocks wait whose sets may change with it. When no block waits all are
settled, and then an induction on the path shows that every live variable is in its set.
-/

namespace ObjectBackend

namespace Transfer

variable {b : Body} {t : Transfer} {liveIn : List BitSet} {succs : List Nat} {i x : Nat}
  {s : BitSet}

/-- What is live at the end of a block flows from it or is live at the start of a successor. -/
lemma contains_out (widths : ∀ s ∈ liveIn, s.width = b.width) (width : t.phiUses.width = b.width) :
    (t.out liveIn succs).contains x = true ↔
      t.phiUses.contains x = true ∨
        ∃ j ∈ succs, ∃ s, liveIn[j]? = some s ∧ s.contains x = true := by
  have general : ∀ out : BitSet, out.width = b.width →
      ((succs.foldl (fun out i => (liveIn[i]?).elim out out.union) out).contains x = true ↔
        out.contains x = true ∨
          ∃ j ∈ succs, ∃ s, liveIn[j]? = some s ∧ s.contains x = true) := by
    induction succs with
    | nil => simp
    | cons j succs ih =>
      intro out width
      rw [List.foldl_cons]
      cases found : liveIn[j]? with
      | none =>
        rw [Option.elim_none, ih out width]
        simp [found]
      | some s =>
        have bound : s.contains x = true → x < out.width := by
          rw [width, ← widths s (List.mem_of_getElem? found)]
          exact BitSet.lt_width
        rw [Option.elim_some, ih (out.union s) width, BitSet.contains_union]
        simp only [Bool.or_eq_true, Bool.and_eq_true, decide_eq_true_eq, List.mem_cons,
          exists_eq_or_imp, found, Option.some.injEq, exists_eq_left']
        tauto
  exact general t.phiUses width

/-- What flows to the start of a block is read by it, or it is live at the end and not written. -/
lemma contains_flow :
    (t.flow liveIn succs).contains x = true ↔
      (t.out liveIn succs).contains x = true ∧ t.defs.contains x = false ∨
        x < t.phiUses.width ∧ t.uses.contains x = true := by
  rw [flow, input, BitSet.contains_union, BitSet.contains_subtract]
  simp only [Bool.or_eq_true, Bool.and_eq_true, Bool.not_eq_true', decide_eq_true_eq]
  rw [show ((t.out liveIn succs).subtract t.defs).width = t.phiUses.width from width_out ..]

/-- What is live at the end of a block depends only on its successors. -/
lemma out_set_of_not_mem (other : i ∉ succs) :
    t.out (liveIn.set i s) succs = t.out liveIn succs := by
  have same : ∀ out : BitSet,
      succs.foldl (fun out j => ((liveIn.set i s)[j]?).elim out out.union) out =
        succs.foldl (fun out j => (liveIn[j]?).elim out out.union) out := by
    induction succs with
    | nil => exact fun _ => rfl
    | cons j succs ih =>
      intro out
      rw [List.mem_cons, not_or] at other
      rw [List.foldl_cons, List.foldl_cons, List.getElem?_set_ne other.1, ih other.2]
  exact same t.phiUses

end Transfer

namespace Facts

variable {b : Body} {f next : Facts} {t : Transfer} {succs work is : List Nat} {i x n : Nat}
  {s old : BitSet} {name : String}

/-- There are two sets for every block of a body, and the first ones have its width. -/
structure Sized (b : Body) (f : Facts) : Prop where
  liveIn : f.liveIn.length = b.blocks.length
  liveOut : f.liveOut.length = b.blocks.length
  width : ∀ s ∈ f.liveIn, s.width = b.width

/-- The flags mark the blocks that wait, among a number of blocks, and each waits once. -/
structure Waiting (n : Nat) (f : Facts) : Prop where
  nodup : f.work.Nodup
  lt : ∀ i ∈ f.work, i < n
  queued : ∀ i < n, f.queued[i]? = some (decide (i ∈ f.work))

/-- A block that does not wait has the sets that follow from the starts of its successors. -/
def Settled (b : Body) (f : Facts) : Prop :=
  ∀ i ∉ f.work, ∀ t, b.transfers[i]? = some t →
    f.liveOut[i]? = some (t.out f.liveIn (b.successorIndices i)) ∧
      f.liveIn[i]? = some (t.flow f.liveIn (b.successorIndices i))

/-- Nothing is in a set but live variables. -/
def Sound (b : Body) (f : Facts) : Prop :=
  ∀ id : BlockId, ∀ s, f.liveIn[id.index]? = some s →
    ∀ x, s.contains x = true → ∃ v : Var, v.index = x ∧ b.LiveIn v id

/-- The invariants of the search. -/
structure Invariant (b : Body) (f : Facts) : Prop where
  sized : Sized b f
  waiting : Waiting b.blocks.length f
  settled : Settled b f
  sound : Sound b f

/-- Letting a block wait keeps the flags right. -/
lemma Waiting.enqueue (waiting : Waiting n f) (lt : i < n) :
    Waiting n (f.enqueue i) ∧ ∀ j, j ∈ (f.enqueue i).work ↔ j = i ∨ j ∈ f.work := by
  rw [Facts.enqueue, waiting.queued i lt]
  by_cases mem : i ∈ f.work
  · rw [decide_eq_true mem, if_neg (by simp)]
    refine ⟨waiting, fun j => ⟨.inr, ?_⟩⟩
    rintro (rfl | later)
    · exact mem
    · exact later
  · rw [decide_eq_false mem, if_pos rfl]
    refine ⟨⟨List.nodup_cons.2 ⟨mem, waiting.nodup⟩, List.forall_mem_cons.2 ⟨lt, waiting.lt⟩, ?_⟩,
      fun j => List.mem_cons⟩
    intro j small
    have flag := waiting.queued j small
    by_cases eq : i = j
    · subst eq
      rw [List.getElem?_set_self (List.getElem?_eq_some_iff.1 flag).1,
        decide_eq_true (List.mem_cons_self ..)]
    · rw [List.getElem?_set_ne eq, flag]
      simp only [List.mem_cons, Ne.symm eq, false_or]

/-- Letting blocks wait keeps the flags right. -/
lemma Waiting.foldl_enqueue (waiting : Waiting n f) (lt : ∀ i ∈ is, i < n) :
    Waiting n (is.foldl Facts.enqueue f) ∧
      ∀ j, j ∈ (is.foldl Facts.enqueue f).work ↔ j ∈ is ∨ j ∈ f.work := by
  induction is generalizing f with
  | nil => simp [waiting]
  | cons i is ih =>
    obtain ⟨first, others⟩ := List.forall_mem_cons.1 lt
    obtain ⟨waiting', mem⟩ := waiting.enqueue first
    obtain ⟨waiting'', mem'⟩ := ih waiting' others
    refine ⟨waiting'', fun j => ?_⟩
    rw [List.foldl_cons, mem', mem, List.mem_cons]
    tauto

/-- When a block is taken from those that wait its flag is lowered. -/
lemma Waiting.pop {liveIn liveOut : List BitSet} (waiting : Waiting n f)
    (top : f.work = i :: work) :
    Waiting n { liveIn, liveOut, queued := f.queued.set i false, work } := by
  obtain ⟨nodup, lt, queued⟩ := waiting
  rw [top] at nodup lt queued
  obtain ⟨once, nodup⟩ := List.nodup_cons.1 nodup
  refine ⟨nodup, (List.forall_mem_cons.1 lt).2, fun j small => ?_⟩
  have flag := queued j small
  by_cases eq : i = j
  · subst eq
    rw [List.getElem?_set_self (List.getElem?_eq_some_iff.1 flag).1, decide_eq_false once]
  · rw [List.getElem?_set_ne eq, flag]
    simp only [List.mem_cons, Ne.symm eq, false_or]

/-- Letting blocks wait changes nothing that is known to be live at the ends of blocks. -/
lemma liveOut_foldl_enqueue : (is.foldl enqueue f).liveOut = f.liveOut := by
  induction is generalizing f with
  | nil => rfl
  | cons i is ih =>
    rw [List.foldl_cons, ih, enqueue]
    split <;> rfl

/-- A visit stores what is live at the end of the block. -/
lemma liveOut_visit :
    (f.visit b i work old t).liveOut =
      f.liveOut.set i (t.out f.liveIn (b.successorIndices i)) := by
  unfold visit
  dsimp only
  split
  case isTrue => rfl
  case isFalse => exact liveOut_foldl_enqueue ..

/-- The predecessors of a block are blocks. -/
lemma lt_of_mem_predecessorIndices {j : Nat} (mem : j ∈ b.predecessorIndices i) :
    j < b.blocks.length :=
  List.mem_range.1 (List.mem_of_mem_filter mem)

/-- After a visit those blocks wait that did before, but the visited one, and the predecessors of a
block whose start has changed. -/
lemma Waiting.visit (waiting : Waiting b.blocks.length f) (top : f.work = i :: work) :
    Waiting b.blocks.length (f.visit b i work old t) ∧
      ∀ j, j ∈ (f.visit b i work old t).work ↔
        t.flow f.liveIn (b.successorIndices i) ≠ old ∧ j ∈ b.predecessorIndices i ∨ j ∈ work := by
  unfold Facts.visit
  dsimp only
  split
  case isTrue same =>
    have same' : t.flow f.liveIn (b.successorIndices i) = old := same
    simp [waiting.pop top, same']
  case isFalse changed =>
    have changed' : t.flow f.liveIn (b.successorIndices i) ≠ old := changed
    have blocks : ∀ j ∈ b.predecessorIndices i, j < b.blocks.length := fun j =>
      lt_of_mem_predecessorIndices
    refine ⟨((waiting.pop top).foldl_enqueue blocks).1, fun j => ?_⟩
    refine (((waiting.pop top).foldl_enqueue blocks).2 j).trans ?_
    simp only [changed', ne_eq, not_false_eq_true, true_and]

/-- A visit keeps the sizes. -/
lemma Sized.visit (sized : Sized b f) (found : f.liveIn[i]? = some old)
    (transfer : b.transfers[i]? = some t) : Sized b (f.visit b i work old t) where
  liveIn := by rw [liveIn_visit found, List.length_set, sized.liveIn]
  liveOut := by rw [liveOut_visit, List.length_set, sized.liveOut]
  width s mem := by
    rw [liveIn_visit found] at mem
    rcases List.mem_or_eq_of_mem_set mem with mem | rfl
    · exact sized.width s mem
    · exact (Transfer.width_out ..).trans
        (Body.width_transfer (List.mem_of_getElem? transfer)).1

/-- After a visit all blocks that do not wait are settled. -/
lemma Settled.visit (sized : Sized b f) (waiting : Waiting b.blocks.length f)
    (settled : Settled b f) (top : f.work = i :: work) (found : f.liveIn[i]? = some old)
    (transfer : b.transfers[i]? = some t) : Settled b (f.visit b i work old t) := by
  intro j other t' transfer'
  have lt : j < b.blocks.length := by
    have := (List.getElem?_eq_some_iff.1 transfer').1
    rwa [Body.length_transfers] at this
  rw [(waiting.visit top).2 j, not_or, not_and_or, not_ne_iff] at other
  obtain ⟨unchanged, notWork⟩ := other
  -- what flows to a block can only change if it leads to the one whose start has changed
  have same : t'.out (f.liveIn.set i (t.flow f.liveIn (b.successorIndices i)))
      (b.successorIndices j) = t'.out f.liveIn (b.successorIndices j) := by
    rcases unchanged with same | notPredecessor
    · rw [same, set_of_getElem? found]
    · refine Transfer.out_set_of_not_mem fun edge => notPredecessor ?_
      exact List.mem_filter.2 ⟨List.mem_range.2 lt, List.contains_iff_mem.2 edge⟩
  have sameFlow : t'.flow (f.liveIn.set i (t.flow f.liveIn (b.successorIndices i)))
      (b.successorIndices j) = t'.flow f.liveIn (b.successorIndices j) := congrArg t'.input same
  rw [liveIn_visit found, liveOut_visit, same, sameFlow]
  by_cases eq : i = j
  · subst eq
    obtain rfl := Option.some.inj (transfer.symm.trans transfer')
    rw [List.getElem?_set_self (sized.liveOut ▸ lt), List.getElem?_set_self (sized.liveIn ▸ lt)]
    exact ⟨rfl, rfl⟩
  · rw [List.getElem?_set_ne eq, List.getElem?_set_ne eq]
    exact settled j (by simp [top, Ne.symm eq, notWork]) t' transfer'

/-- What flows to a block is live at its start. -/
lemma Sound.of_flow {id : BlockId} {block : BasicBlock} (sized : Sized b f) (sound : Sound b f)
    (found : b.block? id = some block) (transfer : b.transfers[id.index]? = some t)
    (spec : b.TransferSpec id block t)
    (flows : (t.flow f.liveIn (b.successorIndices id.index)).contains x = true) :
    ∃ v : Var, v.index = x ∧ b.LiveIn v id := by
  have width := (Body.width_transfer (List.mem_of_getElem? transfer)).1
  rcases Transfer.contains_flow.1 flows with ⟨live, kept⟩ | ⟨_, read⟩
  · have notWritten : ∀ v : Var, v.index = x → ¬ b.Writes v id := by
      rintro v rfl ⟨block', found', written⟩
      obtain rfl := Option.some.inj (found'.symm.trans found)
      rw [spec.defs.contains_index.2 written] at kept
      cases kept
    rcases (Transfer.contains_out sized.width width).1 live with taken | ⟨j, edge, s, start, mem⟩
    · obtain ⟨v, eq, out⟩ := (spec.phiUses x).1 taken
      exact ⟨v, eq, Body.liveIn_iff.2 (.inl (.inr ⟨notWritten v eq, out⟩))⟩
    · obtain ⟨target, step, rfl⟩ := Body.mem_successorIndices.1 edge
      obtain ⟨v, eq, liveIn⟩ := sound target s start x mem
      exact ⟨v, eq, Body.liveIn_iff.2 (.inr ⟨notWritten v eq, target, step, liveIn⟩)⟩
  · obtain ⟨v, eq, reads⟩ := (spec.uses x).1 read
    exact ⟨v, eq, Body.liveIn_iff.2 (.inl (.inl ⟨block, found, reads⟩))⟩

/-- A visit finds only live variables. -/
lemma Sound.visit (checked : b.check name = .ok ()) (sized : Sized b f) (sound : Sound b f)
    (found : f.liveIn[i]? = some old) (transfer : b.transfers[i]? = some t) :
    Sound b (f.visit b i work old t) := by
  intro id s start x mem
  rw [liveIn_visit found] at start
  by_cases eq : i = id.index
  · subst eq
    have lt := (List.getElem?_eq_some_iff.1 found).1
    rw [List.getElem?_set_self lt] at start
    obtain rfl := Option.some.inj start
    rw [sized.liveIn] at lt
    have block : b.block? id = some b.blocks[id.index] := List.getElem?_eq_getElem lt
    obtain ⟨t', transfer', spec⟩ := Body.getElem?_transfers checked block
    obtain rfl := Option.some.inj (transfer'.symm.trans transfer)
    exact sound.of_flow sized block transfer spec mem
  · rw [List.getElem?_set_ne eq] at start
    exact sound id s start x mem

/-- A step keeps the invariants. -/
lemma Invariant.step (checked : b.check name = .ok ()) (invariant : Invariant b f)
    (step : f.step? b b.transfers = some next) : Invariant b next := by
  obtain ⟨sized, waiting, settled, sound⟩ := invariant
  unfold step? at step
  split at step
  case h_1 => cases step
  case h_2 i work top =>
    split at step
    case h_1 old t found transfer =>
      cases step
      exact ⟨sized.visit found transfer, (waiting.visit top).1,
        settled.visit sized waiting top found transfer, sound.visit checked sized found transfer⟩
    case h_2 missing =>
      have lt := waiting.lt i (top ▸ List.mem_cons_self ..)
      have found := List.getElem?_eq_getElem (sized.liveIn.symm ▸ lt)
      have transfer := List.getElem?_eq_getElem ((Body.length_transfers b).symm ▸ lt)
      exact (missing _ _ found transfer).elim

/-- The search keeps the invariants until no block waits. -/
lemma Invariant.solve (checked : b.check name = .ok ()) (rising : f.Rising b b.transfers)
    (invariant : Invariant b f) :
    Invariant b (f.solve b b.transfers rising) ∧ (f.solve b b.transfers rising).work = [] := by
  fun_induction Facts.solve b b.transfers f rising with
  | case1 f rising none =>
    refine ⟨invariant, ?_⟩
    unfold step? at none
    split at none
    case h_1 done => exact done
    case h_2 => split at none <;> cases none
  | case2 f rising next step ih => exact ih (invariant.step checked step)

/-- The search has as many sets for the ends of blocks as it started with. -/
lemma length_liveOut_solve {transfers : List Transfer} (rising : f.Rising b transfers) :
    (f.solve b transfers rising).liveOut.length = f.liveOut.length := by
  fun_induction Facts.solve b transfers f rising with
  | case1 => rfl
  | case2 f rising next step ih =>
    rw [ih]
    unfold step? at step
    split at step
    case h_1 => cases step
    case h_2 =>
      split at step
      case h_1 =>
        cases step
        rw [liveOut_visit, List.length_set]
      case h_2 =>
        cases step
        rfl

/-- When no block waits, every block has its transfer and the sets that follow from it. -/
lemma Invariant.exists_sets {id : BlockId} {block : BasicBlock} (checked : b.check name = .ok ())
    (invariant : Invariant b f) (done : f.work = []) (found : b.block? id = some block) :
    ∃ t, b.TransferSpec id block t ∧ t.phiUses.width = b.width ∧ t.uses.width = b.width ∧
      f.liveOut[id.index]? = some (t.out f.liveIn (b.successorIndices id.index)) ∧
      f.liveIn[id.index]? = some (t.flow f.liveIn (b.successorIndices id.index)) := by
  obtain ⟨t, transfer, spec⟩ := Body.getElem?_transfers checked found
  obtain ⟨width, widthUses⟩ := Body.width_transfer (List.mem_of_getElem? transfer)
  have settled := invariant.settled id.index (by rw [done]; exact List.not_mem_nil) t transfer
  exact ⟨t, spec, width, widthUses, settled⟩

/-- When no block waits, a set has what its block reads before writing it. -/
lemma Invariant.contains_of_readsFirst {id : BlockId} {block : BasicBlock} {v : Var}
    (checked : b.check name = .ok ()) (invariant : Invariant b f) (done : f.work = [])
    (found : b.block? id = some block) (reads : block.ReadsFirst v) :
    ∃ s, f.liveIn[id.index]? = some s ∧ s.contains v.index = true := by
  obtain ⟨t, spec, width, widthUses, _, start⟩ := invariant.exists_sets checked done found
  have read := spec.uses.contains_index.2 reads
  have lt : v.index < t.phiUses.width := by
    rw [width, ← widthUses]
    exact BitSet.lt_width read
  exact ⟨_, start, Transfer.contains_flow.2 (.inr ⟨lt, read⟩)⟩

/-- When no block waits, a set has what flows from its block, or is in the set of a successor, and
is not written by the block. -/
lemma Invariant.contains_of_not_writes {id : BlockId} {block : BasicBlock} {v : Var}
    (checked : b.check name = .ok ()) (invariant : Invariant b f) (done : f.work = [])
    (found : b.block? id = some block) (kept : ¬ b.Writes v id)
    (out : b.FlowsFrom v id ∨ ∃ target ∈ b.successors id, ∃ s,
      f.liveIn[target.index]? = some s ∧ s.contains v.index = true) :
    ∃ s, f.liveIn[id.index]? = some s ∧ s.contains v.index = true := by
  obtain ⟨t, spec, width, _, _, start⟩ := invariant.exists_sets checked done found
  have notDefs : t.defs.contains v.index = false := Bool.eq_false_iff.2 fun written =>
    kept ⟨block, found, spec.defs.contains_index.1 written⟩
  have atEnd : (t.out f.liveIn (b.successorIndices id.index)).contains v.index = true := by
    rw [Transfer.contains_out invariant.sized.width width, spec.phiUses.contains_index]
    refine out.imp_right ?_
    rintro ⟨target, edge, s', next, mem⟩
    exact ⟨target.index, Body.mem_successorIndices.2 ⟨target, edge, rfl⟩, s', next, mem⟩
  exact ⟨_, start, Transfer.contains_flow.2 (.inl ⟨atEnd, notDefs⟩)⟩

/-- When no block waits, the sets have all live variables. -/
lemma Invariant.contains_of_liveIn {id : BlockId} {v : Var} (checked : b.check name = .ok ())
    (invariant : Invariant b f) (done : f.work = []) (live : b.LiveIn v id) :
    ∃ s, f.liveIn[id.index]? = some s ∧ s.contains v.index = true := by
  obtain ⟨last, steps, needs⟩ := live
  -- from the end of the path back to its start
  induction steps using Relation.ReflTransGen.head_induction_on with
  | refl =>
    rcases needs with ⟨block, found, reads⟩ | ⟨kept, flows⟩
    · exact invariant.contains_of_readsFirst checked done found reads
    · have found := List.getElem?_eq_getElem (flows.lt checked).1
      exact invariant.contains_of_not_writes checked done found kept (.inl flows)
  | head passes _ ih =>
    obtain ⟨kept, edge⟩ := passes
    obtain ⟨block, found⟩ := Body.exists_of_mem_successors edge
    exact invariant.contains_of_not_writes checked done found kept (.inr ⟨_, edge, ih⟩)

/-- At the start all blocks wait. -/
lemma waiting_start (b : Body) : Waiting b.blocks.length (start b) where
  nodup := (reversePostOrder_perm ..).nodup_iff.2 List.nodup_range
  lt _ mem := mem_reversePostOrder.1 mem
  queued i lt := by
    have mem : i ∈ (start b).work := mem_reversePostOrder.2 lt
    rw [decide_eq_true mem]
    exact List.getElem?_replicate_of_lt lt

/-- The invariants hold at the start. -/
lemma invariant_start (b : Body) : Invariant b (start b) where
  sized :=
    { liveIn := List.length_replicate
      liveOut := List.length_replicate
      width := fun s mem => by rw [List.eq_of_mem_replicate mem]; rfl }
  waiting := waiting_start b
  settled i other t transfer := by
    have lt := (List.getElem?_eq_some_iff.1 transfer).1
    rw [Body.length_transfers] at lt
    exact absurd (mem_reversePostOrder.2 lt) other
  sound id s found x mem := by
    rw [List.eq_of_mem_replicate (List.mem_of_getElem? found), BitSet.contains_empty] at mem
    cases mem

end Facts

namespace Body

variable {b : Body} {name : String} {id : BlockId} {block : BasicBlock}

/-- The solution has a set for the end of every block. -/
lemma length_solution_liveOut (b : Body) : b.solution.liveOut.length = b.blocks.length :=
  (Facts.length_liveOut_solve (Facts.rising_start b)).trans List.length_replicate

/-- The invariants hold of the solution, in which no block waits. -/
lemma solution_invariant (checked : b.check name = .ok ()) :
    Facts.Invariant b b.solution ∧ b.solution.work = [] :=
  (Facts.invariant_start b).solve checked (Facts.rising_start b)

/-- The sets of the solution hold the variables that are live at the starts of the blocks. -/
lemma solution_holds (checked : b.check name = .ok ()) (found : b.block? id = some block) :
    ∃ s, b.solution.liveIn[id.index]? = some s ∧ s.Holds (b.LiveIn · id) := by
  obtain ⟨invariant, done⟩ := solution_invariant checked
  obtain ⟨_, _, _, _, _, start⟩ := invariant.exists_sets checked done found
  refine ⟨_, start, fun x => ⟨invariant.sound id _ start x, ?_⟩⟩
  rintro ⟨v, rfl, live⟩
  obtain ⟨s', start', mem⟩ := invariant.contains_of_liveIn checked done live
  obtain rfl := Option.some.inj (start.symm.trans start')
  exact mem

end Body

end ObjectBackend
