import Mathlib.Data.Nat.Init
import ObjectBackend.Proofs.Flow.Handlers

/-!
# Late values and handlers

A handler is entered from the first call site of the block it protects at the earliest, so it cannot
count on what the block defines there or later. The check of a body looks for such late values in
the handler itself, and there it finds them all: a late value that is live at the start of a handler
is live at its end, too, and only passes through (`Body.late_liveIn_iff`). In strict SSA form
nothing passes through either (`Body.StrictSsa.late_not_liveIn`): a path that leaves at the first
call site would lead to a use of a value that has not been written.
-/

namespace ObjectBackend

variable {b : Body} {name : String} {id handler target : BlockId} {block handling : BasicBlock}
variable {parameters written : List Var} {v : Var} {later : Prop} {n : Nat}

/-- What is left of a list from the first element of a kind on is what stands at or after one. -/
lemma mem_dropWhile_not_iff {α : Type} {p : α → Bool} {xs : List α} {x : α} :
    x ∈ xs.dropWhile (!p ·) ↔
      ∃ (m n : Nat) (y : α), m ≤ n ∧ xs[m]? = some y ∧ p y = true ∧ xs[n]? = some x := by
  induction xs with
  | nil => simp
  | cons a xs ih =>
    rw [List.dropWhile_cons]
    split
    case isTrue other =>
      rw [ih]
      constructor
      · rintro ⟨m, n, y, le, first, kind, place⟩
        exact ⟨m + 1, n + 1, y, Nat.succ_le_succ le, first, kind, place⟩
      · rintro ⟨_ | m, n, y, le, first, kind, place⟩
        · obtain rfl : a = y := Option.some.inj first
          rw [kind] at other
          cases other
        · obtain ⟨n, rfl⟩ := Nat.exists_eq_add_of_le' (Nat.lt_of_lt_of_le (Nat.succ_pos m) le)
          exact ⟨m, n, y, Nat.le_of_succ_le_succ le, first, kind, place⟩
    case isFalse kind =>
      constructor
      · intro mem
        obtain ⟨n, place⟩ := List.getElem?_of_mem mem
        exact ⟨0, n, a, Nat.zero_le n, rfl, by simpa using kind, place⟩
      · rintro ⟨_, n, _, _, _, _, place⟩
        exact List.mem_of_getElem? place

/-- The late values of a block are those that it defines at a call site or after one. -/
lemma BasicBlock.mem_lateValues :
    v ∈ block.lateValues ↔ ∃ (m n : Nat) (i j : Instruction), m ≤ n ∧
      block.instructions[m]? = some i ∧ i.isCallSite = true ∧
      block.instructions[n]? = some j ∧ j.defined = some v := by
  rw [lateValues, List.mem_filterMap]
  simp only [mem_dropWhile_not_iff]
  constructor
  · rintro ⟨j, ⟨m, n, i, le, first, site, place⟩, writes⟩
    exact ⟨m, n, i, j, le, first, site, place, writes⟩
  · rintro ⟨m, n, i, j, le, first, site, place, writes⟩
    exact ⟨j, ⟨m, n, i, le, first, site, place⟩, writes⟩

namespace Body

/-- The check of a body finds no late value among those that flow into a handler. -/
lemma late_not_mem_handlerInputs (checked : b.check name = .ok ())
    (found : b.block? id = some block) (handles : handler ∈ block.tryCatches.map (·.handler))
    (late : v ∈ block.lateValues) : v ∉ b.handlerInputs id handler := by
  obtain ⟨tryCatch, mem, rfl⟩ := List.mem_map.1 handles
  intro input
  have inputs := (check_eq_ok_iff.1 checked).2.2.2 _ (mem_numberedBlocks found)
  have spared := Except.of_forM_eq_ok (Except.of_forM_eq_ok inputs mem) input
  rw [if_pos late] at spared
  cases spared

/-- Handlers exist. -/
lemma exists_handler (checked : b.check name = .ok ()) (found : b.block? id = some block)
    (handles : handler ∈ block.tryCatches.map (·.handler)) :
    ∃ handling, b.block? handler = some handling := by
  have successor : handler ∈ block.successors := mem_foldl_insertNew.2 (.inr handles)
  have lt := lt_of_mem_successors checked (List.mem_of_getElem? found) successor
  exact ⟨_, List.getElem?_eq_getElem lt⟩

/-- A handler itself makes no use of a late value: its phis take none from the protected block, and
no instruction of it reads one, nor does its terminator. -/
lemma late_unused (checked : b.check name = .ok ()) (found : b.block? id = some block)
    (handles : handler ∈ block.tryCatches.map (·.handler)) (other : handler ≠ id)
    (found' : b.block? handler = some handling) (late : v ∈ block.lateValues) :
    v ∉ handling.valuesFrom id ∧ v ∉ handling.usedValues := by
  have spared := late_not_mem_handlerInputs checked found handles late
  rwa [handlerInputs, found', List.mem_append, if_neg other, not_or] at spared

/-- A variable that a block does not use is live at its start if it is live at its end and the block
does not write it. -/
lemma liveIn_iff_of_unused (found : b.block? id = some block) (unused : v ∉ block.usedValues) :
    b.LiveIn v id ↔ v ∉ block.defs ∧ b.LiveOut v id := by
  obtain ⟨instructions, terminator⟩ := not_or.1 (mt List.mem_append.2 unused)
  have unread : ∀ is ⊆ block.instructions, ∀ later,
      NeededBy v later is ↔ (∀ i ∈ is, i.defined ≠ some v) ∧ later := by
    intro is sub later
    induction is with
    | nil => simp [NeededBy]
    | cons i is ih =>
      obtain ⟨mem, sub⟩ := List.cons_subset.1 sub
      have idle : v ∉ i.used := fun used => instructions (List.mem_flatMap.2 ⟨i, mem, used⟩)
      simp only [NeededBy, ih sub, List.forall_mem_cons]
      tauto
  rw [liveIn_iff_liveAt found, LiveAt, found]
  simp only [Option.some.injEq, exists_eq_left', List.drop_zero, BasicBlock.mem_defs,
    unread _ (List.Subset.refl _)]
  push Not
  tauto

/-- A late value that is live at the start of a handler passes through it. -/
lemma late_liveIn_iff (checked : b.check name = .ok ()) (found : b.block? id = some block)
    (handles : handler ∈ block.tryCatches.map (·.handler)) (other : handler ≠ id)
    (found' : b.block? handler = some handling) (late : v ∈ block.lateValues) :
    b.LiveIn v handler ↔ v ∉ handling.defs ∧ b.LiveOut v handler :=
  liveIn_iff_of_unused found' (late_unused checked found handles other found' late).2

/-- What instructions need is needed from before them on, if it is needed after them where they say
so. -/
lemma neededFrom_of_neededBy (found : b.block? id = some block)
    (le : n ≤ block.instructions.length)
    (needed : NeededBy v later (block.instructions.drop n))
    (after : later → b.NeededFrom v ⟨id, block.instructions.length⟩) : b.NeededFrom v ⟨id, n⟩ := by
  induction le using Nat.decreasingInduction with
  | self =>
    rw [List.drop_length] at needed
    exact after needed
  | of_succ n lt ih =>
    have instr : block.instructions[n]? = some block.instructions[n] := List.getElem?_eq_getElem lt
    rw [List.drop_eq_getElem_cons lt] at needed
    rcases needed with used | ⟨kept, needed⟩
    · exact .read (.instruction found instr used)
    · refine .step (.next found instr) (fun mem => kept ?_) (ih needed)
      exact Option.mem_toList.1 mem

/-- A variable that is taken on an edge from a block is needed at the end of the block. -/
lemma neededFrom_of_flowsFrom (bound : b.blocks.length ≤ UInt32.size)
    (checked : b.check name = .ok ()) (found : b.block? id = some block)
    (flows : b.FlowsFrom v id) : b.NeededFrom v ⟨id, block.instructions.length⟩ := by
  obtain ⟨taking, mem, phi, memPhi, given⟩ := flows
  obtain ⟨k, place⟩ := List.getElem?_of_mem mem
  have numbered : (BlockId.ofIndex k, taking) ∈ b.numberedBlocks := by
    refine List.mem_of_getElem? (i := k) ?_
    rw [getElem?_numberedBlocks, place]
    rfl
  have edge := (mem_predecessors_iff bound).1 (mem_predecessors checked numbered memPhi given)
  rw [successors, found] at edge
  refine .take (.atEnd found rfl edge) ⟨taking, block?_of_mem bound numbered, ?_⟩
  refine List.mem_flatMap.2 ⟨phi, memPhi, List.mem_map.2 ⟨⟨id, v⟩, ?_, rfl⟩⟩
  exact List.mem_filter.2 ⟨given, decide_eq_true rfl⟩

/-- A block that does not write a variable needs it if it is needed at the end of the block. -/
lemma neededFrom_of_not_writes (found : b.block? id = some block) (kept : ¬b.Writes v id)
    (needed : b.NeededFrom v ⟨id, block.instructions.length⟩) : b.NeededFrom v ⟨id, 0⟩ := by
  have unwritten := ((not_writes_iff found).1 kept).2
  have passes : NeededBy v (False ∨ True) block.instructions :=
    neededBy_or.2 (.inr ⟨unwritten, trivial⟩)
  exact neededFrom_of_neededBy found (Nat.zero_le _) passes fun _ => needed

/-- A variable that is live at the start of a block is needed from there on. -/
lemma neededFrom_of_liveIn (bound : b.blocks.length ≤ UInt32.size)
    (checked : b.check name = .ok ()) (found : b.block? id = some block) (live : b.LiveIn v id) :
    b.NeededFrom v ⟨id, 0⟩ := by
  obtain ⟨last, path, needs⟩ := live
  induction path using Relation.ReflTransGen.head_induction_on generalizing block with
  | refl =>
    rcases needs with ⟨_, found', _, needed⟩ | ⟨kept, flows⟩
    · obtain rfl := Option.some.inj (found.symm.trans found')
      refine neededFrom_of_neededBy found (Nat.zero_le _) needed fun used => ?_
      exact .read (.terminator found rfl used)
    · exact neededFrom_of_not_writes found kept (neededFrom_of_flowsFrom bound checked found flows)
  | head pass path ih =>
    obtain ⟨kept, edge⟩ := pass
    rw [successors, found] at edge
    have lt := lt_of_mem_successors checked (List.mem_of_getElem? found) edge
    have next := List.getElem?_eq_getElem lt
    have unwritten := ((liveIn_iff_liveAt next).1 ⟨last, path, needs⟩).1
    refine neededFrom_of_not_writes found kept ?_
    exact .step (.exit (.atEnd found rfl edge) next) unwritten (ih next)

/-- A path to the start of a block leads on to every place in it. -/
lemma Run.exists_within (run : b.Run parameters written ⟨id, 0⟩)
    (found : b.block? id = some block) (le : n ≤ block.instructions.length) :
    ∃ written', b.Run parameters written' ⟨id, n⟩ := by
  induction n with
  | zero => exact ⟨written, run⟩
  | succ n ih =>
    obtain ⟨written', run'⟩ := ih (Nat.le_of_succ_le le)
    exact ⟨_, run'.step (.next found (List.getElem?_eq_getElem le))⟩

/-- In strict SSA form a late value of a block that is reached is not live at the start of a
handler. -/
lemma StrictSsa.late_not_liveIn (strict : b.StrictSsa parameters)
    (bound : b.blocks.length ≤ UInt32.size) (checked : b.check name = .ok ())
    (run : b.Run parameters written ⟨id, 0⟩) (found : b.block? id = some block)
    (handles : handler ∈ block.tryCatches.map (·.handler)) (late : v ∈ block.lateValues) :
    ¬b.LiveIn v handler := by
  intro live
  obtain ⟨m, n, i, j, le, first, site, place, writes⟩ := BasicBlock.mem_lateValues.1 late
  obtain ⟨handling, found'⟩ := exists_handler checked found handles
  have home : b.WrittenAt v ⟨id, n⟩ := ⟨block, j, found, place, writes⟩
  have needed : b.NeededFrom v ⟨id, m⟩ :=
    .step (.exit (.atSite found first site handles) found') (strict.not_mem_headDefs home found')
      (neededFrom_of_liveIn bound checked found' live)
  have lt : m < block.instructions.length := (List.getElem?_eq_some_iff.1 first).1
  obtain ⟨_, run'⟩ := run.exists_within found (Nat.le_of_lt lt)
  refine strict.no_later_write run' needed found j ?_ writes
  refine List.mem_of_getElem? (i := n - m) ?_
  rwa [List.getElem?_drop, Nat.add_sub_cancel' le]

end Body

namespace Liveness

/-- A handler is spared by the block it protects: nothing that the block defines at its first call
site or later is live at the start of the handler, nor is it taken there by a phi on the edge from
the block. -/
def Spares (b : Body) (block : BasicBlock) (id handler : BlockId) : Prop :=
  ∃ handling start, b.block? handler = some handling ∧
    (analyze b).liveIn[handler.index]? = some start ∧
    ∀ v ∈ block.lateValues, ¬start.contains v.index = true ∧ v ∉ handling.valuesFrom id

/-- What the check of a body keeps from its handlers. No phi of a handler takes a late value of the
block it protects on the edge from there, and neither do its instructions and its terminator read
one. So a late value is live at the start of the handler exactly if it passes through to the end,
and the handler is spared exactly if none does. It is spared if the body is in strict SSA form and
the block can be reached. -/
theorem spares_iff (checked : b.check name = .ok ()) (found : b.block? id = some block)
    (handles : handler ∈ block.tryCatches.map (·.handler)) (other : handler ≠ id) :
    ∃ handling, b.block? handler = some handling ∧
      (∀ v ∈ block.lateValues, v ∉ handling.valuesFrom id ∧ v ∉ handling.usedValues) ∧
      (Spares b block id handler ↔
        ∀ v ∈ block.lateValues, b.LiveOut v handler → v ∈ handling.defs) ∧
      (b.blocks.length ≤ UInt32.size → ∀ parameters written, b.StrictSsa parameters →
        b.Run parameters written ⟨id, 0⟩ → Spares b block id handler) := by
  obtain ⟨handling, found'⟩ := Body.exists_handler checked found handles
  obtain ⟨start, atStart, holds⟩ := Body.solution_holds checked found'
  have unused := fun v late => Body.late_unused (v := v) checked found handles other found' late
  have spares : Spares b block id handler ↔ ∀ v ∈ block.lateValues, ¬b.LiveIn v handler := by
    constructor
    · rintro ⟨_, start', _, atStart', spared⟩ v late live
      obtain rfl := Option.some.inj (atStart.symm.trans atStart')
      exact (spared v late).1 (holds.contains_index.2 live)
    · intro spared
      refine ⟨handling, start, found', atStart, fun v late => ⟨fun mem => ?_, (unused v late).1⟩⟩
      exact spared v late (holds.contains_index.1 mem)
  refine ⟨handling, found', unused, ?_, ?_⟩
  · rw [spares]
    refine forall₂_congr fun v late => ?_
    rw [Body.late_liveIn_iff checked found handles other found' late]
    tauto
  · intro bound parameters written strict run
    exact spares.2 fun v late => strict.late_not_liveIn bound checked run found handles late

/-- What is read under protection is not live at the start of the handler. -/
theorem guardedRead_spares :
    guardedRead.check "main" = .ok () ∧
      ∃ block, guardedRead.block? ⟨1⟩ = some block ∧ block.lateValues = [⟨1⟩] ∧
        Spares guardedRead block ⟨1⟩ ⟨2⟩ := by
  have checked : guardedRead.check "main" = .ok () := rfl
  have run : guardedRead.Run [] _ ⟨⟨1⟩, 0⟩ :=
    .step (.step (.entry rfl) (.next rfl rfl)) (.exit (.atEnd rfl rfl (by decide)) rfl)
  have found : guardedRead.block? ⟨1⟩ = some _ := rfl
  have handles : (⟨2⟩ : BlockId) ∈ [⟨2⟩] := List.mem_singleton_self _
  obtain ⟨_, _, _, _, spared⟩ := spares_iff checked found handles (by decide)
  exact ⟨checked, _, found, rfl, spared (by decide) _ _ guardedRead_strict run⟩

/-- A body that sets a variable under protection after a call, and reads it behind a handler that
only goes on. -/
def detour : Body :=
  { kinds := [.int]
    blocks :=
      [{ BasicBlock.empty with
          instructions := [.invoke none none ⟨"Main", ⟨"f", [], .void⟩⟩ [] .static,
            .intConstant ⟨0⟩ 7]
          terminator := .jump ⟨2⟩
          tryCatches := [⟨none, ⟨1⟩⟩] },
       { BasicBlock.empty with terminator := .jump ⟨2⟩ },
       { BasicBlock.empty with terminator := .exit (some ⟨0⟩) }] }

/-- The check accepts the body, though the variable is live at the start of the handler. -/
theorem detour_accepted :
    detour.check "main" = .ok () ∧
      ∃ block, detour.block? ⟨0⟩ = some block ∧ (∃ i ∈ block.instructions, i.isCallSite = true) ∧
        ⟨1⟩ ∈ block.tryCatches.map (·.handler) ∧ ⟨0⟩ ∈ block.lateValues ∧
        ¬Spares detour block ⟨0⟩ ⟨1⟩ := by
  have checked : detour.check "main" = .ok () := rfl
  have live : detour.LiveIn ⟨0⟩ ⟨1⟩ := by
    have passes : detour.Passes ⟨0⟩ ⟨1⟩ ⟨2⟩ := by
      refine ⟨?_, by decide⟩
      rintro ⟨_, ⟨⟩, written⟩
      exact absurd written (by decide)
    exact ⟨⟨2⟩, .single passes, .inl ⟨_, rfl, by decide, List.mem_cons_self ..⟩⟩
  refine ⟨checked, _, rfl, by decide, by decide, by decide, ?_⟩
  rintro ⟨_, start, _, atStart, spared⟩
  have found : detour.block? ⟨1⟩ = some _ := rfl
  obtain ⟨start', atStart', holds⟩ := Body.solution_holds checked found
  obtain rfl := Option.some.inj (atStart'.symm.trans atStart)
  exact (spared ⟨0⟩ (by decide)).1 (holds.contains_index.2 live)

end Liveness

end ObjectBackend
