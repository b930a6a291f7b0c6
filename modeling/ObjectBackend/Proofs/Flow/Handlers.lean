import Mathlib.Data.List.Nodup
import ObjectBackend.Proofs.Flow.Liveness

/-!
# References at exceptional exits

The analysis takes a handler for a successor of the whole block it protects, but control leaves in
the middle of the block, before what the block writes later. In strict SSA form the difference does
not matter (`Liveness.handlers_find_references`): if a variable that is needed from a point on were
written later in the same block, the first visit of that block would lead to the point, and from it
to a use, without ever writing the variable (`Body.StrictSsa.no_later_write`).
-/

namespace ObjectBackend

/-- A place in a body: before an instruction or, at the end of a block, before its terminator. -/
structure Point where
  block : BlockId
  position : Nat

namespace Body

variable {b : Body} {parameters written new : List Var} {pt pt' : Point} {target : BlockId}
variable {block : BasicBlock} {v : Var}

/-- The instruction or the terminator at a point reads a variable. -/
inductive Reads (b : Body) (pt : Point) (v : Var) : Prop where
  | instruction {block : BasicBlock} {i : Instruction} :
    b.block? pt.block = some block →
    block.instructions[pt.position]? = some i →
    v ∈ i.used →
    Reads b pt v
  | terminator {block : BasicBlock} :
    b.block? pt.block = some block →
    pt.position = block.instructions.length →
    v ∈ block.terminator.used →
    Reads b pt v

/-- Control may leave a block at a point: at its end to any successor, at a call site to any
handler. -/
inductive Exit (b : Body) (pt : Point) (target : BlockId) : Prop where
  | atEnd {block : BasicBlock} :
    b.block? pt.block = some block →
    pt.position = block.instructions.length →
    target ∈ block.successors →
    Exit b pt target
  | atSite {block : BasicBlock} {i : Instruction} :
    b.block? pt.block = some block →
    block.instructions[pt.position]? = some i →
    i.isCallSite = true →
    target ∈ block.tryCatches.map (·.handler) →
    Exit b pt target

/-- A phi of a block takes a variable on the edge from another block. -/
def Takes (b : Body) (id target : BlockId) (v : Var) : Prop :=
  ∃ block, b.block? target = some block ∧ v ∈ block.valuesFrom id

/-- One step of control, with the variables that it writes: over an instruction, or to the head of
another block. A call site that is left to a handler writes no result. -/
inductive Step (b : Body) (pt : Point) : List Var → Point → Prop where
  | next {block : BasicBlock} {i : Instruction} :
    b.block? pt.block = some block →
    block.instructions[pt.position]? = some i →
    Step b pt i.defined.toList ⟨pt.block, pt.position + 1⟩
  | exit {block : BasicBlock} {target : BlockId} :
    Exit b pt target →
    b.block? target = some block →
    Step b pt block.headDefs ⟨target, 0⟩

/-- A path from the entry to a point, with the variables written on it. -/
inductive Run (b : Body) (parameters : List Var) : List Var → Point → Prop where
  | entry {block : BasicBlock} :
    b.block? .entry = some block →
    Run b parameters (parameters ++ block.headDefs) ⟨.entry, 0⟩
  | step {written new : List Var} {pt pt' : Point} :
    Run b parameters written pt →
    Step b pt new pt' →
    Run b parameters (written ++ new) pt'

/-- Every variable is written at one place only, and every path to a use goes through that place. -/
structure StrictSsa (b : Body) (parameters : List Var) : Prop where
  single : (parameters ++ b.blocks.flatMap (·.defs)).Nodup
  reads : ∀ {written pt v}, b.Run parameters written pt → b.Reads pt v → v ∈ written
  takes : ∀ {written pt target v}, b.Run parameters written pt → b.Exit pt target →
    b.Takes pt.block target v → v ∈ written

/-- From a point on a use of a variable can be reached without writing the variable. -/
inductive NeededFrom (b : Body) (v : Var) : Point → Prop where
  | read {pt : Point} :
    b.Reads pt v →
    NeededFrom b v pt
  | take {pt : Point} {target : BlockId} :
    b.Exit pt target →
    b.Takes pt.block target v →
    NeededFrom b v pt
  | step {pt pt' : Point} {new : List Var} :
    b.Step pt new pt' →
    v ∉ new →
    NeededFrom b v pt' →
    NeededFrom b v pt

/-- After a point, whose own reads do not count, a use of a variable can be reached without writing
the variable. -/
inductive NeededAfter (b : Body) (v : Var) (pt : Point) : Prop where
  | take {target : BlockId} :
    b.Exit pt target →
    b.Takes pt.block target v →
    NeededAfter b v pt
  | step {pt' : Point} {new : List Var} :
    b.Step pt new pt' →
    v ∉ new →
    NeededFrom b v pt' →
    NeededAfter b v pt

/-- What is needed after a point is needed from it. -/
lemma NeededAfter.neededFrom (needed : b.NeededAfter v pt) : b.NeededFrom v pt := by
  cases needed with
  | take exit takes => exact .take exit takes
  | step step kept needed => exact .step step kept needed

/-- Appending new elements one by one gives the old and the new ones. -/
lemma mem_foldl_insertNew {ids ids' : List BlockId} :
    target ∈ ids'.foldl insertNew ids ↔ target ∈ ids ∨ target ∈ ids' := by
  induction ids' generalizing ids with
  | nil => simp
  | cons id ids' ih =>
    rw [List.foldl_cons, ih, insertNew]
    split
    case isTrue mem =>
      rw [List.mem_cons]
      exact ⟨Or.imp_right .inr, Or.rec .inl (Or.rec (fun eq => .inl (eq ▸ mem)) .inr)⟩
    case isFalse => rw [List.mem_append, List.mem_singleton, List.mem_cons, or_assoc]

/-- Control leaves a block to one of its successors. -/
lemma Exit.mem_successors (exit : b.Exit pt target) : target ∈ b.successors pt.block := by
  cases exit with
  | atEnd found _ edge =>
    rw [successors, found]
    exact edge
  | atSite found _ _ handler =>
    rw [successors, found]
    exact mem_foldl_insertNew.2 (.inr handler)

/-- What a phi takes on an edge from a block flows from the block. -/
lemma Takes.flowsFrom {id : BlockId} (takes : b.Takes id target v) : b.FlowsFrom v id := by
  obtain ⟨block, found, mem⟩ := takes
  obtain ⟨phi, memPhi, taken⟩ := List.mem_flatMap.1 mem
  obtain ⟨⟨source, value⟩, fromHere, rfl⟩ := List.mem_map.1 taken
  obtain ⟨given, eq⟩ := List.mem_filter.1 fromHere
  obtain rfl := of_decide_eq_true eq
  exact ⟨block, List.mem_of_getElem? found, phi, memPhi, given⟩

/-- Blocks that both write a variable are the same, if it is written at one place only. -/
lemma index_eq_of_mem_defs {m n : Nat} {block' : BasicBlock}
    (single : (b.blocks.flatMap (·.defs)).Nodup) (found : b.blocks[m]? = some block)
    (found' : b.blocks[n]? = some block') (mem : v ∈ block.defs) (mem' : v ∈ block'.defs) :
    m = n := by
  have disjoint := List.pairwise_iff_getElem.1 (List.nodup_flatMap.1 single).2
  obtain ⟨lt, rfl⟩ := List.getElem?_eq_some_iff.1 found
  obtain ⟨lt', rfl⟩ := List.getElem?_eq_some_iff.1 found'
  rcases Nat.lt_trichotomy m n with less | eq | greater
  · exact absurd mem' (disjoint m n lt lt' less mem)
  · exact eq
  · exact absurd mem (disjoint n m lt' lt greater mem')

/-- Instructions that both write a variable are at the same position, if a block writes it once. -/
lemma position_eq_of_defined {m n : Nat} {i j : Instruction} (single : block.defs.Nodup)
    (instr : block.instructions[m]? = some i) (instr' : block.instructions[n]? = some j)
    (writes : i.defined = some v) (writes' : j.defined = some v) : m = n := by
  have distinct := List.pairwise_iff_getElem.1
    (List.pairwise_filterMap.1 (List.nodup_append.1 single).1)
  obtain ⟨lt, rfl⟩ := List.getElem?_eq_some_iff.1 instr
  obtain ⟨lt', rfl⟩ := List.getElem?_eq_some_iff.1 instr'
  rcases Nat.lt_trichotomy m n with less | eq | greater
  · exact absurd rfl (distinct m n lt lt' less v writes v writes')
  · exact eq
  · exact absurd rfl (distinct n m lt' lt greater v writes' v writes)

/-- The instruction at a point writes a variable. -/
def WrittenAt (b : Body) (v : Var) (pt : Point) : Prop :=
  ∃ block i, b.block? pt.block = some block ∧ block.instructions[pt.position]? = some i ∧
    i.defined = some v

/-- A variable that an instruction of a block defines is defined in the block. -/
lemma mem_defs_of_defined {n : Nat} {i : Instruction} (instr : block.instructions[n]? = some i)
    (writes : i.defined = some v) : v ∈ block.defs :=
  BasicBlock.mem_defs.2 (.inl ⟨i, List.mem_of_getElem? instr, writes⟩)

namespace StrictSsa

/-- With strict single assignment a block defines no variable twice. -/
lemma nodup_defs (strict : b.StrictSsa parameters) (mem : block ∈ b.blocks) : block.defs.Nodup :=
  (List.nodup_flatMap.1 (List.nodup_append.1 strict.single).2.1).1 block mem

/-- There is one point where a variable is written. -/
lemma eq_of_writtenAt (strict : b.StrictSsa parameters) (written : b.WrittenAt v pt)
    (written' : b.WrittenAt v pt') : pt = pt' := by
  obtain ⟨id, m⟩ := pt
  obtain ⟨id', n⟩ := pt'
  obtain ⟨block, i, found, instr, writes⟩ := written
  obtain ⟨block', j, found', instr', writes'⟩ := written'
  have same := index_eq_of_mem_defs (List.nodup_append.1 strict.single).2.1 found found'
    (mem_defs_of_defined instr writes) (mem_defs_of_defined instr' writes')
  obtain rfl := BlockId.eq_of_index_eq same
  obtain rfl := Option.some.inj (found.symm.trans found')
  have nodup := strict.nodup_defs (List.mem_of_getElem? found)
  exact congrArg (Point.mk id) (position_eq_of_defined nodup instr instr' writes writes')

/-- A variable that an instruction writes is not written at the head of a block. -/
lemma not_mem_headDefs {t : BasicBlock} {id : BlockId} (strict : b.StrictSsa parameters)
    (written : b.WrittenAt v pt) (found : b.block? id = some t) : v ∉ t.headDefs := by
  intro mem
  obtain ⟨block, i, found', instr, writes⟩ := written
  have same := index_eq_of_mem_defs (List.nodup_append.1 strict.single).2.1 found found'
    (BasicBlock.mem_defs.2 (.inr mem)) (mem_defs_of_defined instr writes)
  obtain rfl := BlockId.eq_of_index_eq same
  obtain rfl := Option.some.inj (found.symm.trans found')
  have disjoint := (List.nodup_append.1 (strict.nodup_defs (List.mem_of_getElem? found))).2.2
  have byInstruction := List.mem_filterMap.2 ⟨i, List.mem_of_getElem? instr, writes⟩
  exact disjoint v byInstruction v mem rfl

/-- A variable that an instruction writes is no parameter. -/
lemma not_mem_parameters (strict : b.StrictSsa parameters) (written : b.WrittenAt v pt) :
    v ∉ parameters := by
  intro mem
  obtain ⟨block, i, found, instr, writes⟩ := written
  refine (List.nodup_append.1 strict.single).2.2 v mem v (List.mem_flatMap.2 ⟨block, ?_, ?_⟩) rfl
  · exact List.mem_of_getElem? found
  · exact mem_defs_of_defined instr writes

/-- A step that writes a variable goes over the instruction that writes it. -/
lemma eq_of_step {home : Point} (strict : b.StrictSsa parameters) (written : b.WrittenAt v home)
    (step : b.Step pt new pt') (mem : v ∈ new) : pt = home := by
  cases step with
  | next found instr =>
    exact strict.eq_of_writtenAt ⟨_, _, found, instr, Option.mem_toList.1 mem⟩ written
  | exit _ found => exact absurd mem (strict.not_mem_headDefs written found)

/-- If a point can be reached, so can the point or the place where a variable is written, the
variable being not yet written. -/
lemma exists_run_of_writtenAt {home : Point} (strict : b.StrictSsa parameters)
    (written : b.WrittenAt v home) {ws : List Var} (run : b.Run parameters ws pt) :
    ∃ ws', v ∉ ws' ∧ (b.Run parameters ws' pt ∨ b.Run parameters ws' home) := by
  induction run with
  | entry found =>
    refine ⟨_, ?_, .inl (.entry found)⟩
    rw [List.mem_append, not_or]
    exact ⟨strict.not_mem_parameters written, strict.not_mem_headDefs written found⟩
  | @step _ new pt _ _ step ih =>
    obtain ⟨ws', kept, run | run⟩ := ih
    -- the first step that writes the variable starts at its place
    · by_cases mem : v ∈ new
      · obtain rfl := strict.eq_of_step written step mem
        exact ⟨ws', kept, .inr run⟩
      · refine ⟨ws' ++ new, ?_, .inl (run.step step)⟩
        rw [List.mem_append, not_or]
        exact ⟨kept, mem⟩
    · exact ⟨ws', kept, .inr run⟩

end StrictSsa

/-- A path to a point of a block goes through the points of the block before it. -/
lemma Run.before {position : Nat} (run : b.Run parameters written pt)
    (le : position ≤ pt.position) :
    ∃ written', written' ⊆ written ∧ b.Run parameters written' ⟨pt.block, position⟩ := by
  induction run with
  | entry found =>
    obtain rfl := Nat.le_zero.1 le
    exact ⟨_, List.Subset.refl _, .entry found⟩
  | @step written new pt pt' run step ih =>
    by_cases eq : position = pt'.position
    · subst eq
      exact ⟨_, List.Subset.refl _, run.step step⟩
    · cases step with
      | next found instr =>
        obtain ⟨written', sub, run'⟩ := ih (by simp only at le eq; omega)
        exact ⟨written', List.subset_append_of_subset_left _ sub, run'⟩
      | exit => exact absurd (Nat.le_zero.1 le) eq

namespace StrictSsa

/-- A variable that has not been written on a path to a point is not needed there. -/
lemma not_neededFrom (strict : b.StrictSsa parameters) (run : b.Run parameters written pt)
    (fresh : v ∉ written) : ¬ b.NeededFrom v pt := by
  intro needed
  induction needed generalizing written with
  | read reads => exact fresh (strict.reads run reads)
  | take exit takes => exact fresh (strict.takes run exit takes)
  | step step kept _ ih =>
    refine ih (run.step step) ?_
    rw [List.mem_append, not_or]
    exact ⟨fresh, kept⟩

/-- A variable that is needed from a point on is not written later in the block. -/
lemma no_later_write (strict : b.StrictSsa parameters) (run : b.Run parameters written pt)
    (needed : b.NeededFrom v pt) (found : b.block? pt.block = some block) :
    ∀ i ∈ block.instructions.drop pt.position, i.defined ≠ some v := by
  intro i mem writes
  obtain ⟨n, instr⟩ := List.getElem?_of_mem mem
  rw [List.getElem?_drop] at instr
  have home : b.WrittenAt v ⟨pt.block, pt.position + n⟩ := ⟨block, i, found, instr, writes⟩
  obtain ⟨ws, fresh, here | there⟩ := strict.exists_run_of_writtenAt home run
  · exact strict.not_neededFrom here fresh needed
  -- the path stops short of the write, so it has gone through the point before
  · obtain ⟨ws', sub, here⟩ := there.before (Nat.le_add_right pt.position n)
    exact strict.not_neededFrom here (fun mem => fresh (sub mem)) needed

/-- Where control may leave a block, a variable that is needed and live at the end of the block is
live from there on. -/
lemma liveAt_of_exit (strict : b.StrictSsa parameters) (run : b.Run parameters written pt)
    (needed : b.NeededFrom v pt) (exit : b.Exit pt target) (live : b.LiveOut v pt.block)
    {position : Nat} (le : pt.position ≤ position) : b.LiveAt v pt.block position := by
  obtain ⟨block, found⟩ := exists_of_mem_successors exit.mem_successors
  have kept := strict.no_later_write run needed found
  refine ⟨block, found, neededBy_or.2 (.inr ⟨fun i mem => kept i ?_, live⟩)⟩
  exact (List.drop_sublist_drop_left _ le).subset mem

/-- A variable that is needed from a point on is live there. -/
lemma liveAt_of_neededFrom (strict : b.StrictSsa parameters) (run : b.Run parameters written pt)
    (needed : b.NeededFrom v pt) : b.LiveAt v pt.block pt.position := by
  induction needed generalizing written with
  | read reads =>
    cases reads with
    | instruction found instr used => exact (liveAt_iff found instr).2 (.inl used)
    | terminator found eq used =>
      refine ⟨_, found, ?_⟩
      rw [eq, List.drop_length]
      exact .inl used
  | take exit takes =>
    exact strict.liveAt_of_exit run (.take exit takes) exit (.inl takes.flowsFrom) (Nat.le_refl _)
  | step step kept needed ih =>
    have live := ih (run.step step)
    cases step with
    | next found instr =>
      refine (liveAt_iff found instr).2 (.inr ⟨fun writes => kept ?_, live⟩)
      exact Option.mem_toList.2 writes
    | exit exit found =>
      have liveIn := (liveIn_iff_liveAt found).2 ⟨kept, live⟩
      exact strict.liveAt_of_exit run (.step (.exit exit found) kept needed) exit
        (.inr ⟨_, exit.mem_successors, liveIn⟩) (Nat.le_refl _)

/-- A variable that is needed after an instruction is live after it. -/
lemma liveAt_of_neededAfter (strict : b.StrictSsa parameters) (run : b.Run parameters written pt)
    (needed : b.NeededAfter v pt) : b.LiveAt v pt.block (pt.position + 1) := by
  have needed' := needed.neededFrom
  cases needed with
  | take exit takes =>
    exact strict.liveAt_of_exit run needed' exit (.inl takes.flowsFrom) (Nat.le_succ _)
  | step step kept needed =>
    have live := strict.liveAt_of_neededFrom (run.step step) needed
    cases step with
    | next => exact live
    | exit exit found =>
      have liveIn := (liveIn_iff_liveAt found).2 ⟨kept, live⟩
      exact strict.liveAt_of_exit run needed' exit (.inr ⟨_, exit.mem_successors, liveIn⟩)
        (Nat.le_succ _)

end StrictSsa

end Body

namespace Liveness

/-- Handlers find the references they need. In a body that is well formed and in strict SSA form,
take a call site on a path from the entry and a reference that is used on some way on from there
without being written in between, be it after the call site or after leaving to a handler, there or
later. Then the entry of the call site lists the reference. -/
theorem handlers_find_references {b : Body} {name : String} {parameters written : List Var}
    {id : BlockId} {block : BasicBlock} {position : Nat} {i : Instruction} {v : Var}
    (checked : b.check name = .ok ()) (strict : b.StrictSsa parameters)
    (found : b.block? id = some block) (instr : block.instructions[position]? = some i)
    (site : i.isCallSite = true) (run : b.Run parameters written ⟨id, position⟩)
    (isReference : (b.kindOf v).any Kind.isReference = true)
    (needed : b.NeededAfter v ⟨id, position⟩) :
    ∃ live, (analyze b).siteAt? id position = some ⟨id, position, live⟩ ∧ v ∈ live := by
  obtain ⟨live, entry, _, members⟩ := siteAt?_spec checked found instr site
  refine ⟨live, entry, (members v).2 ⟨isReference, strict.liveAt_of_neededAfter run needed, ?_⟩⟩
  refine strict.no_later_write run needed.neededFrom found i ?_
  obtain ⟨lt, rfl⟩ := List.getElem?_eq_some_iff.1 instr
  rw [List.drop_eq_getElem_cons lt]
  exact List.mem_cons_self ..

/-- A body that makes an object, reads from it under protection, and returns it from the handler. -/
def guardedRead : Body :=
  { kinds := [.object, .object, .object]
    blocks :=
      [{ BasicBlock.empty with
          instructions := [.construct ⟨0⟩ "File"]
          terminator := .jump ⟨1⟩ },
       { BasicBlock.empty with
          instructions := [.invoke (some ⟨1⟩) (some ⟨0⟩) ⟨"File", ⟨"line", [], .void⟩⟩ [] .virtual]
          terminator := .exit none
          tryCatches := [⟨none, ⟨2⟩⟩] },
       { BasicBlock.empty with
          terminator := .exit (some ⟨0⟩)
          exceptionVariable := some ⟨2⟩ }] }

/-- On every path the object has been made, but at the entry. -/
lemma guardedRead_made {written : List Var} {pt : Point}
    (run : guardedRead.Run [] written pt) : pt = ⟨⟨0⟩, 0⟩ ∨ ⟨0⟩ ∈ written := by
  induction run with
  | entry => exact .inl rfl
  | step _ step ih =>
    rcases ih with rfl | mem
    · cases step with
      | next found instr =>
        obtain rfl := Option.some.inj found
        obtain rfl := Option.some.inj instr
        exact .inr (List.mem_append_right _ (List.mem_cons_self ..))
      | exit exit _ =>
        cases exit with
        | atEnd found eq _ =>
          obtain rfl := Option.some.inj found
          cases eq
        | atSite found _ _ handler =>
          obtain rfl := Option.some.inj found
          cases handler
    · exact .inr (List.mem_append_left _ mem)

/-- The body is in strict SSA form. -/
lemma guardedRead_strict : guardedRead.StrictSsa [] where
  single := by decide
  reads {written pt v} run reads := by
    rcases guardedRead_made run with rfl | mem
    · cases reads with
      | instruction found instr used =>
        obtain rfl := Option.some.inj found
        obtain rfl := Option.some.inj instr
        cases used
      | terminator found eq _ =>
        obtain rfl := Option.some.inj found
        cases eq
    · obtain rfl : v = ⟨0⟩ := by
        cases reads with
        | instruction found instr used =>
          have all : ∀ block ∈ guardedRead.blocks, ∀ i ∈ block.instructions, ∀ v ∈ i.used,
            v = ⟨0⟩ := by decide
          exact all _ (List.mem_of_getElem? found) _ (List.mem_of_getElem? instr) v used
        | terminator found _ used =>
          have all : ∀ block ∈ guardedRead.blocks, ∀ v ∈ block.terminator.used, v = ⟨0⟩ := by decide
          exact all _ (List.mem_of_getElem? found) v used
      exact mem
  takes {written pt target v} _ _ takes := by
    obtain ⟨block, found, mem⟩ := takes
    have none : ∀ block ∈ guardedRead.blocks, block.phis = [] := by decide
    rw [BasicBlock.valuesFrom, none block (List.mem_of_getElem? found)] at mem
    cases mem

/-- The object that is made before the protected block is kept for its handler. -/
theorem guardedRead_keeps :
    guardedRead.check "main" = .ok () ∧ guardedRead.StrictSsa [] ∧
      ∃ live, (analyze guardedRead).siteAt? ⟨1⟩ 0 = some ⟨⟨1⟩, 0, live⟩ ∧ ⟨0⟩ ∈ live := by
  have run : guardedRead.Run [] _ ⟨⟨1⟩, 0⟩ :=
    .step (.step (.entry rfl) (.next rfl rfl)) (.exit (.atEnd rfl rfl (by decide)) rfl)
  have exit : guardedRead.Exit ⟨⟨1⟩, 0⟩ ⟨2⟩ := .atSite rfl rfl rfl (by decide)
  have needed : guardedRead.NeededAfter ⟨0⟩ ⟨⟨1⟩, 0⟩ :=
    .step (.exit exit rfl) (by decide) (.read (.terminator rfl rfl (by decide)))
  have checked : guardedRead.check "main" = .ok () := rfl
  refine ⟨checked, guardedRead_strict, ?_⟩
  exact handlers_find_references checked guardedRead_strict rfl rfl rfl run rfl needed

end Liveness

end ObjectBackend
