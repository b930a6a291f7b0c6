import ObjectBackend.Proofs.Lowering.Composition
import ObjectBackend.Proofs.Lowering.Reachability
import ObjectBackend.Proofs.Lowering.StackDiscipline

/-!
# Catching exceptions

The blocks that ask for the pending exception are the beginnings of the handlers
(`mem_catching_iff`). An exception is pending where a landing pad hands it to a handler, but nothing
keeps a body from going to a handler without one: all ways to the handlers lead through landing pads
just if no handler is the first block, nor a target of a terminator that is reached
(`catchesFromPads_iff`).
-/

namespace ObjectBackend

open Target Lowering Listing

namespace Target

variable {ℓ σ τ : Type}

/-- Whether an instruction calls the function that hands over the pending exception. -/
def Instr.catches : Instr → Bool
  | .call _ (.symbol (.runtime .catchException)) _ => true
  | _ => false

/-- Whether a line calls that function. -/
def Line.catches : Line ℓ σ → Bool
  | .run i | .define _ i => i.catches
  | _ => false

/-- An instruction that asks for the pending exception has the routine among its operands. -/
lemma Instr.mem_operands_of_catches {i : Instr} (catches : i.catches = true) :
    .symbol (.runtime .catchException) ∈ i.operands := by
  unfold Instr.catches at catches
  split at catches
  · exact List.mem_cons_self ..
  · cases catches

/-- An ordinary line does not ask for the pending exception. -/
lemma Line.catches_eq_false {l : Line ℓ σ} (ordinary : l.isOrdinary = true) :
    l.catches = false := by
  rw [isOrdinary, Bool.and_eq_true, List.all_eq_true] at ordinary
  rw [Bool.eq_false_iff]
  intro catches
  have catcher : Value.symbol (.runtime .catchException) ∈ l.values := by
    cases l with
    | run i => exact Instr.mem_operands_of_catches catches
    | define receiver i => exact List.mem_cons_of_mem _ (Instr.mem_operands_of_catches catches)
    | comment | phi | leave => cases catches
  cases ordinary.2 _ catcher

/-- The sources of phis do not matter to whether a line asks for the pending exception. -/
lemma Line.catches_mapSources (g : σ → τ) (l : Line ℓ σ) :
    (l.mapSources g).catches = l.catches := by
  cases l <;> rfl

/-- The blocks that ask for the pending exception. -/
def Function.catching (f : Function Label) : List Label := labelsWith Line.catches f.blocks

/-- Where a function asks for the pending exception, it has come from a landing pad. -/
structure Function.CatchesFromPads (f : Function Label) : Prop where
  entry : .entry ∉ f.catching
  edges : ∀ l l', f.Reaches l → (l, l') ∈ f.edges → l' ∈ f.catching → ∃ id, l = .landing id

end Target

namespace Lowering

variable {c : Context} {id : BlockId} {b : BasicBlock} {α : Type}

/-- Code that does not ask for the pending exception. -/
abbrev Emit.Catchless (e : Emit α) : Prop := e.Composed fun l => !l.catches

/-- Ordinary code does not ask for the pending exception. -/
lemma Emit.Ordinary.catchless {e : Emit α} (ordinary : e.Ordinary) : e.Catchless :=
  ordinary.mono fun _ holds => by rw [Line.catches_eq_false holds, Bool.not_false]

/-- Code that does not ask for the pending exception leaves the blocks that do as they are. -/
lemma Emit.Catchless.labelsWith_eq {e : Emit α} (catchless : e.Catchless) (s : Progress) :
    labelsWith Line.catches (e.next s).draft.blocks = labelsWith Line.catches s.draft.blocks :=
  Emit.Composed.labelsWith_eq catchless (fun _ holds => by simpa using holds) s

/-- A block at the beginning of some others. -/
lemma labelsWith_cons (q : DraftLine → Bool) (d : DraftBlock) (bs : List DraftBlock) :
    labelsWith q (d :: bs) = (if d.lines.any q then [d.label] else []) ++ labelsWith q bs := by
  rw [labelsWith, List.filter_cons]
  split <;> rfl

/-- The call that hands over the pending exception. -/
def catchCall : Instr := .call .ptr (.symbol (.runtime .catchException)) []

/-- A handler asks for the exception, and keeps it if it has a variable for it. -/
lemma receiveException_next (handler : c.isHandler id = true) :
    Except.Ensures (fun code => ∀ s, ∃ rest : Emit Unit, rest.Catchless ∧
      code.next s = rest.next ((Emit.define catchCall).next s)) (receiveException c id b) := by
  rw [receiveException, handler]
  refine .bind fun _ _ => .pure fun s => ?_
  cases b.exceptionVariable with
  | none => exact ⟨pure (), .pure _, rfl⟩
  | some v =>
    exact ⟨.copyTo v .ptr (.register (.temporary s.draft.nextTemporary)),
      (Emit.Ordinary.copyTo v .ptr rfl).catchless, rfl⟩

/-- The code of a block asks for the pending exception at its start, if the block is a handler. -/
lemma Emission.labelsWith_eq (e : Emission c id b) {s : Progress} {before after : List DraftBlock}
    {phis : List DraftLine} (start : s.At before ⟨.block id, phis⟩ after)
    (quiet : phis.any Line.catches = false) :
    labelsWith Line.catches (e.code.next s).draft.blocks =
      labelsWith Line.catches before ++ (if c.isHandler id then [.block id] else []) ++
        labelsWith Line.catches after := by
  have instructions : (e.instructions.forM fun code => code).Catchless := .forM fun code mem =>
    instructionCodes_composed (fun _ holds => by rw [Line.catches_eq_false holds, Bool.not_false])
      (fun _ => rfl) e.instructions e.executes code mem
  have leaving : e.leaving.Catchless :=
    Emit.Ordinary.catchless (terminator_ordinary e.leaving e.leaves)
  change labelsWith _ (e.leaving.next ((e.instructions.forM fun code => code).next
    (e.received.next s))).draft.blocks = _
  rw [leaving.labelsWith_eq, instructions.labelsWith_eq]
  cases handler : c.isHandler id with
  | false =>
    have receives := e.receives
    rw [receiveException, handler] at receives
    rw [← Except.ok.inj receives]
    change labelsWith _ s.draft.blocks = _
    rw [start.cursor.blocks, labelsWith_append, labelsWith_cons, quiet, List.append_assoc]
  | true =>
    obtain ⟨rest, catchless, steps⟩ := receiveException_next handler e.received e.receives s
    have start' := (Progress.Writes.define s catchCall).moves start
    have asks : (phis ++ [Line.define (.register (.temporary s.draft.nextTemporary)) catchCall]).any
        Line.catches = true := by
      rw [List.any_append, quiet]
      rfl
    rw [steps, catchless.labelsWith_eq, start'.cursor.blocks, labelsWith_append, labelsWith_cons,
      if_pos asks, if_pos rfl, List.append_assoc]

/-- A phi asks for nothing. -/
lemma any_catches_phis {phis : List Phi} {lines : List DraftLine}
    (arePhis : List.Forall₂ (IsPhi c id) phis lines) : lines.any Line.catches = false := by
  rw [List.any_eq_false]
  intro l mem catches
  obtain ⟨_, _, isPhi⟩ := arePhis.flip.exists_of_mem mem
  rw [Line.catches_eq_false (IsPhi.isOrdinary isPhi)] at catches
  cases catches

/-- Where a block starts in a listing, the blocks before it are complete. -/
lemma blocks_before_start (d : DraftBlock) (x y : Listing) (ℓ : Label) :
    blocks d (x ++ .start ℓ :: y) = blocks d x ++ blocks ⟨ℓ, []⟩ y := by
  rw [blocks_append, blocks, blocks, List.append_assoc]
  rfl

/-- Only the first part of a handler asks for the pending exception. -/
lemma BlockCode.labelsWith_eq (b : BlockCode c) :
    labelsWith Line.catches (blocks ⟨.block b.id, []⟩ (b.content ++ b.pad)) =
      if c.isHandler b.id then [.block b.id] else [] := by
  have pad : labelsWith Line.catches (blocks ⟨.block b.id, []⟩ (b.content ++ b.pad)) =
      labelsWith Line.catches (blocks ⟨.block b.id, []⟩ b.content) := by
    rw [BlockCode.pad, padCode]
    split
    · rw [List.append_nil]
    · rw [blocks_append_start, labelsWith_append, labelsWith_cons]
      exact List.append_nil _
  have content : blocks ⟨.block b.id, []⟩ b.content =
      blocks ⟨.block b.id, b.phis⟩ (b.inner ++ [.line (.leave b.term)]) := by
    rw [BlockCode.content, List.append_assoc, blocks, blocks, closed_append, last_append,
      closed_ofLines, last_ofLines]
    rfl
  -- the code has been emitted between blocks that it leaves alone
  obtain ⟨s, before, after, start, cursor⟩ := b.emitted
  have emitted := b.emission.labelsWith_eq start (any_catches_phis b.arePhis)
  have between : (b.emission.code.next s).draft.blocks = before ++
      blocks ⟨.block b.id, b.phis⟩ (b.inner ++ [.line (.leave b.term)]) ++ after := by
    rw [cursor.blocks, blocks, List.append_assoc, List.append_assoc, List.append_assoc]
    rfl
  rw [between, labelsWith_append, labelsWith_append] at emitted
  rw [pad, content]
  exact List.append_cancel_left (List.append_cancel_right emitted)

namespace BodyCode

variable (k : BodyCode c)

/-- Nothing is asked for before the first block. -/
lemma labelsWith_entry : labelsWith Line.catches
    (Listing.blocks ⟨.entry, []⟩ (k.entry ++ [.line (.leave (.br (.block .entry)))])) = [] := by
  obtain ⟨ps, pools, started⟩ := k.started
  rw [← started, (start_ordinary c).catchless.labelsWith_eq]
  rfl

/-- The blocks of a body that ask for the pending exception are its handlers. -/
lemma labelsWith_blocks (bs : List (BlockCode c)) (d : DraftBlock) (x : Listing) :
    labelsWith Line.catches (Listing.blocks d (x ++ bs.flatMap (·.listing))) =
      labelsWith Line.catches (Listing.blocks d x) ++
        bs.flatMap fun b => if c.isHandler b.id then [.block b.id] else [] := by
  induction bs generalizing d x with
  | nil => rw [List.flatMap_nil, List.append_nil, List.flatMap_nil, List.append_nil]
  | cons b bs ih =>
    change labelsWith _ (Listing.blocks d (x ++ .start (.block b.id) ::
      ((b.content ++ b.pad) ++ bs.flatMap (·.listing)))) = _
    rw [blocks_before_start, labelsWith_append, ih, b.labelsWith_eq, List.flatMap_cons]

/-- A shared block without such a line does not ask for the pending exception. -/
lemma labelsWith_shared (d : DraftBlock) (x : Listing) (ℓ : Label) (lines : List DraftLine)
    (quiet : lines.any Line.catches = false) :
    labelsWith Line.catches (Listing.blocks d (x ++ .start ℓ :: ofLines lines)) =
      labelsWith Line.catches (Listing.blocks d x) := by
  rw [blocks_append_start, labelsWith_append, labelsWith_cons, quiet]
  exact List.append_nil _

/-- The blocks of a function that ask for the pending exception are the handlers of its body. -/
lemma labelsWith_listing : labelsWith Line.catches (Listing.blocks ⟨.entry, []⟩ k.listing) =
    k.blocks.flatMap fun b => if c.isHandler b.id then [.block b.id] else [] := by
  have quiet : (popLines c.frameSize? : List DraftLine).any Line.catches = false := by
    rw [popLines]
    split <;> rfl
  have exit (d : DraftBlock) (x : Listing) :
      labelsWith Line.catches (Listing.blocks d (x ++ exitCode c k.exits)) =
        labelsWith Line.catches (Listing.blocks d x) := by
    rw [exitCode]
    split
    · rw [List.append_nil]
    split
    · refine labelsWith_shared d x .exit _ ?_
      rw [List.any_append, quiet]
      rfl
    · refine labelsWith_shared d x .exit _ ?_
      rw [List.any_append, List.any_append, quiet]
      rfl
  have unwind (d : DraftBlock) (x : Listing) :
      labelsWith Line.catches (Listing.blocks d (x ++ unwindCode c (!k.marks.isEmpty))) =
        labelsWith Line.catches (Listing.blocks d x) := by
    rw [unwindCode]
    split
    · refine labelsWith_shared d x .unwind _ ?_
      rw [List.any_append, quiet]
      rfl
    · rw [List.append_nil]
  rw [listing, unwind, exit, main, labelsWith_blocks, k.labelsWith_entry, List.nil_append]

/-- The blocks of the function that ask for the pending exception are the handlers. -/
lemma mem_catching {f : Function Label} (eq : f.blocks = k.functionBlocks) {l : Label} :
    l ∈ f.catching ↔ ∃ b ∈ k.blocks, c.isHandler b.id = true ∧ l = .block b.id := by
  have resolved : f.catching = labelsWith Line.catches (Listing.blocks ⟨.entry, []⟩ k.listing) := by
    have lines :
        (fun b : Block Label Label => b.lines.any Line.catches) ∘ Block.mapSources k.resolve =
        fun b => b.lines.any Line.catches := by
      funext b
      rw [Function.comp, Block.mapSources, List.any_map]
      congr 1
      exact funext (Line.catches_mapSources k.resolve)
    rw [Function.catching, eq, functionBlocks, labelsWith, List.filter_map, List.map_map, lines]
    rfl
  rw [resolved, labelsWith_listing, List.mem_flatMap]
  refine exists_congr fun b => and_congr Iff.rfl ?_
  split
  case isTrue handler => simp [handler]
  case isFalse other => simp [other]

/-- Where the beginning of a block of the body is entered from. -/
lemma mem_edges_block {f : Function Label} (eq : f.blocks = k.functionBlocks) {l : Label} :
    (l, .block id) ∈ f.edges ↔ l = startEnd c ∧ id = .entry ∨ ∃ b ∈ k.blocks,
      l = b.ending ∧ id ∈ b.block.terminator.targets ∨
        l = .landing b.id ∧ c.hasLanding b.block = true ∧
          id ∈ b.block.tryCatches.map (·.handler) := by
  have outward : (l, .block id) ∈ f.edges ↔ (l, .block id) ∈ k.outEdges := by
    rw [Function.edges, eq, edges_functionBlocks, ← k.outward_listing, Lowering.outward,
      List.mem_filter]
    exact (and_iff_left rfl).symm
  have entered : (l, .block id) ∈ k.outEdges ↔ (l = startEnd c ∧ id = .entry) ∨
      ∃ b ∈ k.blocks, (l, .block id) ∈ b.outEdges := by
    rw [outEdges, List.mem_append, List.mem_append, List.mem_flatMap]
    simp
  rw [outward, entered]
  exact or_congr Iff.rfl (exists_congr fun b => and_congr Iff.rfl b.mem_outEdges_block)

end BodyCode

/-- The start of a method does not end in a landing pad. -/
lemma startEnd_ne_landing (id : BlockId) : startEnd c ≠ .landing id := by
  rw [startEnd]
  split <;> rintro ⟨⟩

/-- The blocks of a function that ask for the pending exception are the beginnings of handlers. -/
lemma mem_catching_iff {name : String} (checked : c.body.check name = .ok ()) {k : BodyCode c}
    {f : Function Label} (eq : f.blocks = k.functionBlocks) {l : Label} :
    l ∈ f.catching ↔ ∃ id, c.isHandler id = true ∧ l = .block id := by
  rw [k.mem_catching eq]
  constructor
  · rintro ⟨b, _, handler, rfl⟩
    exact ⟨b.id, handler, rfl⟩
  · rintro ⟨id, handler, rfl⟩
    obtain ⟨block, mem, handles⟩ := List.any_eq_true.1 handler
    obtain ⟨h, memh, same⟩ := List.any_eq_true.1 handles
    have successor : id ∈ block.successors := BasicBlock.mem_successors.2
      (.inr (List.mem_map.2 ⟨h, memh, of_decide_eq_true same⟩))
    have lt := Body.lt_of_mem_successors checked mem successor
    obtain ⟨b, mem, rfl, _⟩ := k.exists_blockCode (List.getElem?_eq_getElem lt)
    exact ⟨b, mem, handler, rfl⟩

/-- Exceptions are caught only where landing pads hand them over, just if the body goes to its
handlers for exceptions only: none of them is the first block, and none is a target of the
terminator of a block that is reached. Bodies are not checked for this. -/
theorem catchesFromPads_iff {name : String} (checked : c.body.check name = .ok ())
    (bound : c.body.blocks.length ≤ UInt32.size) {f : Function Label} {pools pools' : Pools}
    (lowered : (function c).run pools = .ok (f, pools')) :
    f.CatchesFromPads ↔ ∀ id, c.isHandler id = true → id ≠ .entry ∧
      ∀ source block, c.Reaches source → c.body.block? source = some block →
        id ∉ block.terminator.targets := by
  obtain ⟨k, eq, nodup, _⟩ := function_spec bound lowered
  have edges : f.edges = Listing.edges .entry k.listing := by
    rw [Function.edges, eq, k.edges_functionBlocks]
  have reached {l : Label} (leads : Leads (Listing.edges .entry k.listing) .entry l) :
      f.Reaches l := by
    rw [Function.Reaches, edges]
    exact leads
  constructor
  · intro pads id handler
    have caught : .block id ∈ f.catching := (mem_catching_iff checked eq).2 ⟨id, handler, rfl⟩
    refine ⟨?_, fun source block reaches found target => ?_⟩
    · rintro rfl
      obtain ⟨pad, landing⟩ := pads.edges (startEnd c) (.block .entry) (reached k.leads_startEnd)
        ((k.mem_edges_block eq).2 (.inl ⟨rfl, rfl⟩)) caught
      exact startEnd_ne_landing pad landing
    · obtain ⟨b, mem, rfl, rfl⟩ := k.exists_blockCode found
      have leads := (k.leads_of_reaches reaches).trans
        ((b.leads .entry).1.mono (BodyCode.edges_subset mem .entry))
      obtain ⟨pad, landing⟩ := pads.edges b.ending (.block id) (reached leads)
        ((k.mem_edges_block eq).2 (.inr ⟨b, mem, .inl ⟨rfl, target⟩⟩)) caught
      exact b.ending_ne_landing pad landing
  · intro direct
    refine ⟨fun caught => ?_, fun l l' reaches edge caught => ?_⟩
    · obtain ⟨_, _, other⟩ := (mem_catching_iff checked eq).1 caught
      cases other
    · obtain ⟨id, handler, rfl⟩ := (mem_catching_iff checked eq).1 caught
      obtain ⟨notFirst, notTarget⟩ := direct id handler
      rcases (k.mem_edges_block eq).1 edge with ⟨_, first⟩ | ⟨b', mem', ⟨rfl, target⟩ | ⟨rfl, _⟩⟩
      · exact absurd first notFirst
      · rw [Function.Reaches, edges] at reaches
        have reaches' := BodyCode.reaches_of_leads nodup reaches mem' b'.ending_mem_labels
        exact absurd target (notTarget b'.id b'.block reaches' b'.found)
      · exact ⟨b'.id, rfl⟩

/-- Wait for one tick, with a block of its own for an exception. -/
def waitingOnce : Body :=
  { kinds := [.int]
    blocks :=
      [{ BasicBlock.empty with
          instructions := [.invoke none none ⟨"Clock", ⟨"tick", [], .void⟩⟩ [] .static]
          terminator := .exit none
          tryCatches := [⟨none, ⟨1⟩⟩] },
       { BasicBlock.empty with terminator := .exit none }] }

/-- Nothing but the landing pad goes to the handler of the body. -/
theorem waitingOnce_catches :
    ∃ b f pools, Backend.ofProgram clockProgram .default = .ok b ∧
      (function (.ofBody b clock waitMethod waitingOnce)).run .empty = .ok (f, pools) ∧
      f.catching = [.block ⟨1⟩] ∧ f.CatchesFromPads := by
  have computed : ((Backend.ofProgram clockProgram .default).toOption.bind fun b =>
      ((function (.ofBody b clock waitMethod waitingOnce)).run .empty).toOption.map fun r =>
        r.1.catching) = some [.block ⟨1⟩] := by
    cbv
  obtain ⟨b, ⟨f, pools⟩, built, lowered, catching⟩ := Except.exists_of_toOption_bind_map computed
  refine ⟨b, f, pools, built, lowered, catching, ?_⟩
  have bound : waitingOnce.blocks.length ≤ UInt32.size := by decide
  have checked : waitingOnce.check (clock.reference waitMethod).text = .ok () := by rfl
  refine (catchesFromPads_iff checked bound lowered).2 ?_
  intro id handler
  have handles : id = ⟨1⟩ := by
    simpa [Context.isHandler, Context.ofBody, waitingOnce, BasicBlock.empty, eq_comm] using handler
  refine ⟨by rw [handles]; decide, fun source block _ found target => ?_⟩
  have exits : ∀ block ∈ waitingOnce.blocks, block.terminator.targets = [] := by decide
  rw [exits block (List.mem_of_getElem? found)] at target
  cases target

/-- A count of zero takes a body to its handler without any exception: the block in front of the
handler is reached through calls that succeed. -/
theorem waiting_catches_nothing :
    ∃ b f pools, Backend.ofProgram clockProgram .default = .ok b ∧
      waiting.check (clock.reference waitMethod).text = .ok () ∧
      (function (.ofBody b clock waitMethod waiting)).run .empty = .ok (f, pools) ∧
      f.Reaches (.split (.block ⟨1⟩) 0) ∧ (.split (.block ⟨1⟩) 0, .block ⟨2⟩) ∈ f.edges ∧
      .block ⟨2⟩ ∈ f.catching ∧ ¬f.CatchesFromPads := by
  have computed : ((Backend.ofProgram clockProgram .default).toOption.bind fun b =>
      ((function (.ofBody b clock waitMethod waiting)).run .empty).toOption.map fun r =>
        (r.1.edges, r.1.catching)) =
      some ([(.entry, .block ⟨0⟩), (.block ⟨0⟩, .block ⟨1⟩), (.block ⟨1⟩, .landing ⟨1⟩),
        (.block ⟨1⟩, .split (.block ⟨1⟩) 0), (.split (.block ⟨1⟩) 0, .block ⟨2⟩),
        (.split (.block ⟨1⟩) 0, .block ⟨1⟩), (.landing ⟨1⟩, .unwind), (.landing ⟨1⟩, .block ⟨2⟩),
        (.block ⟨2⟩, .exit)], [.block ⟨2⟩]) := by
    cbv
  obtain ⟨b, ⟨f, pools⟩, built, lowered, read⟩ := Except.exists_of_toOption_bind_map computed
  obtain ⟨edges, catching⟩ := Prod.mk.inj read
  have step {l l' : Label} (mem : (l, l') ∈ f.edges) (reaches : f.Reaches l) : f.Reaches l' :=
    Relation.ReflTransGen.tail reaches mem
  have reaches : f.Reaches (.split (.block ⟨1⟩) 0) :=
    step (l := .block ⟨1⟩) (by rw [edges]; decide) <|
    step (l := .block ⟨0⟩) (by rw [edges]; decide) <|
    step (l := .entry) (by rw [edges]; decide) .refl
  have edge : (.split (.block ⟨1⟩) 0, .block ⟨2⟩) ∈ f.edges := by
    rw [edges]
    decide
  have caught : .block ⟨2⟩ ∈ f.catching := by
    rw [catching]
    decide
  refine ⟨b, f, pools, built, by rfl, lowered, reaches, edge, caught, fun pads => ?_⟩
  obtain ⟨_, other⟩ := pads.edges _ _ reaches edge caught
  cases other

end Lowering

end ObjectBackend
