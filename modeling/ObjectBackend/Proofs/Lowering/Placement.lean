import ObjectBackend.Proofs.Lowering.Refinement

/-!
# Where code has been put

The code of an instruction stands in the function that is emitted for its body: there is a block of
the function that the lines of the instruction have been appended to (`exists_placement`). So what
is shown of code wherever it is put holds of every function of a method.
-/

namespace ObjectBackend.Lowering

open Target Emit Listing

variable {α β : Type} {c : Context} {f : Function Label} {id : BlockId} {b : BasicBlock}
  {e : Emit α}

/-- A place of a function where the code of a step of emission stands. -/
structure Emit.Placement (e : Emit α) (f : Function Label) where
  /-- What had been emitted before. -/
  start : Progress
  before : List DraftBlock
  /-- The block that the first lines have gone to, with the lines that it had before. -/
  current : DraftBlock
  after : List DraftBlock
  /-- What the step has emitted. -/
  listing : Listing
  here : start.At before current after
  moves : (e.next start).At (before ++ closed current listing) (last current listing) after
  carries : f.Carries (blocks current listing)

/-- The listing of some blocks, with the start of the first one. -/
def Listing.ofBlocks (bs : List DraftBlock) : Listing :=
  bs.flatMap fun b => .start b.label :: ofLines b.lines

/-- The blocks of a listing, listed again, are the listing behind the lines of its first block. -/
lemma Listing.ofBlocks_blocks (b : DraftBlock) (x : Listing) :
    ofBlocks (blocks b x) = .start b.label :: (ofLines b.lines ++ x) := by
  induction x generalizing b with
  | nil => simp [ofBlocks, blocks, closed, last]
  | cons i x ih =>
    cases i with
    | line l =>
      refine (ih (b.push l)).trans ?_
      simp [Block.push, ofLines]
    | start l => exact congrArg (.start b.label :: ofLines b.lines ++ ·) (ih ⟨l, []⟩)

/-- Nothing of a listing is lost in its blocks. -/
lemma Listing.eq_of_blocks {d : DraftBlock} {x y : Listing} (same : blocks d x = blocks d y) :
    x = y := by
  have parts := congrArg ofBlocks same
  rw [ofBlocks_blocks, ofBlocks_blocks] at parts
  exact List.append_cancel_left (List.cons.inj parts).2

/-- The listing that is known of some code is the one that stands at its place. -/
lemma Emit.Placement.listing_eq (p : e.Placement f) {x : Listing}
    (moves : (e.next p.start).At (p.before ++ closed p.current x) (last p.current x) p.after) :
    p.listing = x := by
  obtain ⟨same, same'⟩ := p.moves.cursor.eq_of_cursor moves.cursor
  apply eq_of_blocks (d := p.current)
  rw [blocks, blocks, List.append_cancel_left same, same']

namespace Emit

/-- Code that is put behind what has been emitted, and leaves the block that it ends in. -/
def MovesOut (e : Emit α) : Prop :=
  ∀ ⦃s before current after⦄, Progress.At s before current after →
    ∃ x, (e.next s).draft.Cursor (before ++ closed current x) (last current x) after

/-- Code that moves may be put in front of code that moves out. -/
lemma Moves.bind_out {g : α → Emit β} (first : e.Moves) (second : ∀ a, (g a).MovesOut) :
    (e >>= g).MovesOut := by
  intro s before current after start
  obtain ⟨x, moves⟩ := first start
  obtain ⟨y, cursor⟩ := second (e.result s) moves
  refine ⟨x ++ y, ?_⟩
  rw [closed_append, last_append, ← List.append_assoc]
  exact cursor

/-- Code that moves may be put together. -/
lemma Moves.forM {codes : List (Emit Unit)} (each : ∀ code ∈ codes, code.Moves) :
    (codes.forM fun code => code : Emit Unit).Moves := by
  induction codes with
  | nil => exact (Straight.pure ()).moves
  | cons code codes ih =>
    obtain ⟨first, others⟩ := List.forall_mem_cons.1 each
    exact first.bind fun _ => ih others

/-- Code that leaves its block moves out. -/
lemma Leaves.out {e : Emit Unit} (leaves : Emit.Leaves c id b e) : e.MovesOut := by
  intro s before current after start
  obtain ⟨lines, t, _, _, left⟩ := leaves start
  refine ⟨ofLines (lines ++ [.leave t]), ?_⟩
  rw [closed_ofLines, last_ofLines, List.append_nil, ← List.append_assoc]
  exact left.moves start

/-- Code between other code stands where all of it does. -/
lemma exists_placement_between {first : Emit β} {code : Emit Unit} {rest : Emit Unit}
    (moves : first.Moves) (moves' : code.Moves) (out : rest.MovesOut) {s : Progress}
    {before after : List DraftBlock} {current : DraftBlock} (start : s.At before current after)
    {x : Listing}
    (cursor : ((first >>= fun _ => code >>= fun _ => rest).next s).draft.Cursor
      (before ++ closed current x) (last current x) after)
    (carries : f.Carries (blocks current x)) :
    Nonempty (code.Placement f) := by
  obtain ⟨y, behind⟩ := moves start
  obtain ⟨z, behind'⟩ := moves' behind
  obtain ⟨w, cursor'⟩ := out behind'
  -- the listing that is known of all the code consists of those of its parts
  have parts : blocks current x = blocks current (y ++ (z ++ w)) := by
    have assembled : ((first >>= fun _ => code >>= fun _ => rest).next s).draft.Cursor
        (before ++ closed current (y ++ (z ++ w))) (last current (y ++ (z ++ w))) after := by
      rw [closed_append, closed_append, last_append, last_append, ← List.append_assoc,
        ← List.append_assoc]
      exact cursor'
    obtain ⟨same, same'⟩ := cursor.eq_of_cursor assembled
    rw [blocks, blocks, List.append_cancel_left same, same']
  rw [parts] at carries
  have inside := (Carries.of_append (Carries.of_append carries).2).1
  exact ⟨⟨_, _, _, _, z, behind, behind', inside⟩⟩

end Emit

/-- The code of each instruction of a block can be found between that of the others. -/
lemma instructionCodes_split {codes : List (Emit Unit)}
    (given : instructionCodes c id b = .ok codes)
    {position : Nat} {i : Instruction} (instr : b.instructions[position]? = some i) :
    ∃ code before after, instruction c id b i position = .ok code ∧
      codes = before ++ (comment c i >>= fun _ => code) :: after := by
  have each := Except.forall₂_of_mapM_eq_ok given
  have mem : b.instructions.zipIdx[position]? = some (i, position) := by
    rw [List.getElem?_zipIdx, instr, Nat.zero_add]
    rfl
  obtain ⟨lt, eq⟩ := List.getElem?_eq_some_iff.1 mem
  have lt' : position < codes.length := each.length_eq ▸ lt
  have own := each.get lt lt'
  rw [List.get_eq_getElem, eq] at own
  obtain ⟨code, found, same⟩ := Except.exists_of_bind_eq_ok own
  refine ⟨code, codes.take position, codes.drop (position + 1), found, ?_⟩
  rw [Except.ok.inj same]
  exact (List.take_append_drop position codes).symm.trans
    (congrArg (codes.take position ++ ·) (List.drop_eq_getElem_cons lt'))

/-- The codes of the instructions of a block move. -/
lemma instructionCodes_move (found : c.body.block? id = some b) {codes : List (Emit Unit)}
    (given : instructionCodes c id b = .ok codes) : ∀ code ∈ codes, code.Moves := by
  intro code mem
  obtain ⟨entry, _, eq⟩ := Except.exists_of_mem_of_mapM_eq_ok given mem
  obtain ⟨own, emitted, same⟩ := Except.exists_of_bind_eq_ok eq
  obtain rfl := Except.ok.inj same
  exact (comment_straight entry.1).moves.bind fun _ => (instruction_emits found own emitted).moves

/-- The code of each instruction of a body stands in the function that is emitted for the body. -/
lemma exists_placement (bound : c.body.blocks.length ≤ UInt32.size) {pools pools' : Pools}
    (lowered : (function c).run pools = .ok (f, pools')) (found : c.body.block? id = some b)
    {position : Nat} {i : Instruction} (instr : b.instructions[position]? = some i) :
    ∃ code, instruction c id b i position = .ok code ∧ Nonempty (code.Placement f) := by
  obtain ⟨k, blocks, nodup, _⟩ := function_spec bound lowered
  obtain ⟨bc, mem, rfl, rfl⟩ := k.exists_blockCode found
  have carries := k.carries_block blocks nodup mem
  obtain ⟨s, _, _, start, cursor⟩ := bc.emitted
  obtain ⟨code, before, after, given, split⟩ := instructionCodes_split bc.emission.executes instr
  have each := instructionCodes_move found bc.emission.executes
  rw [split] at each
  have received := (receiveException_emits bc.place _ bc.emission.receives).moves
  have moves : (bc.emission.received >>= fun _ => before.forM (fun code => code) >>= fun _ =>
      comment c i).Moves :=
    received.bind fun _ => (Moves.forM fun code mem => each code (List.mem_append_left _ mem)).bind
      fun _ => (comment_straight i).moves
  have out : (after.forM (fun code => code) >>= fun _ => bc.emission.leaving).MovesOut := by
    apply Moves.bind_out
    · exact .forM fun code mem => each code (List.mem_append_right _ (List.mem_cons_of_mem _ mem))
    · exact fun _ => Leaves.out (terminator_leaves found _ bc.emission.leaves)
  have all : bc.emission.code = (bc.emission.received >>= fun _ =>
      before.forM (fun code => code) >>= fun _ => comment c i) >>= fun _ => code >>= fun _ =>
        after.forM (fun code => code) >>= fun _ => bc.emission.leaving := by
    rw [Emission.code, Emission.inner, split]
    simp only [List.forM_eq_forM, List.forM_append, List.forM_cons, bind_assoc]
  rw [all] at cursor
  exact ⟨code, given, exists_placement_between moves (instruction_emits found code given).moves out
    start cursor carries⟩

end ObjectBackend.Lowering
