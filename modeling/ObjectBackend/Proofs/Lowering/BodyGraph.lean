import Mathlib.Data.List.Count
import ObjectBackend.Proofs.Flow.Handlers
import ObjectBackend.Proofs.Lowering.Bodies

/-!
# The edges of the code of a body

The blocks of a body together: each label that an edge leads to starts a block (`mem_labels`), and
the values of each phi come from the blocks that its own is entered from (`joins_perm`). For a phi
of the body the latter needs that it has one value for each predecessor.
-/

namespace ObjectBackend

open Target

/-- If only one element of a list contributes, it makes up the whole. -/
lemma flatMap_eq_of_mem {α β κ : Type} {as : List α} {a : α} {key : α → κ} {f : α → List β}
    (keys : (as.map key).Nodup) (mem : a ∈ as)
    (others : ∀ a' ∈ as, key a' ≠ key a → f a' = []) : as.flatMap f = f a := by
  obtain ⟨xs, ys, rfl⟩ := List.append_of_mem mem
  rw [List.map_append, List.map_cons] at keys
  obtain ⟨once, _⟩ := List.nodup_cons.1 (List.nodup_middle.1 keys)
  rw [← List.map_append] at once
  have nothing : ∀ a' ∈ xs ++ ys, f a' = [] := by
    intro a' mem'
    apply others a'
    · rcases List.mem_append.1 mem' with left | right
      · exact List.mem_append_left _ left
      · exact List.mem_append_right _ (List.mem_cons_of_mem _ right)
    · exact fun eq => once (List.mem_map.2 ⟨a', mem', eq⟩)
  obtain ⟨before, after⟩ := List.forall_mem_append.1 nothing
  rw [List.flatMap_append, List.flatMap_cons, List.flatMap_eq_nil_iff.2 before,
    List.flatMap_eq_nil_iff.2 after, List.append_nil]
  rfl

/-- Elements that contribute nothing may be left out. -/
lemma flatMap_filter {α β : Type} {as : List α} {p : α → Bool} {f : α → List β}
    (none : ∀ a ∈ as, p a = false → f a = []) : (as.filter p).flatMap f = as.flatMap f := by
  induction as with
  | nil => rfl
  | cons a as ih =>
    obtain ⟨first, others⟩ := List.forall_mem_cons.1 none
    rw [List.filter_cons, List.flatMap_cons, ← ih others]
    cases holds : p a with
    | true => rfl
    | false =>
      rw [first holds]
      rfl

/-- The numbers after an insertion: those before, and the one that is inserted. -/
lemma mem_insertNew {ids : List BlockId} {id target : BlockId} :
    target ∈ insertNew ids id ↔ target ∈ ids ∨ target = id := by
  have folded : target ∈ [id].foldl insertNew ids ↔ _ := Body.mem_foldl_insertNew
  rw [List.mem_singleton] at folded
  exact folded

/-- The successors of a block are the targets of its terminator and its handlers. -/
lemma BasicBlock.mem_successors {b : BasicBlock} {target : BlockId} : target ∈ b.successors ↔
    target ∈ b.terminator.targets ∨ target ∈ b.tryCatches.map (·.handler) := by
  have targets : target ∈ b.terminator.successors ↔ target ∈ b.terminator.targets := by
    cases b.terminator with
    | jump | exit | raise | unreachable => rfl
    | branch | binaryBranch =>
      rw [Terminator.successors, mem_insertNew, List.mem_singleton]
      exact Lowering.mem_pair.symm
    | «switch» =>
      rw [Terminator.successors, mem_insertNew, Body.mem_foldl_insertNew, Terminator.targets,
        List.mem_cons, or_comm]
      simp
  rw [successors, Body.mem_foldl_insertNew, targets]

namespace Lowering

open Listing

variable {c : Context}

/-- Exceptions come from a block just if one of its instructions is a call site or its end throws
one. -/
lemma Context.hasLanding_eq (c : Context) (id : BlockId) (b : BasicBlock) :
    c.hasLanding b = (b.isProtected && !(c.blockPoints id b).isEmpty) := by
  have instructions : (b.instructions.zipIdx.flatMap fun entry =>
      c.instructionPoints id entry.1 entry.2) = [] ↔ b.instructions.any c.isSite = false := by
    rw [List.flatMap_eq_nil_iff, List.any_eq_false]
    have point : ∀ i position, c.instructionPoints id i position = [] ↔ ¬c.isSite i = true := by
      intro i position
      rw [Context.instructionPoints]
      split <;> simp [*]
    constructor
    · intro none i mem
      obtain ⟨position, found⟩ := List.getElem?_of_mem mem
      exact (point i position).1 (none (i, position) (List.mk_mem_zipIdx_iff_getElem?.2 found))
    · intro none entry mem
      exact (point _ _).2 (none _ (List.fst_mem_of_mem_zipIdx mem))
  have none : (c.blockPoints id b).isEmpty = true ↔
      b.instructions.any c.isSite = false ∧ raisePoints id b = [] := by
    rw [List.isEmpty_iff, Context.blockPoints, List.append_eq_nil_iff, ← instructions]
  rw [Context.hasLanding]
  congr 1
  rw [← Bool.not_inj_iff, Bool.not_not, Bool.eq_iff_iff, none, raisePoints]
  cases b.terminator <;> simp

/-- The edges to one label, from the sources of marks. -/
lemma sourcesTo_marks (l target : Label) (marks : List Mark) :
    sourcesTo l (marks.map fun m => (m.source, target)) =
      if target = l then marks.map (·.source) else [] := by
  split
  case isTrue eq =>
    rw [← eq]
    have edges : marks.map (fun m => (m.source, target)) =
        (marks.map (·.source)).map (·, target) := by
      rw [List.map_map]
      rfl
    rw [edges, sourcesTo_map_self]
  case isFalse other =>
    apply sourcesTo_eq_nil
    intro e mem
    obtain ⟨m, _, rfl⟩ := List.mem_map.1 mem
    exact other

namespace BlockCode

variable (k : BlockCode c)

/-- There is a landing pad just if the block has handlers and exceptions come from it. -/
lemma isEmpty_landings : (k.place.landings k.sites).isEmpty = !c.hasLanding k.block := by
  have sites : k.sites.isEmpty = (c.blockPoints k.id k.block).isEmpty := by
    rw [Bool.eq_iff_iff, List.isEmpty_iff_length_eq_zero, List.isEmpty_iff_length_eq_zero,
      k.lines.length_eq]
    rfl
  rw [k.landings_eq, c.hasLanding_eq k.id]
  cases k.block.isProtected with
  | false => rfl
  | true =>
    rw [if_pos rfl, List.isEmpty_map, sites, Bool.true_and, Bool.not_not]

/-- An edge out of a block leads to a successor, to its landing pad, or to a shared block that
exists for its sake. -/
lemma mem_outEdges {e : Label × Label} (mem : e ∈ k.outEdges) :
    (∃ id ∈ k.block.successors, e.2 = .block id) ∨
      (e.2 = .landing k.id ∧ .landing k.id ∈ labels k.listing) ∨
      (e.2 = .exit ∧ k.exits ≠ []) ∨ (e.2 = .unwind ∧ k.sites ≠ []) := by
  -- where exceptions go
  have thrown : ∀ m ∈ k.sites,
      (k.place.target = .landing k.id ∧ .landing k.id ∈ labels k.listing) ∨
        (k.place.target = .unwind ∧ k.sites ≠ []) := by
    intro m mem
    have some : k.sites ≠ [] := List.ne_nil_of_mem mem
    rw [k.labels_listing, k.target_eq, k.landings_eq]
    cases k.block.isProtected with
    | false => exact .inr ⟨rfl, some⟩
    | true =>
      refine .inl ⟨rfl, List.mem_cons_of_mem _ (List.mem_append_right _ ?_)⟩
      rw [if_pos rfl, List.isEmpty_map, if_neg (by simpa using some)]
      exact List.mem_singleton_self _
  rw [outEdges, List.mem_append, List.mem_append] at mem
  rcases mem with (mem | mem) | mem
  · obtain ⟨m, marked, rfl⟩ := List.mem_map.1 mem
    rcases thrown m (List.mem_append_left _ marked) with landing | unwind
    · exact .inr (.inl landing)
    · exact .inr (.inr (.inr unwind))
  · obtain ⟨target, named, rfl⟩ := List.mem_map.1 mem
    rw [k.targets, List.mem_append, List.mem_append] at named
    rcases named with (named | named) | named
    · obtain ⟨id, go, rfl⟩ := List.mem_map.1 named
      exact .inl ⟨id, BasicBlock.mem_successors.2 (.inl go), rfl⟩
    · obtain ⟨exit, exits, rfl⟩ := List.mem_map.1 named
      exact .inr (.inr (.inl ⟨rfl, List.ne_nil_of_mem exits⟩))
    · obtain ⟨m, raised, rfl⟩ := List.mem_map.1 named
      rcases thrown m (List.mem_append_right _ raised) with landing | unwind
      · exact .inr (.inl landing)
      · exact .inr (.inr (.inr unwind))
  · rw [padEdges] at mem
    split at mem
    case isTrue => cases mem
    case isFalse handed =>
      rcases List.mem_cons.1 mem with rfl | mem
      · refine .inr (.inr (.inr ⟨rfl, fun none => handed ?_⟩))
        rw [none, Place.landings]
        split <;> rfl
      · obtain ⟨h, handler, rfl⟩ := List.mem_map.1 mem
        exact .inl ⟨_, BasicBlock.mem_successors.2 (.inr (List.mem_map_of_mem handler)), rfl⟩

/-- How often the terminator names a label. -/
lemma count_targets (l : Label) : k.term.targets.count l =
    (k.block.terminator.targets.map Label.block).count l +
      (if .exit = l then k.exits.length else 0) +
      (if k.place.target = l then k.raised.length else 0) := by
  rw [k.targets, List.count_append, List.count_append, List.map_const', List.map_const',
    List.count_replicate, List.count_replicate]
  simp only [beq_iff_eq]
  rfl

/-- A block of the body is entered from the end of another one, for each time that the terminator
names it, and from its landing pad, for each time that it is a handler. -/
lemma sourcesTo_block (target : BlockId) : sourcesTo (.block target) k.outEdges =
    List.replicate (k.block.terminator.targets.count target) k.ending ++
      List.replicate (if c.hasLanding k.block then (k.block.tryCatches.map (·.handler)).count target
        else 0) (.landing k.id) := by
  have other : k.place.target ≠ .block target := by
    rw [k.target_eq]
    split <;> rintro ⟨⟩
  have pad : sourcesTo (.block target) (padEdges k.id k.block (k.place.landings k.sites)) =
      List.replicate (if c.hasLanding k.block then (k.block.tryCatches.map (·.handler)).count target
        else 0) (.landing k.id) := by
    rw [padEdges, k.isEmpty_landings]
    cases c.hasLanding k.block with
    | false => rfl
    | true =>
      have handlers :
          k.block.tryCatches.map (fun h => (Label.landing k.id, Label.block h.handler)) =
          ((k.block.tryCatches.map (·.handler)).map Label.block).map (.landing k.id, ·) := by
        rw [List.map_map, List.map_map]
        rfl
      rw [if_neg (by simp), if_pos rfl, handlers]
      refine (sourcesTo_map_const (.block target) (.landing k.id) (.unwind :: _)).trans ?_
      have unwind : Label.unwind ≠ .block target := by rintro ⟨⟩
      rw [List.count_cons_of_ne unwind, List.count_map_of_injective _ _ fun _ _ => Label.block.inj]
  have exit : Label.exit ≠ .block target := by rintro ⟨⟩
  rw [outEdges, sourcesTo_append, sourcesTo_append, sourcesTo_marks, if_neg other,
    sourcesTo_map_const, k.count_targets, if_neg exit, if_neg other, pad, List.nil_append,
    List.count_map_of_injective _ _ fun _ _ => Label.block.inj]
  rfl

/-- The shared exit is entered from the end of a block, for each value that it returns. -/
lemma sourcesTo_exit : sourcesTo .exit k.outEdges = k.exits.map Prod.snd := by
  have other : k.place.target ≠ .exit := by
    rw [k.target_eq]
    split <;> rintro ⟨⟩
  have pad : sourcesTo .exit (padEdges k.id k.block (k.place.landings k.sites)) = [] := by
    apply sourcesTo_eq_nil
    rw [padEdges]
    split <;> simp
  have blocks : (k.block.terminator.targets.map Label.block).count .exit = 0 :=
    List.count_eq_zero_of_not_mem (by simp)
  have ends : k.exits.map Prod.snd = List.replicate k.exits.length k.ending := by
    rw [← List.map_const']
    exact List.map_congr_left k.sources.1
  rw [outEdges, sourcesTo_append, sourcesTo_append, sourcesTo_marks, if_neg other,
    sourcesTo_map_const, k.count_targets, if_pos rfl, if_neg other, pad, blocks, ends]
  simp

/-- The landing pad of a block is entered from its call sites only. -/
lemma sourcesTo_landing (id : BlockId) : sourcesTo (.landing id) k.outEdges =
    if k.id = id then (k.place.landings k.sites).map Prod.snd else [] := by
  have pad : sourcesTo (.landing id) (padEdges k.id k.block (k.place.landings k.sites)) = [] := by
    apply sourcesTo_eq_nil
    rw [padEdges]
    split <;> simp
  have blocks : (k.block.terminator.targets.map Label.block).count (.landing id) = 0 :=
    List.count_eq_zero_of_not_mem (by simp)
  have ends : k.raised.map (·.source) = List.replicate k.raised.length k.ending := by
    rw [← List.map_const']
    exact List.map_congr_left k.sources.2
  have exit : Label.exit ≠ .landing id := by rintro ⟨⟩
  rw [outEdges, sourcesTo_append, sourcesTo_append, sourcesTo_marks, sourcesTo_map_const,
    k.count_targets, if_neg exit, pad, blocks, List.append_nil, k.target_eq,
    k.landings_eq]
  cases k.block.isProtected with
  | false => simp
  | true =>
    by_cases eq : k.id = id
    · simp only [eq, ↓reduceIte, Nat.zero_add, ← ends, ← List.map_append, List.map_map]
      rfl
    · simp [eq]

end BlockCode

/-- What the code behind the blocks of a body adds. -/
lemma graph_exitCode (ℓ : Label) (exits : List (Option Value × Label)) :
    edges ℓ (exitCode c exits) = [] ∧
      ∀ j ∈ joins ℓ (exitCode c exits), j = (.exit, exits.map fun e => .label e.2) := by
  rw [exitCode, popLines]
  split
  · exact ⟨rfl, List.forall_mem_nil _⟩
  · split <;> split <;> simp [edges, joins, lineEdges, lineJoins, ofLines, Term.targets]

/-- The exit for exceptions has no edges and joins nothing. -/
lemma graph_unwindCode (ℓ : Label) (unwinds : Bool) :
    edges ℓ (unwindCode c unwinds) = [] ∧ joins ℓ (unwindCode c unwinds) = [] := by
  rw [unwindCode, popLines]
  split
  · split <;> exact ⟨rfl, rfl⟩
  · exact ⟨rfl, rfl⟩

/-- The edges of blocks to the outside are those of each. -/
lemma outward_blocks (ks : List (BlockCode c)) (ℓ : Label) :
    outward ℓ (ks.flatMap (·.listing)) = ks.flatMap (·.outEdges) := by
  induction ks generalizing ℓ with
  | nil => rfl
  | cons k ks ih => rw [List.flatMap_cons, outward_append, k.outward_listing, ih, List.flatMap_cons]

/-- What blocks join is joined by one of them. -/
lemma mem_joins_blocks {ks : List (BlockCode c)} {ℓ : Label} {j : Label × List (Source Label)}
    (mem : j ∈ joins ℓ (ks.flatMap (·.listing))) : ∃ k ∈ ks, ∃ ℓ', j ∈ joins ℓ' k.listing := by
  induction ks generalizing ℓ with
  | nil => cases mem
  | cons k ks ih =>
    rw [List.flatMap_cons, joins_append, List.mem_append] at mem
    rcases mem with mem | mem
    · exact ⟨k, List.mem_cons_self .., ℓ, mem⟩
    · obtain ⟨k', mem', found⟩ := ih mem
      exact ⟨k', List.mem_cons_of_mem _ mem', found⟩

/-- The sources of edges, piece by piece. -/
lemma sourcesTo_flatMap {α : Type} (l : Label) (as : List α) (f : α → List (Label × Label)) :
    sourcesTo l (as.flatMap f) = as.flatMap fun a => sourcesTo l (f a) := by
  induction as with
  | nil => rfl
  | cons a as ih => rw [List.flatMap_cons, sourcesTo_append, ih, List.flatMap_cons]

namespace BodyCode

variable (k : BodyCode c)

/-- The edges between blocks that are not started by splitting one. -/
def outEdges : List (Label × Label) :=
  k.entryMarks.map (fun m => (m.source, .unwind)) ++ [(startEnd c, .block .entry)] ++
    k.blocks.flatMap (·.outEdges)

/-- The edges of a body are those out of its blocks. -/
lemma outward_listing : outward .entry k.listing = k.outEdges := by
  have exit : ∀ ℓ, outward ℓ (exitCode c k.exits) = [] := fun ℓ => by
    rw [outward, (graph_exitCode ℓ _).1]
    rfl
  have unwind : ∀ ℓ, outward ℓ (unwindCode c (!k.marks.isEmpty)) = [] := fun ℓ => by
    rw [outward, (graph_unwindCode ℓ _).1]
    rfl
  rw [listing, outward_append, outward_append, exit, unwind, List.append_nil, List.append_nil, main,
    outward_append, outward_append, k.region.outward_eq, k.region.endLabel_eq, outward_blocks]
  rfl

/-- The parts that blocks are split into are entered and joined as they should. -/
lemma contained_listing : Contained .entry 0 k.listing k.last := by
  have jump : Contained (startEnd c) k.first [.line (.leave (.br (.block .entry)))] k.first :=
    .of_not_split (by simp [labels]) (by simp [edges, lineEdges, Term.targets, Label.isSplit])
      (by simp [joins, lineJoins])
  have exit : ∀ ℓ, Contained ℓ k.last (exitCode c k.exits) k.last := by
    intro ℓ
    obtain ⟨noEdges, phis⟩ := graph_exitCode (c := c) ℓ k.exits
    refine .of_not_split ?_ (by simp [noEdges]) (fun j mem => by rw [phis j mem]; rfl)
    rw [labels_exitCode]
    split <;> simp [Label.isSplit]
  have unwind : ∀ ℓ, Contained ℓ k.last (unwindCode c (!k.marks.isEmpty)) k.last := by
    intro ℓ
    obtain ⟨noEdges, noPhis⟩ := graph_unwindCode (c := c) ℓ (!k.marks.isEmpty)
    refine .of_not_split ?_ (by simp [noEdges]) (by simp [noPhis])
    rw [labels_unwindCode]
    split <;> simp [Label.isSplit]
  have entry : Contained .entry 0 (k.entry ++ [.line (.leave (.br (.block .entry)))]) k.first :=
    k.region.contained.append (by rw [k.region.endLabel_eq]; exact jump)
  exact ((entry.append (k.contained _)).append (exit _)).append (unwind _)

/-- The labels of a body are those of its entry, its blocks and the shared exits that are there. -/
lemma labels_listing : labels k.listing =
    labels k.entry ++ k.blocks.flatMap (fun b => labels b.listing) ++
      (if k.exits.isEmpty then [] else [.exit]) ++ if k.marks.isEmpty then [] else [.unwind] := by
  rw [listing, labels_append, labels_append, labels_exitCode, labels_unwindCode, main,
    labels_append,
    labels_append, labels_flatMap]
  change labels k.entry ++ [] ++ _ ++ _ ++ _ = _
  rw [List.append_nil]
  cases k.marks.isEmpty <;> rfl

/-- The labels of a block are labels of its body. -/
lemma labels_subset {b : BlockCode c} (mem : b ∈ k.blocks) :
    labels b.listing ⊆ labels k.listing := by
  intro l started
  rw [labels_listing]
  exact List.mem_append_left _ (List.mem_append_left _
    (List.mem_append_right _ (List.mem_flatMap.2 ⟨b, mem, started⟩)))

/-- The shared exit is there if something returns. -/
lemma exit_mem_labels (some : k.exits ≠ []) : .exit ∈ labels k.listing := by
  rw [labels_listing, if_neg (by simpa using some)]
  exact List.mem_append_left _ (List.mem_append_right _ (List.mem_singleton_self _))

/-- The exit for exceptions is there if a call site goes there. -/
lemma unwind_mem_labels (some : k.marks ≠ []) : .unwind ∈ labels k.listing := by
  rw [labels_listing, if_neg (c := k.marks.isEmpty = true) (by simpa using some)]
  exact List.mem_append_right _ (List.mem_singleton_self _)

/-- Each block of the body has code. -/
lemma exists_blockCode {id : BlockId} {block : BasicBlock}
    (found : c.body.block? id = some block) :
    ∃ b ∈ k.blocks, b.id = id ∧ b.block = block := by
  have numbered := Body.mem_numberedBlocks found
  rw [← k.numbered] at numbered
  obtain ⟨b, mem, eq⟩ := List.mem_map.1 numbered
  obtain ⟨rfl, rfl⟩ := Prod.mk.inj eq
  exact ⟨b, mem, rfl, rfl⟩

/-- Each block that exists has its label. -/
lemma block_mem_labels {id : BlockId} (lt : id.index < c.body.blocks.length) :
    .block id ∈ labels k.listing := by
  obtain ⟨b, mem, rfl, _⟩ := k.exists_blockCode (List.getElem?_eq_getElem lt)
  apply k.labels_subset mem
  rw [b.labels_listing]
  exact List.mem_cons_self ..

/-- Each edge leads to a block. -/
lemma mem_labels {name : String} (checked : c.body.check name = .ok ()) {e : Label × Label}
    (mem : e ∈ edges .entry k.listing) : e.2 ∈ labels k.listing := by
  by_cases split : e.2.isSplit = true
  · exact k.contained_listing.targets e mem split
  · have mem : e ∈ k.outEdges := by
      rw [← k.outward_listing, outward, List.mem_filter]
      exact ⟨mem, by simpa using split⟩
    rw [outEdges, List.mem_append, List.mem_append, List.mem_singleton] at mem
    rcases mem with (mem | rfl) | mem
    · obtain ⟨m, marked, rfl⟩ := List.mem_map.1 mem
      exact k.unwind_mem_labels (List.ne_nil_of_mem (List.mem_append_left _ marked))
    · exact k.block_mem_labels (Body.length_pos checked)
    · obtain ⟨b, memb, mem⟩ := List.mem_flatMap.1 mem
      rcases b.mem_outEdges mem with ⟨id, successor, eq⟩ | ⟨eq, landing⟩ | ⟨eq, some⟩ | ⟨eq, some⟩
      · rw [eq]
        exact k.block_mem_labels
          (Body.lt_of_mem_successors checked (List.mem_of_getElem? b.found) successor)
      · rw [eq]
        exact k.labels_subset memb landing
      · rw [eq]
        obtain ⟨exit, mem⟩ := List.exists_mem_of_ne_nil _ some
        exact k.exit_mem_labels (List.ne_nil_of_mem (List.mem_flatMap.2 ⟨b, memb, mem⟩))
      · rw [eq]
        obtain ⟨m, mem⟩ := List.exists_mem_of_ne_nil _ some
        exact k.unwind_mem_labels (List.ne_nil_of_mem
          (List.mem_append_right _ (List.mem_flatMap.2 ⟨b, memb, mem⟩)))

/-- The blocks are those of the body, in order. -/
lemma map_id : k.blocks.map (·.id) = c.body.numberedBlocks.map Prod.fst := by
  rw [← k.numbered, List.map_map]
  rfl

/-- No block of a body is there twice. -/
lemma nodup_ids (bound : c.body.blocks.length ≤ UInt32.size) : (k.blocks.map (·.id)).Nodup := by
  rw [k.map_id]
  exact Body.nodup_numbers bound

/-- A phi that names a block of the body stands for the end of its code. -/
lemma resolve_block (bound : c.body.blocks.length ≤ UInt32.size) {b : BlockCode c}
    (mem : b ∈ k.blocks) : k.resolve (.block b.id) = b.ending := by
  obtain ⟨before, after, split⟩ := List.append_of_mem mem
  have ids := k.nodup_ids bound
  rw [split, List.map_append, List.map_cons] at ids
  obtain ⟨once, _⟩ := List.nodup_cons.1 (List.nodup_middle.1 ids)
  have found : (k.blocks.map fun b => (b.id, b.ending)).reverse.lookup b.id = some b.ending := by
    refine List.lookup_eq_some_iff.2 ⟨(after.map fun b => (b.id, b.ending)).reverse,
      (before.map fun b => (b.id, b.ending)).reverse, ?_, ?_⟩
    · rw [split, List.map_append, List.map_cons, List.reverse_append, List.reverse_cons,
        List.append_assoc]
      rfl
    · intro e mem
      obtain ⟨b', mem', rfl⟩ := List.mem_map.1 (List.mem_reverse.1 mem)
      rw [bne_iff_ne]
      exact fun eq => once (List.mem_append_right _ (List.mem_map.2 ⟨b', mem', eq.symm⟩))
  rw [resolve, found]
  rfl

/-- Where the edges to a label come from: the entry, and each block. -/
lemma sourcesTo_outEdges (l : Label) : sourcesTo l k.outEdges =
    (if .unwind = l then k.entryMarks.map (·.source) else []) ++
      (if .block .entry = l then [startEnd c] else []) ++
      k.blocks.flatMap fun b => sourcesTo l b.outEdges := by
  have entry : sourcesTo l [(startEnd c, .block .entry)] =
      if .block .entry = l then [startEnd c] else [] := by
    split
    case isTrue eq =>
      rw [← eq]
      exact sourcesTo_map_self (.block .entry) [startEnd c]
    case isFalse other => exact sourcesTo_eq_nil (List.forall_mem_singleton.2 other)
  rw [outEdges, sourcesTo_append, sourcesTo_append, sourcesTo_marks, entry, sourcesTo_flatMap]

/-- A phi that names each predecessor of its block once has a value for each edge into it. -/
lemma phiSources_perm (bound : c.body.blocks.length ≤ UInt32.size) {id : BlockId} {phi : Phi}
    (predecessors : (phi.incomings.map (·.source)).Perm (c.body.predecessors id)) :
    ((phiSources c id phi).map k.resolve).Perm (sourcesTo (.block id) k.outEdges) := by
  let values (source : BlockId) : List Label := (sourcesFrom c id source).map k.resolve
  -- the edges from each block are those that phis have values for
  have edges : (k.blocks.flatMap fun b => sourcesTo (.block id) b.outEdges) =
      (c.body.numberedBlocks.map Prod.fst).flatMap values := by
    rw [← k.map_id, List.flatMap_map]
    refine List.flatMap_congr fun b mem => ?_
    change _ = (sourcesFrom c id b.id).map k.resolve
    rw [b.sourcesTo_block, sourcesFrom, b.found, Option.elim_some, List.map_append,
      List.map_replicate, List.map_replicate, k.resolve_block bound mem]
    rfl
  -- and blocks that are no predecessors have none
  have others : (c.body.numberedBlocks.map Prod.fst).flatMap values =
      (c.body.predecessors id).flatMap values := by
    have none : ∀ e ∈ c.body.numberedBlocks, decide (id ∈ e.2.successors) = false →
        values e.1 = [] := by
      intro e mem other
      rw [decide_eq_false_iff_not, BasicBlock.mem_successors, not_or] at other
      have found : c.body.block? e.1 = some e.2 := Body.block?_of_mem bound mem
      change (sourcesFrom c id e.1).map k.resolve = []
      rw [sourcesFrom, found, Option.elim_some, List.count_eq_zero_of_not_mem other.1,
        List.count_eq_zero_of_not_mem other.2, ite_self]
      rfl
    rw [Body.predecessors, List.flatMap_map, List.flatMap_map, flatMap_filter none]
  have incomings : (phi.incomings.flatMap fun i => values i.source).Perm
      ((c.body.predecessors id).flatMap values) := by
    rw [← List.flatMap_map]
    exact predecessors.flatMap_right values
  have unwind : Label.unwind ≠ .block id := by rintro ⟨⟩
  rw [k.sourcesTo_outEdges, edges, others, phiSources, if_neg unwind, List.nil_append,
    List.map_append, List.map_flatMap]
  refine List.Perm.append (.of_eq ?_) incomings
  by_cases first : id = .entry
  · rw [if_pos first, if_pos (congrArg Label.block first.symm)]
    rfl
  · rw [if_neg first, if_neg fun eq => first (Label.block.inj eq).symm]
    rfl

/-- Each phi has a value for each edge into its block. -/
lemma joins_perm (bound : c.body.blocks.length ≤ UInt32.size) {name : String}
    (checked : c.body.check name = .ok ())
    (complete : ∀ e ∈ c.body.numberedBlocks, ∀ phi ∈ e.2.phis, ∀ source ∈ c.body.predecessors e.1,
      (phi.incomings.map (·.source)).count source = 1)
    {j : Label × List (Source Label)} (mem : j ∈ joins .entry k.listing) :
    (j.2.map k.resolve).Perm (sourcesTo j.1 (edges .entry k.listing)) := by
  by_cases split : j.1.isSplit = true
  · -- the sources at a split are labels, which stand for themselves
    obtain ⟨_, perm⟩ := k.contained_listing.joins j mem split
    have resolved := perm.map k.resolve
    rw [List.map_map] at resolved
    exact resolved.trans (.of_eq (List.map_id _))
  · rw [Bool.not_eq_true] at split
    rw [← sourcesTo_outward split, k.outward_listing]
    rw [listing, joins_append, joins_append, (graph_unwindCode _ _).2, List.append_nil, main,
      joins_append, joins_append, List.mem_append, List.mem_append, List.mem_append] at mem
    rcases mem with ((mem | mem) | mem) | mem
    · rw [k.region.isSplit_of_mem_joins mem] at split
      cases split
    · cases mem
    · obtain ⟨b, memb, ℓ, mem⟩ := mem_joins_blocks mem
      rcases b.joins_listing mem with ⟨label, phi, own, sources⟩ | mem | ⟨label, sources⟩
      · rw [label, sources]
        have numbered : (b.id, b.block) ∈ c.body.numberedBlocks :=
          k.numbered ▸ List.mem_map_of_mem (f := fun b => (b.id, b.block)) memb
        apply k.phiSources_perm bound
        apply Body.sources_perm bound checked numbered own
        exact complete _ numbered phi own
      · rw [b.region.isSplit_of_mem_joins mem] at split
        cases split
      · -- a landing pad is entered from the sites of its own block only
        have only : (k.blocks.flatMap fun b' => sourcesTo (.landing b.id) b'.outEdges) =
            sourcesTo (.landing b.id) b.outEdges := by
          refine flatMap_eq_of_mem (k.nodup_ids bound) memb fun b' _ other => ?_
          rw [b'.sourcesTo_landing, if_neg other]
        have unwind : Label.unwind ≠ .landing b.id := by rintro ⟨⟩
        have first : Label.block .entry ≠ .landing b.id := by rintro ⟨⟩
        rw [label, sources, k.sourcesTo_outEdges, if_neg unwind, if_neg first, only,
          b.sourcesTo_landing, if_pos rfl, List.map_map]
        exact .refl _
    · rw [(graph_exitCode _ _).2 j mem, k.sourcesTo_outEdges]
      have unwind : Label.unwind ≠ .exit := by rintro ⟨⟩
      have first : Label.block .entry ≠ .exit := by rintro ⟨⟩
      have all : (k.blocks.flatMap fun b => sourcesTo .exit b.outEdges) = k.exits.map Prod.snd := by
        rw [exits, List.map_flatMap]
        exact List.flatMap_congr fun b _ => b.sourcesTo_exit
      rw [if_neg unwind, if_neg first, all, List.map_map]
      exact .refl _

end BodyCode

end Lowering

end ObjectBackend
