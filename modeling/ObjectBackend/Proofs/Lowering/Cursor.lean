import ObjectBackend.Proofs.Lowering.Region

/-!
# Where code is emitted

A draft is emitted into at a cursor: the blocks before it are finished, lines go to the current
block, and the blocks after it are still empty. `Draft.Cursor` says so, and that labels tell blocks
apart; the operations on drafts move the cursor as their names say. Going on in a block is simple
because the code that is emitted always goes on in the next one.
-/

namespace List

variable {α : Type} (xs ys : List α) (a b : α)

/-- The item behind the first ones is changed. -/
lemma modify_length_append (f : α → α) :
    (xs ++ a :: ys).modify xs.length f = xs ++ f a :: ys := by
  induction xs with
  | nil => rfl
  | cons x xs ih => exact congrArg (x :: ·) ih

/-- An item is inserted behind the one that follows the first ones. -/
lemma insertIdx_length_succ_append :
    (xs ++ a :: ys).insertIdx (xs.length + 1) b = xs ++ a :: b :: ys := by
  induction xs with
  | nil => rfl
  | cons x xs ih => exact congrArg (x :: ·) ih

end List

namespace ObjectBackend

open Target

/-- The labels of the blocks of a draft. -/
def Target.Draft.labels (d : Draft Label) : List Label := d.blocks.map Block.label

/-- A draft stands at a block, between the blocks before and after it. All labels differ, and those
of the parts of blocks have numbers that have been given out. -/
structure Target.Draft.Cursor (d : Draft Label) (before : List DraftBlock) (current : DraftBlock)
    (after : List DraftBlock) : Prop where
  blocks : d.blocks = before ++ current :: after
  position : d.current = before.length
  nodup : d.labels.Nodup
  numbered : ∀ first k, .split first k ∈ d.labels → k < d.nextSplit

namespace Target.Draft.Cursor

variable {d : Draft Label} {before after : List DraftBlock} {current : DraftBlock} {l : Label}

/-- The start of a function. -/
lemma start (name : Symbol) (result : IrType) (parameters : List Operand) :
    (Draft.start name result parameters).Cursor [] ⟨.entry, []⟩ [] where
  blocks := rfl
  position := rfl
  nodup := List.nodup_singleton _
  numbered := by
    intro _ _ mem
    cases List.mem_singleton.1 mem

/-- The labels of a draft at its cursor. -/
lemma labels_eq (h : d.Cursor before current after) :
    d.labels = before.map Block.label ++ current.label :: after.map Block.label := by
  rw [labels, h.blocks, List.map_append, List.map_cons]

/-- A draft stands at one place only. -/
lemma eq_of_cursor {before' after' : List DraftBlock} {current' : DraftBlock}
    (h : d.Cursor before current after) (h' : d.Cursor before' current' after') :
    before = before' ∧ current = current' := by
  have same := h.blocks.symm.trans h'.blocks
  have length := h.position.symm.trans h'.position
  obtain ⟨same, rest⟩ := List.append_inj same length
  exact ⟨same, (List.cons.inj rest).1⟩

/-- What a listing adds to the labels. -/
lemma labels_eq_of_listing {x : Lowering.Listing}
    (h : d.Cursor (before ++ Lowering.Listing.closed current x) (Lowering.Listing.last current x)
      after) :
    d.labels =
      before.map Block.label ++ current.label :: Lowering.Listing.labels x ++
        after.map Block.label := by
  have inside := Lowering.Listing.labels_blocks current x
  rw [Lowering.Listing.blocks, List.map_append] at inside
  rw [h.labels_eq, List.map_append, List.append_assoc, List.append_assoc, ← inside,
    List.append_assoc]
  rfl

/-- The labels of a draft whose cursor stands behind a listing. -/
lemma labels_eq_of_start {x : Lowering.Listing}
    (h : d.Cursor (Lowering.Listing.closed current x) (Lowering.Listing.last current x) after) :
    d.labels = current.label :: Lowering.Listing.labels x ++ after.map Block.label := by
  rw [← List.nil_append (Lowering.Listing.closed current x)] at h
  exact h.labels_eq_of_listing

/-- Lines go to the block at the cursor. -/
lemma currentLabel (h : d.Cursor before current after) : d.currentLabel = current.label := by
  rw [Draft.currentLabel, currentBlock?, h.blocks, h.position,
    List.getElem?_append_right (Nat.le_refl _), Nat.sub_self]
  rfl

/-- A block before the cursor has another label than the block at it. -/
lemma label_ne {b : DraftBlock} (h : d.Cursor before current after) (mem : b ∈ before) :
    b.label ≠ current.label := by
  have nodup := h.nodup
  rw [h.labels_eq] at nodup
  exact (List.nodup_append.1 nodup).2.2 _ (List.mem_map_of_mem mem) _ (List.mem_cons_self ..)

/-- What leaves the labels alone keeps them different. -/
lemma of_labels {d' : Draft Label} {before' after' : List DraftBlock} {current' : DraftBlock}
    (h : d.Cursor before current after) (blocks : d'.blocks = before' ++ current' :: after')
    (position : d'.current = before'.length) (labels : d'.labels = d.labels)
    (splits : d.nextSplit ≤ d'.nextSplit) : d'.Cursor before' current' after' where
  blocks := blocks
  position := position
  nodup := labels ▸ h.nodup
  numbered := fun first k mem => Nat.lt_of_lt_of_le (h.numbered first k (labels ▸ mem)) splits

/-- A change of the current block that leaves its label alone. -/
lemma modify (h : d.Cursor before current after) (f : DraftBlock → DraftBlock)
    (label : (f current).label = current.label) :
    Cursor { d with blocks := d.blocks.modify d.current f } before (f current) after := by
  have eq : d.blocks.modify d.current f = before ++ f current :: after := by
    rw [h.blocks, h.position, List.modify_length_append]
  refine h.of_labels eq h.position ?_ (Nat.le_refl _)
  rw [labels, labels, eq, h.blocks, List.map_append, List.map_append, List.map_cons, List.map_cons,
    label]

/-- A line goes to the block at the cursor. -/
lemma push (h : d.Cursor before current after) (line : DraftLine) :
    (d.push line).Cursor before (current.push line) after :=
  h.modify (·.push line) rfl

/-- A block that has no terminator is left. -/
lemma terminate (h : d.Cursor before current after) (isOpen : current.isTerminated = false)
    (t : Term Label) : (d.terminate t).Cursor before (current.push (.leave t)) after := by
  have eq : current.terminate t = current.push (.leave t) := by
    rw [Block.terminate, isOpen]
    rfl
  rw [← eq]
  exact h.modify (·.terminate t) (by rw [eq]; rfl)

/-- A new block is put behind the current one or at the end. -/
lemma of_perm {d' : Draft Label} {after' : List DraftBlock} (h : d.Cursor before current after)
    (blocks : d'.blocks = before ++ current :: after') (position : d'.current = d.current)
    (perm : after'.Perm (⟨l, []⟩ :: after)) (new : l ∉ d.labels)
    (numbered : ∀ first k, l = .split first k → k < d'.nextSplit)
    (splits : d.nextSplit ≤ d'.nextSplit) : d'.Cursor before current after' := by
  have perm : d'.labels.Perm (l :: d.labels) := by
    have here : (current :: after').Perm (⟨l, []⟩ :: current :: after) :=
      (perm.cons current).trans (List.Perm.swap ..)
    have all : d'.blocks.Perm (⟨l, []⟩ :: d.blocks) := by
      rw [blocks, h.blocks]
      exact (here.append_left before).trans List.perm_middle
    exact all.map Block.label
  have nodup := perm.nodup_iff.2 (List.nodup_cons.2 ⟨new, h.nodup⟩)
  refine ⟨blocks, position.trans h.position, nodup, ?_⟩
  intro first k mem
  rcases List.mem_cons.1 (perm.mem_iff.1 mem) with eq | mem
  · exact numbered first k eq.symm
  · exact Nat.lt_of_lt_of_le (h.numbered first k mem) splits

/-- A block is inserted behind the cursor. -/
lemma blocks_insertBlock (h : d.Cursor before current after) (l : Label) :
    (d.insertBlock l).blocks = before ++ current :: ⟨l, []⟩ :: after := by
  have le : d.current + 1 ≤ d.blocks.length := by
    rw [h.blocks, h.position, List.length_append, List.length_cons]
    omega
  change d.blocks.insertIdx (min (d.current + 1) d.blocks.length) _ = _
  rw [Nat.min_eq_left le, h.blocks, h.position, List.insertIdx_length_succ_append]

/-- The cursor stays when a block with a new label is inserted behind it. -/
lemma insertBlock (h : d.Cursor before current after) (new : l ∉ d.labels)
    (unnumbered : l.isSplit = false) :
    (d.insertBlock l).Cursor before current (⟨l, []⟩ :: after) :=
  h.of_perm (h.blocks_insertBlock l) rfl (.refl _) new
    (fun first k eq => by rw [eq] at unnumbered; cases unnumbered) (Nat.le_refl _)

/-- The label of a new part has a number that no other one has. -/
lemma split (h : d.Cursor before current after) (first : Label) :
    (d.split (.split first)).2.Cursor before current (⟨.split first d.nextSplit, []⟩ :: after) := by
  refine h.of_perm (h.blocks_insertBlock _) rfl (.refl _) ?_ ?_ (Nat.le_succ _)
  · exact fun mem => Nat.lt_irrefl _ (h.numbered first _ mem)
  · rintro _ k eq
    rw [← (Label.split.inj eq).2]
    exact Nat.lt_succ_self _

/-- The cursor stays when a block with a new label is put at the end. -/
lemma appendBlock (h : d.Cursor before current after) (new : l ∉ d.labels)
    (unnumbered : l.isSplit = false) :
    (d.appendBlock l).Cursor before current (after ++ [⟨l, []⟩]) := by
  refine h.of_perm ?_ rfl (List.perm_append_singleton _ _) new
    (fun first k eq => by rw [eq] at unnumbered; cases unnumbered) (Nat.le_refl _)
  rw [Draft.appendBlock, h.blocks, List.append_assoc]
  rfl

/-- Code goes on in the next block. -/
lemma goTo (h : d.Cursor before current (⟨l, []⟩ :: after)) :
    (d.goTo l).Cursor (before ++ [current]) ⟨l, []⟩ after := by
  have blocks : d.blocks = (before ++ [current]) ++ ⟨l, []⟩ :: after := by
    rw [h.blocks, List.append_assoc]
    rfl
  have moved : Cursor { d with current := (before ++ [current]).length } (before ++ [current])
      ⟨l, []⟩ after := h.of_labels blocks rfl rfl (Nat.le_refl _)
  have found : d.blocks.findIdx? (·.label = l) = some (before ++ [current]).length := by
    have others : ∀ b ∈ before ++ [current], decide (b.label = l) = false :=
      fun b mem => decide_eq_false (moved.label_ne mem)
    rw [blocks, List.findIdx?_append, List.findIdx?_eq_none_iff.2 others, List.findIdx?_cons]
    simp
  have eq : d.goTo l = { d with current := (before ++ [current]).length } := by
    rw [Draft.goTo, found]
  rw [eq]
  exact moved

end Target.Draft.Cursor

/-- Going elsewhere changes nothing else. -/
lemma Target.Draft.goTo_eq (d : Draft Label) (l : Label) :
    ∃ i, d.goTo l = { d with current := i } := by
  rw [goTo]
  cases d.blocks.findIdx? (·.label = l) with
  | some i => exact ⟨i, rfl⟩
  | none => exact ⟨d.current, rfl⟩

end ObjectBackend
