import ObjectBackend.Lowering.Method
import ObjectBackend.Proofs.Lowering.Cursor

/-!
# Straight code

Most steps of emission only append lines to the current block. `Emit.Straight` says that of a step,
with the number of the calls among the lines, since a call site is the code of exactly one call.
Straight steps in sequence are straight, so code is shown to be straight by going through it.
-/

namespace ObjectBackend

open Target

/-- Whether a line calls a function. -/
def Target.Line.isCall {ℓ σ : Type} : Line ℓ σ → Bool
  | .run (.call ..) | .define _ (.call ..) => true
  | _ => false

/-- The number of calls in an instruction. -/
def Target.Instr.calls : Instr → Nat
  | .call .. => 1
  | _ => 0

/-- What the callers of a function see: its name, its result and its parameters. -/
def Target.Draft.head (d : Draft Label) : Symbol × IrType × List Target.Operand :=
  (d.name, d.result, d.parameters)

namespace Lowering

open Listing

/-- The result of a step of emission. -/
def Emit.result {α : Type} (e : Emit α) (s : Progress) : α := (Id.run (StateT.run e s)).1

/-- What has been emitted after a step. -/
def Emit.next {α : Type} (e : Emit α) (s : Progress) : Progress := (Id.run (StateT.run e s)).2

/-- Code that follows other code goes on from what that has made. -/
lemma Emit.next_bind {α β : Type} (e : Emit α) (f : α → Emit β) (s : Progress) :
    (e >>= f).next s = (f (e.result s)).next (e.next s) := rfl

namespace Progress

variable {s s' s'' : Progress} {before after : List DraftBlock} {current : DraftBlock}
  {ls ms : List DraftLine}

/-- Emission stands at a block that has not been left. -/
structure At (s : Progress) (before : List DraftBlock) (current : DraftBlock)
    (after : List DraftBlock) : Prop where
  cursor : s.draft.Cursor before current after
  isOpen : Fits current true

/-- Nothing but code has been added. -/
structure Quiet (s s' : Progress) : Prop where
  sites : s'.pools.sites = s.pools.sites
  landings : s'.landings = s.landings
  exits : s'.exits = s.exits
  unwinds : s'.unwinds = s.unwinds
  lastBlocks : s'.draft.lastBlocks = s.draft.lastBlocks
  parameters : s'.draft.parameters = s.draft.parameters

namespace Quiet

/-- Nothing changes where nothing is done. -/
lemma refl (s : Progress) : s.Quiet s := ⟨rfl, rfl, rfl, rfl, rfl, rfl⟩

/-- What changes nothing twice changes nothing. -/
lemma trans (h : s.Quiet s') (h' : s'.Quiet s'') : s.Quiet s'' :=
  ⟨h'.sites.trans h.sites, h'.landings.trans h.landings, h'.exits.trans h.exits,
    h'.unwinds.trans h.unwinds, h'.lastBlocks.trans h.lastBlocks,
    h'.parameters.trans h.parameters⟩

/-- Going on at a block changes nothing but where lines go. -/
lemma continueAt (s : Progress) (l : Label) : s.Quiet ((Emit.continueAt l).next s) := by
  obtain ⟨i, eq⟩ := s.draft.goTo_eq l
  refine ⟨rfl, rfl, rfl, rfl, ?_, ?_⟩
  · change (s.draft.goTo l).lastBlocks = _
    rw [eq]
  · change (s.draft.goTo l).parameters = _
    rw [eq]

end Quiet

/-- Going on at a block takes no number of a part. -/
lemma nextSplit_continueAt (s : Progress) (l : Label) :
    ((Emit.continueAt l).next s).draft.nextSplit = s.draft.nextSplit := by
  obtain ⟨i, eq⟩ := s.draft.goTo_eq l
  change (s.draft.goTo l).nextSplit = _
  rw [eq]

/-- Going on at a block takes no temporary. -/
lemma nextTemporary_continueAt (s : Progress) (l : Label) :
    ((Emit.continueAt l).next s).draft.nextTemporary = s.draft.nextTemporary := by
  obtain ⟨i, eq⟩ := s.draft.goTo_eq l
  change (s.draft.goTo l).nextTemporary = _
  rw [eq]

/-- Lines have been appended to the current block. -/
structure Writes (s : Progress) (lines : List DraftLine) (s' : Progress) : Prop where
  moves : ∀ {before current after}, s.At before current after →
    s'.At before ⟨current.label, current.lines ++ lines⟩ after
  splits : s'.draft.nextSplit = s.draft.nextSplit
  quiet : s.Quiet s'

namespace Writes

/-- Lines are written one after the other. -/
lemma trans (h : s.Writes ls s') (h' : s'.Writes ms s'') : s.Writes (ls ++ ms) s'' where
  moves := fun start => by
    rw [← List.append_assoc]
    exact h'.moves (h.moves start)
  splits := h'.splits.trans h.splits
  quiet := h.quiet.trans h'.quiet

/-- A step that does not touch the code. -/
lemma of_blocks (blocks : s'.draft.blocks = s.draft.blocks)
    (position : s'.draft.current = s.draft.current)
    (splits : s'.draft.nextSplit = s.draft.nextSplit) (quiet : s.Quiet s') : s.Writes [] s' where
  moves := fun {_ current _} start => by
    rw [List.append_nil]
    refine ⟨start.cursor.of_labels (blocks.trans start.cursor.blocks)
      (position.trans start.cursor.position) ?_ (Nat.le_of_eq splits.symm), start.isOpen⟩
    rw [Draft.labels, blocks, Draft.labels]
  splits := splits
  quiet := quiet

/-- No lines are written where nothing is done. -/
lemma refl (s : Progress) : s.Writes [] s := of_blocks rfl rfl rfl (.refl s)

/-- A line that stays in its block is written. -/
lemma line (s : Progress) {l : DraftLine} (stays : l.isLeave = false) :
    s.Writes [l] ((Emit.line l).next s) where
  moves := fun start => by
    refine ⟨start.cursor.push l, ?_⟩
    have isOpen := start.isOpen.push (l := l)
    rw [stays] at isOpen
    exact isOpen
  splits := rfl
  quiet := ⟨rfl, rfl, rfl, rfl, rfl, rfl⟩

/-- The result of an instruction goes to the next temporary. -/
lemma define (s : Progress) (i : Instr) :
    s.Writes [.define (.register (.temporary s.draft.nextTemporary)) i]
      ((Emit.define i).next s) :=
  have fresh : s.Writes [] (Emit.fresh.next s) :=
    of_blocks rfl rfl rfl ⟨rfl, rfl, rfl, rfl, rfl, rfl⟩
  fresh.trans (line _ (l := .define _ i) rfl)

end Writes

end Progress

namespace Emit

variable {α β : Type} {e : Emit α} {f : α → Emit β} {m n : Nat}

/-- A call without result is only run. -/
lemma call_of_void {result : IrType} (void : result = .void) (callee : Symbol)
    (arguments : List Target.Operand) : Emit.call result callee arguments =
      Emit.run (.call result (.symbol callee) arguments) >>= fun _ => Pure.pure none := by
  funext s
  rw [Emit.call, onDraft]
  simp only [Draft.call, if_pos void]
  rfl

/-- The result of a call goes to a temporary. -/
lemma call_of_ne_void {result : IrType} (proper : result ≠ .void) (callee : Symbol)
    (arguments : List Target.Operand) : Emit.call result callee arguments =
      Emit.define (.call result (.symbol callee) arguments) >>= fun v => Pure.pure (some v) := by
  funext s
  rw [Emit.call, onDraft]
  simp only [Draft.call, if_neg proper]
  rfl

/-- Code that appends lines to its block, with a number of calls, and does nothing else. The lines
leave the stack of frames alone. -/
def Straight (n : Nat) (e : Emit α) : Prop :=
  ∀ s, ∃ lines, (∀ l ∈ lines, l.isPlain = true) ∧ lines.countP Line.isCall = n ∧
    Line.Tidy [] lines ∧ Progress.Writes s lines (e.next s)

namespace Straight

/-- A value that is at hand takes no lines. -/
lemma pure (a : α) : Straight 0 (Pure.pure a : Emit α) := fun s =>
  ⟨[], List.forall_mem_nil _, rfl, trivial, .refl s⟩

/-- Straight code is put together with its calls. -/
lemma bind (he : Straight m e) (hf : ∀ a, Straight n (f a)) : Straight (m + n) (e >>= f) := by
  intro s
  obtain ⟨ls, plain, calls, tidy, writes⟩ := he s
  obtain ⟨ms, plain', calls', tidy', writes'⟩ := hf (e.result s) (e.next s)
  refine ⟨ls ++ ms, List.forall_mem_append.2 ⟨plain, plain'⟩, ?_, tidy.append tidy',
    writes.trans writes'⟩
  rw [List.countP_append, calls, calls']

/-- Code without calls may be put in front of straight code. -/
lemma zero_bind (he : Straight 0 e) (hf : ∀ a, Straight n (f a)) : Straight n (e >>= f) := by
  rw [← Nat.zero_add n]
  exact he.bind hf

/-- Code without calls may be put behind straight code. -/
lemma bind_zero (he : Straight n e) (hf : ∀ a, Straight 0 (f a)) : Straight n (e >>= f) :=
  he.bind hf

/-- A plain line is straight. -/
lemma line {l : DraftLine} (plain : l.isPlain = true) (calls : [l].countP Line.isCall = n)
    (tidy : l.IsTidy []) : Straight n (Emit.line l) := by
  intro s
  refine ⟨[l], List.forall_mem_singleton.2 plain, calls, ⟨tidy, trivial⟩, .line s ?_⟩
  cases l with
  | leave t => cases plain
  | _ => rfl

/-- A comment is straight. -/
lemma comment (text : String) : Straight 0 (Emit.line (.comment text)) := line rfl rfl trivial

/-- An instruction without result is straight if it stores nothing. -/
lemma run (i : Instr) (stores : i.isStore = false) : Straight i.calls (Emit.run i) := by
  cases i with
  | store => cases stores
  | _ => exact line rfl rfl trivial

/-- An assignment to a variable is straight if it stores nothing. -/
lemma assign (receiver : Var) (i : Instr) (stores : i.isStore = false) :
    Straight i.calls (Emit.assignVar receiver i) := by
  refine line (l := .define (.register (.var receiver)) i) rfl ?_ ⟨var_ne_callerFrame, stores⟩
  cases i with
  | _ => rfl

/-- A temporary is straight if its instruction stores nothing. -/
lemma define (i : Instr) (stores : i.isStore = false) :
    Straight i.calls (Emit.define i) := by
  intro s
  refine ⟨[.define (.register (.temporary s.draft.nextTemporary)) i],
    List.forall_mem_singleton.2 rfl,
    ?_, ⟨⟨temporary_ne_callerFrame, stores⟩, trivial⟩, .define s i⟩
  cases i with
  | _ => rfl

/-- A literal is straight, as it adds no line. -/
lemma literal (text : String) : Straight 0 (Emit.literal text) := fun _ =>
  ⟨[], List.forall_mem_nil _, rfl, trivial, .of_blocks rfl rfl rfl ⟨rfl, rfl, rfl, rfl, rfl, rfl⟩⟩

/-- A call is straight, with one call. -/
lemma call (result : IrType) (callee : Symbol) (arguments : List Target.Operand) :
    Straight 1 (Emit.call result callee arguments) := by
  by_cases void : result = .void
  · rw [call_of_void void]
    exact (run (.call ..) rfl).bind fun _ => pure _
  · rw [call_of_ne_void void]
    exact (define (.call ..) rfl).bind fun _ => pure _

/-- A fold is straight if its steps are. -/
lemma foldlM {γ : Type} {g : γ → β → Emit γ} (step : ∀ c b, Straight 0 (g c b)) (bs : List β)
    (c : γ) : Straight 0 (bs.foldlM g c) := by
  induction bs generalizing c with
  | nil => exact pure c
  | cons b bs ih =>
    rw [List.foldlM_cons]
    exact (step c b).zero_bind ih

end Straight

end Emit

end Lowering

end ObjectBackend
