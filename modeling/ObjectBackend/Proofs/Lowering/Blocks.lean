import ObjectBackend.Proofs.Lowering.Terminators

/-!
# The code of blocks

What is emitted for a block of a body (`BlockCode`): its phis, a region for its instructions, a
terminator, and the landing pad if exceptions come from it. Emitting a block adds just that
(`block_spec`).
-/

namespace ObjectBackend.Lowering

open Target Emit Listing

variable {c : Context} {id : BlockId} {b : BasicBlock}

namespace Progress

/-- A block may have been put behind the current one, and it has been left. -/
structure AddsPart (s : Progress) (after : List DraftBlock) (x : Listing) (s' : Progress) :
    Prop where
  moves : ∀ {before current}, s.draft.Cursor before current after →
    (∀ l ∈ labels x, l ∉ s.draft.labels) →
    s'.draft.Cursor (before ++ closed current x) (last current x) after
  sites : s'.pools.sites = s.pools.sites
  exits : s'.exits = s.exits
  lastBlocks : s'.draft.lastBlocks = s.draft.lastBlocks
  parameters : s'.draft.parameters = s.draft.parameters
  splits : s'.draft.nextSplit = s.draft.nextSplit

namespace AddsPart

variable {s s₁ s₂ : Progress} {after : List DraftBlock} {l : Label} {lines : List DraftLine}

/-- No block need be put behind. -/
lemma none (s : Progress) (after : List DraftBlock) : s.AddsPart after [] s where
  moves := fun start _ => by
    rw [closed, last, List.append_nil]
    exact start
  sites := rfl
  exits := rfl
  lastBlocks := rfl
  parameters := rfl
  splits := rfl

/-- Code goes on in a new block, which gets some lines and a terminator. -/
lemma of_writes
    (added : ∀ {before current}, s.draft.Cursor before current after → l ∉ s.draft.labels →
      s₁.draft.Cursor before current (⟨l, []⟩ :: after))
    (quiet : s.Quiet s₁) (splits : s₁.draft.nextSplit = s.draft.nextSplit)
    (writes : ((Emit.continueAt l).next s₁).Writes lines s₂) (t : Term Label) :
    s.AddsPart after (.start l :: ofLines (lines ++ [.leave t])) ((Emit.leave t).next s₂) where
  moves := fun {before current} start new => by
    have here : ((Emit.continueAt l).next s₁).At (before ++ [current]) ⟨l, []⟩ after :=
      ⟨(added start (new l (List.mem_cons_self ..))).goTo, List.forall_mem_nil _⟩
    have written := writes.moves here
    have left := written.cursor.terminate written.isOpen.isTerminated t
    rw [closed, last, closed_ofLines, last_ofLines, ← List.append_assoc]
    exact left
  sites := writes.quiet.sites.trans quiet.sites
  exits := writes.quiet.exits.trans ((Quiet.continueAt s₁ l).exits.trans quiet.exits)
  lastBlocks :=
    writes.quiet.lastBlocks.trans ((Quiet.continueAt s₁ l).lastBlocks.trans quiet.lastBlocks)
  parameters :=
    writes.quiet.parameters.trans ((Quiet.continueAt s₁ l).parameters.trans quiet.parameters)
  splits := writes.splits.trans ((nextSplit_continueAt s₁ l).trans splits)

end AddsPart

end Progress

/-- The lines of the landing pad of a block, entered from some call sites. -/
def padLines (id : BlockId) (b : BasicBlock) (landings : List (Nat × Label)) (temporary : Nat) :
    List DraftLine :=
  [.phi (.register (.landingSite id)) .i32
      (landings.map fun (site, source) => (.int site, .label source)),
    .define (.register (.temporary temporary)) (.load .ptr (.ofRuntime .pendingException)),
    .define (.register (.temporary (temporary + 1)))
      (.call .i32 (.ofRuntime .selectHandler)
        [.ptr (.register (.temporary temporary)), ⟨.i32, .register (.landingSite id)⟩]),
    .leave (.switch .i32 (.register (.temporary (temporary + 1))) .unwind
      (b.tryCatches.zipIdx.map fun (handler, i) => (Int.ofNat i, .block handler.handler)))]

/-- The landing pad of a block, if there are call sites that lead to it. -/
def padCode (id : BlockId) (b : BasicBlock) (landings : List (Nat × Label)) (temporary : Nat) :
    Listing :=
  if landings.isEmpty then []
  else .start (.landing id) :: ofLines (padLines id b landings temporary)

/-- The code of a landing pad has its label, if it is there. -/
lemma labels_padCode (id : BlockId) (b : BasicBlock) (landings : List (Nat × Label))
    (temporary : Nat) :
    labels (padCode id b landings temporary) =
      if landings.isEmpty then [] else [.landing id] := by
  rw [padCode]
  split <;> rfl

/-- The landing pad is put behind the block, if there is one. What it does not handle leaves the
function. -/
lemma landingPad_spec (id : BlockId) (b : BasicBlock) (s : Progress) (after : List DraftBlock) :
    let s' := (landingPad id b).next s
    s.AddsPart after (padCode id b s.landings s.draft.nextTemporary) s' ∧ s'.landings = [] ∧
      s'.unwinds = (s.unwinds || !s.landings.isEmpty) := by
  intro s'
  let s₁ := (Emit.insertBlock (.landing id)).next s
  let s₂ := (Emit.continueAt (.landing id)).next s₁
  let temporary := s₂.draft.nextTemporary
  have same : temporary = s.draft.nextTemporary := Progress.nextTemporary_continueAt s₁ _
  rw [← same]
  let phi : DraftLine := .phi (.register (.landingSite id)) .i32
    (s.landings.map fun (site, source) => (.int site, .label source))
  let load : Instr := .load .ptr (.ofRuntime .pendingException)
  let call : Instr := .call .i32 (.ofRuntime .selectHandler)
    [.ptr (.register (.temporary temporary)), ⟨.i32, .register (.landingSite id)⟩]
  let switch : Term Label := .switch .i32 (.register (.temporary (temporary + 1))) .unwind
    (b.tryCatches.zipIdx.map fun (handler, i) => (Int.ofNat i, .block handler.handler))
  let s₃ := (Emit.line phi).next s₂
  let s₄ := (Emit.define load).next s₃
  let s₅ := (Emit.define call).next s₄
  have steps : s' = if s.landings.isEmpty then s else
      (Emit.leave switch).next { s₅ with landings := [], unwinds := true } := by
    change Emit.next (if _ then _ else _) s = _
    split <;> rfl
  rw [steps, padCode]
  by_cases none : s.landings.isEmpty = true
  · rw [if_pos none, if_pos none, none]
    exact ⟨.none s after, List.isEmpty_iff.1 none, (Bool.or_false _).symm⟩
  · rw [if_neg none, if_neg none, Bool.eq_false_iff.2 none]
    have quiet : s.Quiet s₁ := ⟨rfl, rfl, rfl, rfl, rfl, rfl⟩
    have writes : s₂.Writes _ s₅ :=
      (Progress.Writes.line s₂ (l := phi) rfl).trans
        ((Progress.Writes.define s₃ load).trans (.define s₄ call))
    have part : s.AddsPart after _ ((Emit.leave switch).next s₅) :=
      .of_writes (fun start new => start.insertBlock new rfl) quiet rfl writes switch
    -- the record of the call sites is not a matter of the code
    exact ⟨⟨part.moves, part.sites, part.exits, part.lastBlocks, part.parameters, part.splits⟩, rfl,
      (Bool.or_true _).symm⟩

/-- The code of the instructions of a block. -/
def instructionCodes (c : Context) (id : BlockId) (b : BasicBlock) :
    Except BackendError (List (Emit Unit)) :=
  b.instructions.zipIdx.mapM fun (i, position) => do
    let code ← instruction c id b i position
    return do
      comment c i
      code

/-- The code of a block behind its phis, up to its terminator. -/
structure Emission (c : Context) (id : BlockId) (b : BasicBlock) where
  received : Emit Unit
  instructions : List (Emit Unit)
  leaving : Emit Unit
  receives : receiveException c id b = .ok received
  executes : instructionCodes c id b = .ok instructions
  leaves : terminator c id b = .ok leaving

namespace Emission

variable (e : Emission c id b)

/-- The code before the terminator. -/
def inner : Emit Unit := e.received >>= fun _ => e.instructions.forM fun code => code

/-- All of the code. -/
def code : Emit Unit := e.inner >>= fun _ => e.leaving

/-- Where the code has been emitted, there is a listing now. -/
def Emitted (e : Emission c id b) (phis : List DraftLine) (x : Listing) : Prop :=
  ∃ s before after, Progress.At s before ⟨.block id, phis⟩ after ∧
    (e.code.next s).draft.Cursor (before ++ closed ⟨.block id, phis⟩ x)
      (last ⟨.block id, phis⟩ x) after

end Emission

/-- The code of a block of the body. -/
structure BlockCode (c : Context) where
  id : BlockId
  block : BasicBlock
  phis : List DraftLine
  inner : Listing
  /-- The label that the terminator is under. -/
  ending : Label
  /-- The numbers of the parts that the block is split into start here. -/
  first : Nat
  /-- They end before here. -/
  last : Nat
  /-- The call sites of the instructions. -/
  marks : List Mark
  term : Term Label
  /-- The call site of the terminator, if it throws an exception. -/
  raised : List Mark
  exits : List (Option Value × Label)
  temporary : Nat
  found : c.body.block? id = some block
  arePhis : List.Forall₂ (IsPhi c id) block.phis phis
  region : Region (.block id) first inner ending last
    (marks.map fun m => (m.source, (Place.ofBlock id block).target))
  tidy : Listing.Tidy [] inner
  /-- A method with a frame returns through the shared exit. -/
  returns : ∀ o, term = .ret o → c.frameSize? = none
  emission : Emission c id block
  emitted : emission.Emitted phis (inner ++ [.line (.leave term)])
  targets : term.targets = block.terminator.targets.map .block ++ exits.map (fun _ => .exit) ++
    raised.map fun _ => (Place.ofBlock id block).target
  sources : (∀ e ∈ exits, e.2 = ending) ∧ ∀ m ∈ raised, m.source = ending
  lines : List.Forall₂ (fun point m => SiteLines c m.number m.lines point)
    (c.blockPoints id block) (marks ++ raised)
  within : ∀ m ∈ marks ++ raised, ofLines m.lines <:+: inner

namespace BlockCode

/-- Where the block stands. -/
def place (k : BlockCode c) : Place := .ofBlock k.id k.block

/-- The call sites of the block. -/
def sites (k : BlockCode c) : List Mark := k.marks ++ k.raised

/-- The code of the block up to its terminator. -/
def content (k : BlockCode c) : Listing := ofLines k.phis ++ k.inner ++ [.line (.leave k.term)]

/-- The landing pad of the block. -/
def pad (k : BlockCode c) : Listing :=
  padCode k.id k.block (k.place.landings k.sites) k.temporary

/-- All code of the block. -/
def listing (k : BlockCode c) : Listing := .start (.block k.id) :: (k.content ++ k.pad)

/-- Exceptions leave the function or are handed to the landing pad, which hands them on. -/
lemma unwinds_or_landings (k : BlockCode c) :
    (k.place.unwinds k.sites || !(k.place.landings k.sites).isEmpty) = !k.sites.isEmpty := by
  rw [Place.unwinds, Place.landings]
  cases k.place.landing? with
  | none => simp
  | some l => simp

/-- The content of a block starts just the blocks that its code does. -/
lemma labels_content (k : BlockCode c) : labels k.content = labels k.inner := by
  rw [content, labels_append, labels_append, labels_ofLines]
  exact List.append_nil _

end BlockCode

namespace Progress

/-- A block of the body has been added, without its landing pad. -/
structure AddsContent (s : Progress) (k : BlockCode c) (s' : Progress) : Prop where
  moves : ∀ {before current after},
    s.draft.Cursor before current (⟨.block k.id, []⟩ :: after) →
    s'.draft.Cursor (before ++ [current] ++ closed ⟨.block k.id, []⟩ k.content)
      (last ⟨.block k.id, []⟩ k.content) after
  splits : s.draft.nextSplit = k.first ∧ s'.draft.nextSplit = k.last
  ending : s'.draft.currentLabel = k.ending
  temporary : s'.draft.nextTemporary = k.temporary
  records : Records c k.place (c.blockPoints k.id k.block) s k.inner k.sites s'
  exits : s'.exits = s.exits ++ k.exits
  lastBlocks : s'.draft.lastBlocks = s.draft.lastBlocks
  parameters : s'.draft.parameters = s.draft.parameters

/-- A block of the body has been added. -/
structure AddsBlock (s : Progress) (k : BlockCode c) (s' : Progress) : Prop where
  moves : ∀ {before current after},
    s.draft.Cursor before current (⟨.block k.id, []⟩ :: after) → .landing k.id ∉ s.draft.labels →
    s'.draft.Cursor (before ++ closed current k.listing) (last current k.listing) after
  splits : s.draft.nextSplit = k.first ∧ s'.draft.nextSplit = k.last
  numbers : k.sites.map (·.number) =
    List.range' s.pools.sites.sites.length (c.blockPoints k.id k.block).length
  sites : s'.pools.sites.sites =
    s.pools.sites.sites ++ (c.blockPoints k.id k.block).map c.callSite
  exits : s'.exits = s.exits ++ k.exits
  unwinds : s'.unwinds = (s.unwinds || !k.sites.isEmpty)
  landings : s'.landings = []
  lastBlocks : s'.draft.lastBlocks = (k.id, k.ending) :: s.draft.lastBlocks
  parameters : s'.draft.parameters = s.draft.parameters

/-- A block is split into parts only, so the label of its landing pad stays free. -/
lemma AddsContent.landing_not_mem {s s' : Progress} {k : BlockCode c} (h : s.AddsContent k s')
    {before after : List DraftBlock} {current : DraftBlock}
    (start : s.draft.Cursor before current (⟨.block k.id, []⟩ :: after))
    (new : .landing k.id ∉ s.draft.labels) : .landing k.id ∉ s'.draft.labels := by
  intro mem
  rw [(h.moves start).labels_eq_of_listing, k.labels_content] at mem
  rw [start.labels_eq] at new
  simp only [List.map_append, List.map_cons, List.map_nil, List.mem_append, List.mem_cons,
    List.not_mem_nil, or_false, reduceCtorEq, false_or] at mem new
  rcases mem with ((mem | mem) | mem) | mem
  · exact new (.inl mem)
  · exact new (.inr (.inl mem))
  · cases k.region.isSplit_of_mem_labels mem
  · exact new (.inr (.inr mem))

end Progress

/-- Receiving the exception adds a region without call sites. -/
lemma receiveException_emits (p : Place) :
    Except.Ensures (Emits c p []) (receiveException c id b) := by
  dsimp only [receiveException]
  split
  · exact .pure (Straight.pure ()).emits
  · refine .bind fun _ _ => .pure ((Straight.call _ _ _).bind_zero fun exception => ?_).emits
    split
    · exact copyTo_straight _ _ _
    · exact .pure ()

/-- A comment appends its line and no call. -/
lemma comment_straight (i : Instruction) : Straight 0 (comment c i) := by
  rw [comment]
  split
  · exact .comment _
  · exact .pure ()

/-- The instructions of a block, in sequence. -/
lemma instructions_emits (found : c.body.block? id = some b) :
    Except.Ensures
      (fun codes => Emits c (.ofBlock id b)
        (b.instructions.zipIdx.flatMap fun (i, position) => c.instructionPoints id i position)
        (codes.forM fun code => code))
      (instructionCodes c id b) := by
  intro codes given
  have each : ∀ entry ∈ b.instructions.zipIdx,
      Except.Ensures (Emits c (.ofBlock id b) (c.instructionPoints id entry.1 entry.2))
        (do let code ← instruction c id b entry.1 entry.2
            return do
              comment c entry.1
              code) := fun entry _ => .bind fun code emits => .pure
    ((comment_straight entry.1).emits.nil_bind fun _ => instruction_emits found code emits)
  have all := Except.Ensures.mapM each codes given
  rw [List.flatMap_def]
  exact .forM (List.forall₂_map_right_iff.2 all.flip)

/-- The code of a block up to its terminator. -/
lemma content_spec (found : c.body.block? id = some b) {phis : List (Emit Unit)}
    (phiCodes : List.Forall₂ (fun p code => ∃ l, IsPhi c id p l ∧ code = Emit.line l) b.phis phis)
    (e : Emission c id b) {s : Progress} {before after : List DraftBlock}
    {current : DraftBlock} (start : s.draft.Cursor before current (⟨.block id, []⟩ :: after)) :
    ∃ k : BlockCode c, k.id = id ∧ k.block = b ∧
      s.AddsContent k (e.code.next
        ((phis.forM fun code => code).next ((Emit.continueAt (.block id)).next s))) := by
  have code : Emits c (.ofBlock id b)
      (b.instructions.zipIdx.flatMap fun (i, position) => c.instructionPoints id i position)
      e.inner :=
    (receiveException_emits (.ofBlock id b) e.received e.receives).nil_bind fun _ =>
      instructions_emits found e.instructions e.executes
  have leaves := terminator_leaves found e.leaving e.leaves
  let s₁ := (Emit.continueAt (.block id)).next s
  have quiet₁ : s.Quiet s₁ := .continueAt s _
  have enter : ∀ {before current after}, s.draft.Cursor before current (⟨.block id, []⟩ :: after) →
      s₁.At (before ++ [current]) ⟨.block id, []⟩ after :=
    fun start => ⟨start.goTo, List.forall_mem_nil _⟩
  -- the phis come first, then the instructions, then the terminator
  obtain ⟨phiLines, arePhis, writes⟩ := phis_write phiCodes s₁
  let s₂ := (phis.forM fun code => code).next s₁
  have start₂ := writes.moves (enter start)
  obtain ⟨x, marks, adds⟩ := code start₂
  let s₃ := e.inner.next s₂
  have start₃ := adds.code.moves start₂
  obtain ⟨lines, t, raised, exits, left⟩ := leaves start₃
  let s₄ := e.leaving.next s₃
  have label₂ : s₂.draft.currentLabel = .block id := start₂.currentLabel
  have label₄ : s₄.draft.currentLabel = s₃.draft.currentLabel :=
    (left.moves start₃).currentLabel.trans start₃.currentLabel.symm
  have splits₂ : s₂.draft.nextSplit = s.draft.nextSplit :=
    writes.splits.trans (Progress.nextSplit_continueAt s _)
  have quiet₂ : s.Quiet s₂ := quiet₁.trans writes.quiet
  -- the lines before the terminator count to the region, so a throw is within it
  have region := adds.code.region.append (.ofLines _ s₃.draft.nextSplit left.plain)
  rw [label₂, splits₂, List.append_nil] at region
  have records := (Progress.Records.of_quiet quiet₂ []).append (adds.records.append left.records)
  have emitted : e.Emitted phiLines (x ++ ofLines lines ++ [.line (.leave t)]) := by
    refine ⟨s₂, _, _, start₂, ?_⟩
    have eq : x ++ ofLines lines ++ [.line (.leave t)] = x ++ ofLines (lines ++ [.leave t]) := by
      rw [List.append_assoc, ofLines, ofLines, List.map_append]
      rfl
    rw [eq, closed_append, last_append, closed_ofLines, last_ofLines, List.append_nil]
    have cursor := left.moves start₃
    rw [List.append_assoc _ lines] at cursor
    exact cursor
  let k : BlockCode c :=
    { id, block := b, phis := phiLines, inner := x ++ ofLines lines
      ending := s₃.draft.currentLabel
      first := s.draft.nextSplit
      last := s₃.draft.nextSplit
      marks, term := t, raised, exits
      temporary := s₄.draft.nextTemporary
      found, arePhis, region
      tidy := adds.code.tidy.append (.ofLines left.tidy)
      returns := left.returns
      emission := e
      emitted
      targets := left.targets
      sources := left.sources
      lines := records.lines
      within := records.within }
  refine ⟨k, rfl, rfl, ?moves, ⟨rfl, left.splits⟩, label₄, rfl, records, ?exits, ?last,
    ?parameters⟩
  case moves =>
    intro before current after start
    have cursor := left.moves (adds.code.moves (writes.moves (enter start)))
    have content : k.content = ofLines phiLines ++ x ++ ofLines (lines ++ [.leave t]) := by
      rw [ofLines, ofLines, List.map_append, ← List.append_assoc, List.append_assoc _ x]
      rfl
    rw [content, closed_between, last_between, ← List.append_assoc]
    exact cursor
  case exits =>
    refine left.exits.trans ?_
    rw [adds.code.exits, quiet₂.exits]
  case last => exact left.lastBlocks.trans (adds.code.lastBlocks.trans quiet₂.lastBlocks)
  case parameters => exact left.parameters.trans (adds.code.parameters.trans quiet₂.parameters)

/-- Code that adds a block where it comes next. -/
def Emit.AddsBlock (c : Context) (id : BlockId) (b : BasicBlock) (e : Emit Unit) : Prop :=
  ∀ ⦃s : Progress⦄ ⦃before current after⦄,
    s.draft.Cursor before current (⟨.block id, []⟩ :: after) → .landing id ∉ s.draft.labels →
    s.landings = [] → ∃ k : BlockCode c, k.id = id ∧ k.block = b ∧ s.AddsBlock k (e.next s)

/-- The code of a block adds the block. -/
lemma block_spec (found : c.body.block? id = some b) :
    Except.Ensures (Emit.AddsBlock c id b) (block c id b) := by
  refine .bind fun phis phisGiven => .bind fun received receives =>
    .bind fun instructions executes => .bind fun leaving leaves => .pure ?_
  intro s before current after start new empty
  have phiCodes := Except.Ensures.mapM (fun p _ => phi_spec p) phis phisGiven
  let e : Emission c id b := ⟨received, instructions, leaving, receives, executes, leaves⟩
  obtain ⟨k, rfl, rfl, content⟩ := content_spec found phiCodes e start
  let s₁ := e.code.next
    ((phis.forM fun code => code).next ((Emit.continueAt (.block k.id)).next s))
  let s₂ : Progress := { s₁ with draft := s₁.draft.finishBlock k.id }
  have handed : s₁.landings = k.place.landings k.sites := by
    rw [content.records.landings, empty, List.nil_append]
  -- the pad is built from the landings that the content has handed on
  have padded : ∀ after, s₂.AddsPart after k.pad ((landingPad k.id k.block).next s₂) := by
    intro after
    obtain ⟨part, _⟩ := landingPad_spec k.id k.block s₂ after
    change s₂.AddsPart after (padCode k.id k.block s₁.landings s₁.draft.nextTemporary) _ at part
    rw [handed, content.temporary] at part
    exact part
  obtain ⟨part, landings, unwinds⟩ := landingPad_spec k.id k.block s₂ after
  have sites := (congrArg CallSites.sites part.sites).trans content.records.sites
  refine ⟨k, rfl, rfl, ?moves, ⟨content.splits.1, part.splits.trans content.splits.2⟩,
    content.records.numbers, sites, part.exits.trans content.exits, ?unwinds, landings,
    ?lastBlocks, part.parameters.trans content.parameters⟩
  case moves =>
    intro before current after start new
    have cursor := content.moves start
    have finished : s₂.draft.Cursor _ _ _ :=
      cursor.of_labels cursor.blocks cursor.position rfl (Nat.le_refl _)
    have free : ∀ l ∈ labels k.pad, l ∉ s₂.draft.labels := by
      intro l mem
      rw [BlockCode.pad, labels_padCode] at mem
      split at mem
      · cases mem
      · rw [List.mem_singleton.1 mem]
        exact content.landing_not_mem start new
    have moved := (padded after).moves finished free
    rw [List.append_assoc, List.append_assoc, ← closed_append, ← last_append] at moved
    exact moved
  case unwinds =>
    have eq : s₂.unwinds = _ := content.records.unwinds
    refine unwinds.trans ?_
    rw [eq]
    change (_ || !s₁.landings.isEmpty) = _
    rw [handed, Bool.or_assoc, k.unwinds_or_landings]
  case lastBlocks =>
    refine part.lastBlocks.trans ?_
    change (k.id, s₁.draft.currentLabel) :: s₁.draft.lastBlocks = _
    rw [content.ending, content.lastBlocks]

end ObjectBackend.Lowering
