import ObjectBackend.Proofs.Lowering.BlockGraph
import ObjectBackend.Proofs.Source.Validity

/-!
# The code of bodies

What is emitted for a whole body (`BodyCode`): the code before the first block, the blocks in their
order, the shared exit and the block in which exceptions leave. The function of a method consists of
just that code, and all call sites that it registers are in it (`function_spec`).
-/

namespace ObjectBackend.Lowering

open Target Emit Listing

variable {c : Context}

section Start

/-- The lines that make a frame with a number of cells and put it on the stack. -/
def frameLines {σ : Type} (size temporary : Nat) : List (Line Label σ) :=
  [.define (.register .frame) (.alloca (frameType size)),
    .define (.register (.temporary temporary))
      (.fieldOf (frameType size) (.register .frame) [0, 0, 0]),
    .run (.store (.i32 size) (.register (.temporary temporary))),
    .define (.register .callerFrame) (.load .ptr (.ofRuntime .stackTop)),
    .define (.register (.temporary (temporary + 1)))
      (.fieldOf (frameType size) (.register .frame) [0, 0, 2]),
    .run (.store (.ptr (.register .callerFrame)) (.register (.temporary (temporary + 1)))),
    .run (.store (.ptr (.register .frame)) (.ofRuntime .stackTop))]

/-- The lines that make the frame, if there is one. -/
def frameCode {σ : Type} (size? : Option Nat) (temporary : Nat) : List (Line Label σ) :=
  size?.elim [] (frameLines · temporary)

/-- The code that makes a frame neither leaves its block nor depends on how that is entered. -/
lemma isPlain_frameCode (size? : Option Nat) (temporary : Nat) :
    ∀ l ∈ (frameCode size? temporary : List DraftLine), l.isPlain = true := by
  cases size? with
  | none => exact List.forall_mem_nil _
  | some size => simp [frameCode, frameLines, Line.isPlain]

/-- Making a frame writes its lines. -/
lemma pushFrame_writes (s : Progress) (size : Nat) :
    s.Writes (frameLines size s.draft.nextTemporary) ((pushFrame size).next s) := by
  let s₁ := (Emit.assign .frame (.alloca (frameType size))).next s
  have frame : s.Writes _ s₁ := .line s rfl
  let s₂ := (headerField size 0).next s₁
  have count : s₁.Writes _ s₂ := .define s₁ _
  let s₃ := (Emit.run (.store (.i32 size) (.register (.temporary s.draft.nextTemporary)))).next s₂
  have counted : s₂.Writes _ s₃ := .line s₂ rfl
  let s₄ := (Emit.assign .callerFrame (.load .ptr (.ofRuntime .stackTop))).next s₃
  have caller : s₃.Writes _ s₄ := .line s₃ rfl
  let s₅ := (headerField size 2).next s₄
  have link : s₄.Writes _ s₅ := .define s₄ _
  let s₆ := (Emit.run (.store (.ptr (.register .callerFrame))
    (.register (.temporary (s.draft.nextTemporary + 1))))).next s₅
  have linked : s₅.Writes _ s₆ := .line s₅ rfl
  let s₇ := (Emit.run (.store (.ptr (.register .frame)) (.ofRuntime .stackTop))).next s₆
  have top : s₆.Writes _ s₇ := .line s₆ rfl
  have last : (pushFrame size).next s = s₇ := by
    rw [pushFrame]
    simp only [Emit.next_bind]
    rfl
  rw [last]
  exact frame.trans (count.trans (counted.trans (caller.trans (link.trans (linked.trans top)))))

/-- Making a frame writes the lines for it, if there is one. -/
lemma makeFrame_writes (s : Progress) (size? : Option Nat) :
    s.Writes (frameCode size? s.draft.nextTemporary) ((size?.forM pushFrame).next s) := by
  cases size? with
  | none => exact .refl s
  | some size => exact pushFrame_writes s size

/-- Calling an initializer appends one call. -/
lemma callInitializer_straight (className : String) : Straight 1 (callInitializer className) :=
  (Straight.call _ _ _).bind_zero fun _ => .pure _

/-- Initialize the class that the method belongs to, if the method has to. -/
def initializeOwner (c : Context) : Emit Unit :=
  if c.initializesOwner then site c .start [] c.referenceParameters (callInitializer c.owner.name)
  else pure ()

/-- The start of a method makes the frame, initializes the class if need be and goes to the first
block. -/
lemma start_eq (c : Context) : Lowering.start c = (do
    c.frameSize?.forM pushFrame
    initializeOwner c
    Emit.leave (.br (.block .entry))) := by
  rw [Lowering.start, initializeOwner]
  cases c.initializesOwner with
  | true => rfl
  | false => rfl

/-- The class of a method is initialized behind the frame, if it is at all. -/
lemma initializeOwner_spec {s : Progress} {lines : List DraftLine}
    (start : s.At [] ⟨.entry, lines⟩ []) (first : s.draft.nextSplit = 0) :
    ∃ x marks, Progress.Adds c .start c.startPoints s x marks ((initializeOwner c).next s) ∧
      ((initializeOwner c).next s).draft.currentLabel = startEnd c ∧
      (c.initializesOwner = false → x = []) := by
  rw [initializeOwner, Context.startPoints, startEnd]
  by_cases initializes : c.initializesOwner = true
  · rw [if_pos initializes, if_pos initializes, if_pos initializes]
    have other : ∀ id, SitePoint.start ≠ .raise id := by rintro _ ⟨⟩
    obtain ⟨x, marks, adds, label⟩ := site_spec (c := c) (p := .start)
      (callInitializer_straight c.owner.name) other rfl start
    rw [first] at label
    exact ⟨x, marks, adds, label, fun none => absurd initializes (Bool.eq_false_iff.1 none)⟩
  · rw [if_neg initializes, if_neg initializes, if_neg initializes]
    exact ⟨[], [], ⟨.of_writes (.refl s) (List.forall_mem_nil _) trivial start,
      .of_quiet (.refl s) _⟩, start.currentLabel, fun _ => rfl⟩

/-- Emission before anything is emitted. -/
def Progress.initial (c : Context) (parameters : List Target.Operand) (pools : Pools) : Progress :=
  { draft := .start (.method c.reference) c.result parameters
    pools
    landings := []
    exits := []
    unwinds := false }

/-- The code before the first block has been emitted. -/
structure Progress.Starts (c : Context) (ps : List Target.Operand) (pools : Pools) (x : Listing)
    (marks : List Mark) (s : Progress) : Prop where
  cursor : s.draft.Cursor (closed ⟨.entry, []⟩ (x ++ [.line (.leave (.br (.block .entry)))]))
    (last ⟨.entry, []⟩ (x ++ [.line (.leave (.br (.block .entry)))])) []
  region : Region .entry 0 x (startEnd c) s.draft.nextSplit
    (marks.map fun m => (m.source, .unwind))
  lines : List.Forall₂ (fun point m => SiteLines c m.number m.lines point) c.startPoints marks
  within : ∀ m ∈ marks, ofLines m.lines <:+: x
  /-- The frame is made first. -/
  frame : ∃ y, x = ofLines (frameCode c.frameSize? 0) ++ y ∧ Listing.Tidy [] y ∧
    (c.initializesOwner = false → y = [])
  numbers : marks.map (·.number) =
    List.range' pools.sites.sites.length c.startPoints.length
  sites : s.pools.sites.sites = pools.sites.sites ++ c.startPoints.map c.callSite
  landings : s.landings = []
  unwinds : s.unwinds = !marks.isEmpty
  exits : s.exits = []
  lastBlocks : s.draft.lastBlocks = []
  parameters : s.draft.parameters = ps

/-- Nothing but the entry and its parts starts before the first block. -/
lemma Progress.Starts.mem_labels {ps : List Target.Operand} {pools : Pools} {x : Listing}
    {marks : List Mark} {s : Progress} (h : s.Starts c ps pools x marks) {l : Label}
    (mem : l ∈ s.draft.labels) :
    l = .entry ∨ l.isSplit = true := by
  rw [Draft.Cursor.labels_eq_of_start h.cursor, labels_append] at mem
  simp only [labels, List.append_nil, List.map_nil, List.mem_cons] at mem
  exact mem.imp_right h.region.isSplit_of_mem_labels

/-- The code before the first block ends in the label that phis know it by. -/
lemma start_spec (c : Context) (ps : List Target.Operand) (pools : Pools) :
    ∃ x marks, ((Lowering.start c).next (.initial c ps pools)).Starts c ps pools x marks := by
  let s : Progress := .initial c ps pools
  have start : s.At [] ⟨.entry, []⟩ [] := ⟨.start _ _ _, List.forall_mem_nil _⟩
  let s₁ := (c.frameSize?.forM pushFrame).next s
  let s₂ := (initializeOwner c).next s₁
  have steps : (Lowering.start c).next s = (Emit.leave (.br (.block .entry))).next s₂ := by
    rw [start_eq]
    rfl
  -- the frame, and then perhaps a call site that splits the entry
  have writes := makeFrame_writes s c.frameSize?
  have start₁ := writes.moves start
  obtain ⟨x, marks, called, label, none⟩ := initializeOwner_spec (c := c) start₁ writes.splits
  have region := called.code.region
  rw [start₁.currentLabel, writes.splits, label] at region
  have records : Progress.Records c .start c.startPoints s (ofLines (frameCode c.frameSize? 0) ++ x)
      marks s₂ := (Progress.Records.of_quiet writes.quiet _).append called.records
  have start₂ := called.code.moves start₁
  refine ⟨ofLines (frameCode c.frameSize? 0) ++ x, marks, ?_⟩
  rw [steps]
  exact
    { cursor := by
        rw [List.append_assoc, closed_append, closed_ofLines, last_append, last_ofLines,
          closed_append, last_append]
        simp only [closed, last, List.append_nil]
        exact start₂.cursor.terminate start₂.isOpen.isTerminated _
      region := (Region.ofLines _ _ (isPlain_frameCode _ _)).append region
      lines := records.lines
      within := records.within
      frame := ⟨x, rfl, called.code.tidy, none⟩
      numbers := records.numbers
      sites := records.sites
      landings := records.landings
      unwinds := records.unwinds
      exits := called.code.exits.trans writes.quiet.exits
      lastBlocks := called.code.lastBlocks.trans writes.quiet.lastBlocks
      parameters := called.code.parameters.trans writes.quiet.parameters }

end Start

section Blocks

/-- The blocks of the body are put at the end, still empty. -/
lemma appendBlocks_spec {entries : List (BlockId × BasicBlock)} (ids : (entries.map (·.1)).Nodup)
    {s : Progress} {before after : List DraftBlock} {current : DraftBlock}
    (start : s.draft.Cursor before current after)
    (new : ∀ e ∈ entries, .block e.1 ∉ s.draft.labels) :
    let s' := (entries.forM fun (id, _) => Emit.appendBlock (.block id)).next s
    s'.draft.Cursor before current (after ++ entries.map fun e => ⟨.block e.1, []⟩) ∧
      s.Quiet s' ∧ s'.pools = s.pools ∧ s'.draft.nextSplit = s.draft.nextSplit := by
  induction entries generalizing s after with
  | nil =>
    rw [List.map_nil, List.append_nil]
    exact ⟨start, .refl s, rfl, rfl⟩
  | cons e entries ih =>
    obtain ⟨once, ids⟩ := List.nodup_cons.1 ids
    obtain ⟨first, others⟩ := List.forall_mem_cons.1 new
    let s₁ := (Emit.appendBlock (.block e.1)).next s
    have start₁ : s₁.draft.Cursor before current (after ++ [⟨.block e.1, []⟩]) :=
      start.appendBlock first rfl
    have new₁ : ∀ e' ∈ entries, .block e'.1 ∉ s₁.draft.labels := by
      intro e' mem mem'
      have labels : s₁.draft.labels = s.draft.labels ++ [.block e.1] := List.map_append
      rw [labels, List.mem_append, List.mem_singleton] at mem'
      rcases mem' with old | eq
      · exact others e' mem old
      · exact once (List.mem_map.2 ⟨e', mem, Label.block.inj eq⟩)
    obtain ⟨cursor, quiet, pools, splits⟩ := ih ids start₁ new₁
    rw [List.append_assoc] at cursor
    have appended : s.Quiet s₁ := ⟨rfl, rfl, rfl, rfl, rfl, rfl⟩
    exact ⟨cursor, appended.trans quiet, pools, splits⟩

/-- The blocks of the body have been added, one after the other. -/
structure Progress.AddsBlocks (s : Progress) (before : List DraftBlock) (current : DraftBlock)
    (ks : List (BlockCode c)) (s' : Progress) : Prop where
  cursor : s'.draft.Cursor (before ++ closed current (ks.flatMap (·.listing)))
    (last current (ks.flatMap (·.listing))) []
  contained : ∀ ℓ, Contained ℓ s.draft.nextSplit (ks.flatMap (·.listing)) s'.draft.nextSplit
  numbers : (ks.flatMap (·.sites)).map (·.number) =
    List.range' s.pools.sites.sites.length (ks.flatMap fun k => c.blockPoints k.id k.block).length
  sites : s'.pools.sites.sites =
    s.pools.sites.sites ++ (ks.flatMap fun k => c.blockPoints k.id k.block).map c.callSite
  exits : s'.exits = s.exits ++ ks.flatMap (·.exits)
  unwinds : s'.unwinds = (s.unwinds || !(ks.flatMap (·.sites)).isEmpty)
  lastBlocks : s'.draft.lastBlocks =
    (ks.map fun k => (k.id, k.ending)).reverse ++ s.draft.lastBlocks
  parameters : s'.draft.parameters = s.draft.parameters

/-- The blocks of a body are added one after the other, each by its own code. -/
lemma blocks_spec {entries : List (BlockId × BasicBlock)} {codes : List (Emit Unit)}
    (each : List.Forall₂ (fun e code => Emit.AddsBlock c e.1 e.2 code) entries codes)
    (ids : (entries.map (·.1)).Nodup) {s : Progress} {before : List DraftBlock}
    {current : DraftBlock}
    (start : s.draft.Cursor before current (entries.map fun e => ⟨.block e.1, []⟩))
    (new : ∀ e ∈ entries, .landing e.1 ∉ s.draft.labels) (empty : s.landings = []) :
    ∃ ks : List (BlockCode c), ks.map (fun k => (k.id, k.block)) = entries ∧
      s.AddsBlocks before current ks ((codes.forM fun code => code).next s) := by
  induction each generalizing s before current with
  | nil =>
    refine ⟨[], rfl, ?_, ?_, rfl, ?_, ?_, ?_, rfl, rfl⟩
    · rw [List.flatMap_nil, closed, last, List.append_nil]
      exact start
    · exact fun ℓ => .of_not_split (by simp [labels]) (by simp [edges]) (by simp [joins])
    · rw [List.flatMap_nil, List.map_nil, List.append_nil]
      rfl
    · rw [List.flatMap_nil, List.append_nil]
      rfl
    · rw [List.flatMap_nil, List.isEmpty_nil, Bool.not_true, Bool.or_false]
      rfl
  | @cons e code entries codes first _ ih =>
    obtain ⟨once, ids⟩ := List.nodup_cons.1 ids
    obtain ⟨newFirst, newOthers⟩ := List.forall_mem_cons.1 new
    obtain ⟨k, id, block, adds⟩ := first start newFirst empty
    let s₁ := code.next s
    have eq : e = (k.id, k.block) := by rw [id, block]
    rw [← id] at newFirst
    have start' : s.draft.Cursor before current
        (⟨.block k.id, []⟩ :: entries.map fun e => ⟨.block e.1, []⟩) := by
      rw [id]
      exact start
    have start₁ := adds.moves start' newFirst
    -- the first block adds its own labels, its pad and splits, and so no pad of a later block
    have new₁ : ∀ e' ∈ entries, .landing e'.1 ∉ s₁.draft.labels := by
      intro e' mem mem'
      have old := newOthers e' mem
      rw [start'.labels_eq] at old
      rw [start₁.labels_eq_of_listing] at mem'
      simp only [List.mem_append, List.mem_cons] at mem' old
      rcases mem' with (mem' | eq | mem') | mem'
      · exact old (.inl mem')
      · exact old (.inr (.inl eq))
      · rcases k.mem_labels_listing mem' with eq | split | eq
        · cases eq
        · cases split
        · exact once (List.mem_map.2 ⟨e', mem, (Label.landing.inj eq).trans id⟩)
      · exact old (.inr (.inr (List.mem_cons_of_mem _ mem')))
    obtain ⟨ks, numbered, adds'⟩ := ih ids start₁ new₁ adds.landings
    refine ⟨k :: ks, by rw [List.map_cons, numbered, eq], ?_, ?_, ?_, ?_, ?_, ?_, ?_,
      adds'.parameters.trans adds.parameters⟩
    · have cursor := adds'.cursor
      rw [List.append_assoc, ← closed_append, ← last_append] at cursor
      exact cursor
    · intro ℓ
      have first := k.contained ℓ
      rw [← adds.splits.1, ← adds.splits.2] at first
      exact first.append (adds'.contained _)
    · rw [List.flatMap_cons, List.map_append, adds.numbers, adds'.numbers, adds.sites,
        List.length_append, List.length_map, List.range'_append_1, List.flatMap_cons,
        List.length_append]
    · refine adds'.sites.trans ?_
      rw [adds.sites, List.flatMap_cons, List.map_append, List.append_assoc]
    · refine adds'.exits.trans ?_
      rw [adds.exits, List.flatMap_cons, List.append_assoc]
    · refine adds'.unwinds.trans ?_
      rw [adds.unwinds, List.flatMap_cons, Bool.or_assoc]
      cases k.sites with
      | nil => rfl
      | cons m ms => rfl
    · refine adds'.lastBlocks.trans ?_
      rw [adds.lastBlocks, List.map_cons, List.reverse_cons, List.append_assoc]
      rfl

end Blocks

section Leaving

/-- The line that takes the frame off the stack, if there is one. -/
def popLines {σ : Type} (size? : Option Nat) : List (Line Label σ) :=
  if size?.isSome then [.run (.store (.ptr (.register .callerFrame)) (.ofRuntime .stackTop))]
  else []

/-- Taking the frame off the stack writes the lines for it, if there is one. -/
lemma popFrame_writes (size? : Option Nat) (s : Progress) :
    s.Writes (popLines size?) ((popFrame size?).next s) := by
  rw [popLines, popFrame]
  split
  · exact .line s rfl
  · exact .refl s

/-- The shared exit, through which some values are returned. -/
def exitCode (c : Context) (exits : List (Option Value × Label)) : Listing :=
  if exits.isEmpty then []
  else if c.result = .void then
    .start .exit :: ofLines (popLines c.frameSize? ++ [.leave (.ret none)])
  else
    .start .exit :: ofLines ([.phi (.register .result) c.result
        (exits.map fun (value, source) => (value.getD .undef, .label source))] ++
      popLines c.frameSize? ++ [.leave (.ret (some ⟨c.result, .register .result⟩))])

/-- Where exceptions leave the function. -/
def unwindCode (c : Context) (unwinds : Bool) : Listing :=
  if unwinds then
    .start .unwind :: ofLines (popLines c.frameSize? ++
      [.leave (.ret (if c.result = .void then none else some ⟨c.result, .zeroOf c.result⟩))])
  else []

/-- A block at the end gets some lines and a terminator. -/
lemma addsPart_appendBlock {s s' : Progress} {l : Label} {lines : List DraftLine}
    (other : l.isSplit = false)
    (writes : ((Emit.continueAt l).next ((Emit.appendBlock l).next s)).Writes lines s')
    (t : Term Label) :
    s.AddsPart [] (.start l :: ofLines (lines ++ [.leave t])) ((Emit.leave t).next s') := by
  have added : ∀ {before current}, s.draft.Cursor before current [] → l ∉ s.draft.labels →
      ((Emit.appendBlock l).next s).draft.Cursor before current [⟨l, []⟩] :=
    fun start new => start.appendBlock new other
  exact .of_writes added ⟨rfl, rfl, rfl, rfl, rfl, rfl⟩ rfl writes t

/-- The shared exit adds a part that joins the values to return. -/
lemma exitBlock_spec (s : Progress) :
    let s' := (exitBlock c).next s
    s.AddsPart [] (exitCode c s.exits) s' ∧ s'.unwinds = s.unwinds := by
  intro s'
  let s₁ := (Emit.continueAt .exit).next ((Emit.appendBlock .exit).next s)
  let phi : DraftLine := .phi (.register .result) c.result
    (s.exits.map fun (value, source) => (value.getD .undef, .label source))
  let s₂ := (Emit.line phi).next s₁
  have steps : s' = if s.exits.isEmpty then s else if c.result = .void then
      (Emit.leave (.ret none)).next ((popFrame c.frameSize?).next s₁) else
      (Emit.leave (.ret (some ⟨c.result, .register .result⟩))).next
        ((popFrame c.frameSize?).next s₂) := by
    change Emit.next (if _ then _ else _) s = _
    split
    · rfl
    · change Emit.next (if _ then _ else _) s₁ = _
      split <;> rfl
  rw [steps, exitCode]
  split
  · exact ⟨.none s [], rfl⟩
  · split
    · have pops := popFrame_writes c.frameSize? s₁
      exact ⟨addsPart_appendBlock rfl pops _, pops.quiet.unwinds⟩
    · have pops := (Progress.Writes.line s₁ (l := phi) rfl).trans (popFrame_writes c.frameSize? s₂)
      exact ⟨addsPart_appendBlock rfl pops _, pops.quiet.unwinds⟩

/-- The exit for exceptions adds a part that returns a zero. -/
lemma unwindBlock_spec (s : Progress) :
    s.AddsPart [] (unwindCode c s.unwinds) ((unwindBlock c).next s) := by
  let s₁ := (Emit.continueAt .unwind).next ((Emit.appendBlock .unwind).next s)
  let t : Term Label :=
    .ret (if c.result = .void then none else some ⟨c.result, .zeroOf c.result⟩)
  have steps : (unwindBlock c).next s = if s.unwinds then
      (Emit.leave t).next ((popFrame c.frameSize?).next s₁) else s := by
    change Emit.next (if _ then _ else _) s = _
    split <;> rfl
  rw [steps, unwindCode]
  split
  · exact addsPart_appendBlock rfl (popFrame_writes c.frameSize? s₁) t
  · exact .none s []

end Leaving

/-- The code of a body. -/
structure BodyCode (c : Context) where
  entry : Listing
  entryMarks : List Mark
  /-- The numbers of the parts of the code before the first block end before here. -/
  first : Nat
  blocks : List (BlockCode c)
  /-- The numbers of all parts end before here. -/
  last : Nat
  region : Region .entry 0 entry (startEnd c) first (entryMarks.map fun m => (m.source, .unwind))
  entryLines : List.Forall₂ (fun point m => SiteLines c m.number m.lines point) c.startPoints
    entryMarks
  entryWithin : ∀ m ∈ entryMarks, ofLines m.lines <:+: entry
  /-- The frame is made first. -/
  frame : ∃ y, entry = ofLines (frameCode c.frameSize? 0) ++ y ∧ Listing.Tidy [] y ∧
    (c.initializesOwner = false → y = [])
  started : ∃ ps pools, ((Lowering.start c).next (.initial c ps pools)).draft.blocks =
    Listing.blocks ⟨.entry, []⟩ (entry ++ [.line (.leave (.br (.block .entry)))])
  numbered : blocks.map (fun k => (k.id, k.block)) = c.body.numberedBlocks
  contained : ∀ ℓ, Contained ℓ first (blocks.flatMap (·.listing)) last

namespace BodyCode

/-- The values that are returned through the shared exit. -/
def exits (k : BodyCode c) : List (Option Value × Label) := k.blocks.flatMap (·.exits)

/-- All call sites. -/
def marks (k : BodyCode c) : List Mark := k.entryMarks ++ k.blocks.flatMap (·.sites)

/-- The code before the shared blocks at the end. -/
def main (k : BodyCode c) : Listing :=
  k.entry ++ [.line (.leave (.br (.block .entry)))] ++ k.blocks.flatMap (·.listing)

/-- All code. -/
def listing (k : BodyCode c) : Listing :=
  k.main ++ exitCode c k.exits ++ unwindCode c (!k.marks.isEmpty)

/-- The label that the source of a phi stands for. -/
def resolve (k : BodyCode c) : Source Label → Label
  | .label label => label
  | .block id => ((k.blocks.map fun b => (b.id, b.ending)).reverse.lookup id).getD (.block id)

/-- The blocks of the function. -/
def functionBlocks (k : BodyCode c) : List (Block Label Label) :=
  (Listing.blocks ⟨.entry, []⟩ k.listing).map (Block.mapSources k.resolve)

/-- What starts before the shared blocks: the blocks of the body, their parts and landing pads. -/
lemma mem_labels_main (k : BodyCode c) {l : Label} (mem : l ∈ labels k.main) :
    l.isSplit = true ∨ ∃ id, l = .block id ∨ l = .landing id := by
  rw [main, labels_append, labels_append, labels_flatMap, List.mem_append, List.mem_append] at mem
  rcases mem with (mem | mem) | mem
  · exact .inl (k.region.isSplit_of_mem_labels mem)
  · cases mem
  · obtain ⟨b, _, mem⟩ := List.mem_flatMap.1 mem
    rcases b.mem_labels_listing mem with eq | split | eq
    · exact .inr ⟨b.id, .inl eq⟩
    · exact .inl split
    · exact .inr ⟨b.id, .inr eq⟩

/-- The shared blocks are none of those of the body. -/
lemma not_mem_main (k : BodyCode c) {l : Label} (shared : l = .exit ∨ l = .unwind) :
    l ∉ .entry :: labels k.main := by
  intro mem
  rcases shared with rfl | rfl
  all_goals
    rcases List.mem_cons.1 mem with eq | mem
    · cases eq
    · rcases k.mem_labels_main mem with split | ⟨id, eq | eq⟩
      · cases split
      · cases eq
      · cases eq

/-- The blocks of a body leave no block open. -/
lemma isOpen?_blocks (bs : List (BlockCode c)) :
    isOpen? false (bs.flatMap (·.listing)) = some false := by
  induction bs with
  | nil => rfl
  | cons b bs ih => rw [List.flatMap_cons, isOpen?_append, b.isOpen?_listing, Option.bind_some, ih]

/-- The main part of a body leaves no block open. -/
lemma isOpen?_main (k : BodyCode c) : isOpen? true k.main = some false := by
  rw [main, isOpen?_append, isOpen?_append, k.region.isOpen?_eq]
  exact isOpen?_blocks k.blocks

/-- Lines that end with a terminator leave no block open. -/
lemma isOpen?_popLines (size? : Option Nat) (t : Term Label) :
    isOpen? true (ofLines (popLines size? ++ [.leave t])) = some false := by
  rw [popLines]
  split <;> rfl

/-- The shared exit leaves no block open. -/
lemma isOpen?_exitCode (exits : List (Option Value × Label)) :
    isOpen? false (exitCode c exits) = some false := by
  rw [exitCode]
  split
  · rfl
  · split
    · exact isOpen?_popLines _ _
    · exact isOpen?_popLines _ _

/-- The exit for exceptions leaves no block open. -/
lemma isOpen?_unwindCode (unwinds : Bool) : isOpen? false (unwindCode c unwinds) = some false := by
  rw [unwindCode]
  split
  · exact isOpen?_popLines _ _
  · rfl

/-- The code of a body leaves no block open. -/
lemma isOpen?_listing (k : BodyCode c) : isOpen? true k.listing = some false := by
  rw [listing, isOpen?_append, isOpen?_append, k.isOpen?_main, Option.bind_some, isOpen?_exitCode,
    Option.bind_some, isOpen?_unwindCode]

/-- Every block is left just once, at its end. -/
lemma fits (k : BodyCode c) : ∀ b ∈ Listing.blocks ⟨.entry, []⟩ k.listing, Fits b false := by
  obtain ⟨closedFit, lastFits⟩ :=
    fits_of_isOpen? (b := ⟨.entry, []⟩) (s := true) (List.forall_mem_nil _) k.isOpen?_listing
  exact List.forall_mem_append.2 ⟨closedFit, List.forall_mem_singleton.2 lastFits⟩

end BodyCode

/-- A block that consists of lines starts no other block. -/
lemma labels_popLines (size? : Option Nat) (l : Label) (lines : List DraftLine) (t : Term Label) :
    labels (.start l :: ofLines (lines ++ popLines size? ++ [.leave t])) = [l] := by
  rw [labels, labels_ofLines]

/-- The shared exit has its label, if it is there. -/
lemma labels_exitCode (exits : List (Option Value × Label)) :
    labels (exitCode c exits) = if exits.isEmpty then [] else [.exit] := by
  rw [exitCode]
  split
  · rfl
  · split
    · exact labels_popLines _ _ [] _
    · exact labels_popLines _ _ _ _

/-- The exit for exceptions has its label, if it is there. -/
lemma labels_unwindCode (unwinds : Bool) :
    labels (unwindCode c unwinds) = if unwinds then [.unwind] else [] := by
  rw [unwindCode]
  split
  · exact labels_popLines _ _ [] _
  · rfl

/-- The only label of the shared exit is its own. -/
lemma mem_labels_exitCode {exits : List (Option Value × Label)} {l : Label}
    (mem : l ∈ labels (exitCode c exits)) : l = .exit := by
  rw [labels_exitCode] at mem
  split at mem
  · cases mem
  · exact List.mem_singleton.1 mem

/-- The only label of the exit for exceptions is its own. -/
lemma mem_labels_unwindCode {unwinds : Bool} {l : Label}
    (mem : l ∈ labels (unwindCode c unwinds)) : l = .unwind := by
  rw [labels_unwindCode] at mem
  split at mem
  · exact List.mem_singleton.1 mem
  · cases mem

/-- The code of a body has been emitted up to the shared blocks. -/
structure Progress.AddsMain (ps : List Target.Operand) (pools : Pools) (k : BodyCode c)
    (s : Progress) : Prop where
  cursor : s.draft.Cursor (closed ⟨.entry, []⟩ k.main) (last ⟨.entry, []⟩ k.main) []
  numbers : k.marks.map (·.number) = List.range' pools.sites.sites.length c.sitePoints.length
  sites : s.pools.sites.sites = pools.sites.sites ++ c.sitePoints.map c.callSite
  exits : s.exits = k.exits
  unwinds : s.unwinds = !k.marks.isEmpty
  lastBlocks : s.draft.lastBlocks = (k.blocks.map fun b => (b.id, b.ending)).reverse
  parameters : s.draft.parameters = ps

/-- The code before the first block, and then the blocks, which are put behind it empty first. -/
lemma main_spec (bound : c.body.blocks.length ≤ UInt32.size) {codes : List (Emit Unit)}
    (blocks : List.Forall₂ (fun e code => Emit.AddsBlock c e.1 e.2 code) c.body.numberedBlocks
      codes) (ps : List Target.Operand) (pools : Pools) :
    ∃ k : BodyCode c, Progress.AddsMain ps pools k ((codes.forM fun code => code).next
      ((c.body.numberedBlocks.forM fun (id, _) => Emit.appendBlock (.block id)).next
        ((Lowering.start c).next (.initial c ps pools)))) := by
  have ids := Body.nodup_numbers bound
  obtain ⟨x, marks, starts⟩ := start_spec c ps pools
  let s₁ := (Lowering.start c).next (.initial c ps pools)
  -- what the start adds are splits of the entry, so the blocks and the pads are new to it
  have newBlocks : ∀ e ∈ c.body.numberedBlocks, .block e.1 ∉ s₁.draft.labels := by
    intro e _ mem
    rcases starts.mem_labels mem with eq | split
    · cases eq
    · cases split
  obtain ⟨cursor, quiet, pools₂, splits⟩ := appendBlocks_spec ids starts.cursor newBlocks
  let s₂ := (c.body.numberedBlocks.forM fun (id, _) => Emit.appendBlock (.block id)).next s₁
  have newPads : ∀ e ∈ c.body.numberedBlocks, .landing e.1 ∉ s₂.draft.labels := by
    intro e _ mem
    have labels₂ : s₂.draft.labels =
        s₁.draft.labels ++ c.body.numberedBlocks.map fun e => .block e.1 := by
      rw [cursor.labels_eq, starts.cursor.labels_eq]
      simp
    rw [labels₂, List.mem_append] at mem
    rcases mem with mem | mem
    · rcases starts.mem_labels mem with eq | split
      · cases eq
      · cases split
    · obtain ⟨_, _, eq⟩ := List.mem_map.1 mem
      cases eq
  obtain ⟨ks, numbered, adds⟩ :=
    blocks_spec blocks ids cursor newPads (quiet.landings.trans starts.landings)
  let s₃ := (codes.forM fun code => code).next s₂
  have sites₂ : s₂.pools.sites.sites = pools.sites.sites ++ c.startPoints.map c.callSite := by
    rw [pools₂]
    exact starts.sites
  have points : (ks.flatMap fun k => c.blockPoints k.id k.block) =
      c.body.numberedBlocks.flatMap fun (id, b) => c.blockPoints id b := by
    rw [← numbered, List.flatMap_map]
  -- what the start, the blocks and their pads have added, as one piece of code
  let k : BodyCode c :=
    { entry := x, entryMarks := marks, first := s₁.draft.nextSplit, blocks := ks
      last := s₃.draft.nextSplit
      region := starts.region
      entryLines := starts.lines
      entryWithin := starts.within
      frame := starts.frame
      started := ⟨ps, pools, starts.cursor.blocks⟩
      numbered
      contained := splits ▸ adds.contained }
  refine ⟨k, ?cursor, ?numbers, ?sites, ?exits, ?unwinds, ?last,
    adds.parameters.trans (quiet.parameters.trans starts.parameters)⟩
  case cursor =>
    have cursor := adds.cursor
    rw [← closed_append, ← last_append] at cursor
    exact cursor
  case numbers =>
    rw [BodyCode.marks, List.map_append, starts.numbers, adds.numbers, sites₂, points,
      List.length_append, List.length_map, List.range'_append_1, Context.sitePoints,
      List.length_append]
  case sites =>
    rw [adds.sites, sites₂, points, List.append_assoc, ← List.map_append]
    rfl
  case exits =>
    rw [adds.exits, quiet.exits, starts.exits]
    rfl
  case unwinds =>
    rw [adds.unwinds, quiet.unwinds, starts.unwinds, BodyCode.marks]
    cases marks with
    | nil => rfl
    | cons m ms => rfl
  case last =>
    rw [adds.lastBlocks, quiet.lastBlocks, starts.lastBlocks, List.append_nil]

/-- The code of a body, from the start on. -/
lemma body_spec (bound : c.body.blocks.length ≤ UInt32.size) {code : Emit Unit}
    (given : body c = .ok code) (ps : List Target.Operand) (pools : Pools) :
    let s' := code.next (.initial c ps pools)
    ∃ k : BodyCode c,
      s'.draft.Cursor (closed ⟨.entry, []⟩ k.listing) (last ⟨.entry, []⟩ k.listing) [] ∧
      s'.draft.lastBlocks = (k.blocks.map fun b => (b.id, b.ending)).reverse ∧
      k.marks.map (·.number) = List.range' pools.sites.sites.length c.sitePoints.length ∧
      s'.pools.sites.sites = pools.sites.sites ++ c.sitePoints.map c.callSite ∧
      s'.draft.parameters = ps := by
  intro s'
  obtain ⟨codes, blocks, rfl⟩ : ∃ codes,
      List.Forall₂ (fun e code => Emit.AddsBlock c e.1 e.2 code) c.body.numberedBlocks codes ∧
      code = (do
        Lowering.start c
        c.body.numberedBlocks.forM fun (id, _) => Emit.appendBlock (.block id)
        codes.forM fun code => code
        exitBlock c
        unwindBlock c) := by
    rw [body] at given
    split at given
    · cases given
    · obtain ⟨codes, each, given⟩ := Except.exists_of_bind_eq_ok given
      refine ⟨codes, Except.Ensures.mapM (fun e mem => ?_) codes each, (Except.ok.inj given).symm⟩
      exact block_spec (Body.block?_of_mem bound mem)
  obtain ⟨k, main⟩ := main_spec bound blocks ps pools
  let s₃ := (codes.forM fun code => code).next
    ((c.body.numberedBlocks.forM fun (id, _) => Emit.appendBlock (.block id)).next
      ((Lowering.start c).next (.initial c ps pools)))
  obtain ⟨exit, unwinds⟩ := exitBlock_spec (c := c) s₃
  rw [main.exits] at exit
  let s₄ := (exitBlock c).next s₃
  have unwind := unwindBlock_spec (c := c) s₄
  rw [unwinds, main.unwinds] at unwind
  -- the labels of the shared blocks are used for nothing else
  have newExit : ∀ l ∈ labels (exitCode c k.exits), l ∉ s₃.draft.labels := by
    intro l mem mem'
    rw [Draft.Cursor.labels_eq_of_start main.cursor, List.map_nil, List.append_nil] at mem'
    exact k.not_mem_main (.inl (mem_labels_exitCode mem)) mem'
  have cursor₄ := exit.moves main.cursor newExit
  rw [← closed_append, ← last_append] at cursor₄
  have newUnwind : ∀ l ∈ labels (unwindCode c (!k.marks.isEmpty)), l ∉ s₄.draft.labels := by
    intro l mem mem'
    obtain rfl := mem_labels_unwindCode mem
    rw [Draft.Cursor.labels_eq_of_start cursor₄, labels_append, List.map_nil, List.append_nil,
      ← List.cons_append, List.mem_append] at mem'
    rcases mem' with mem' | mem'
    · exact k.not_mem_main (.inr rfl) mem'
    · cases mem_labels_exitCode mem'
  have cursor₅ := unwind.moves cursor₄ newUnwind
  rw [← closed_append, ← last_append] at cursor₅
  have sites : s'.pools.sites = s₃.pools.sites := unwind.sites.trans exit.sites
  exact ⟨k, cursor₅, unwind.lastBlocks.trans (exit.lastBlocks.trans main.lastBlocks),
    main.numbers, (congrArg CallSites.sites sites).trans main.sites,
    unwind.parameters.trans (exit.parameters.trans main.parameters)⟩

/-- A draft whose blocks are all left is finished as it stands. -/
lemma finish_spec {d : Draft Label} (left : ∀ b ∈ d.blocks, Fits b false) :
    d.finish.blocks = d.blocks.map (Block.mapSources d.resolve) := by
  have same : d.blocks.map (·.terminate .unreachable) = d.blocks := by
    refine (List.map_congr_left fun b mem => ?_).trans (List.map_id _)
    obtain ⟨lines, t, eq, _⟩ := left b mem
    have terminated : b.isTerminated = true := by
      rw [Block.isTerminated, eq, List.any_append, Bool.or_eq_true]
      exact .inr rfl
    rw [Block.terminate, if_pos terminated, id]
  change (d.blocks.map (·.terminate .unreachable)).map _ = _
  rw [same]

/-- A function is made of its parameters and its code, run from the beginning. -/
lemma function_run (pools : Pools) :
    (function c).run pools = (do
      let parameters ← parameters c
      let code ← body c
      let s := code.next (.initial c parameters pools)
      return (s.draft.finish, s.pools)) := by
  simp only [function, StateT.run_bind]
  cases parameters c with
  | error e => rfl
  | ok parameters =>
    cases body c with
    | error e => rfl
    | ok code => rfl

/-- A parameter of a function is the register of a variable, whose kind agrees with the one that is
declared. -/
def IsParameter (entry : (Kind × Kind) × Nat) (o : Target.Operand) : Prop :=
  (entry.1.1 = entry.1.2 ∨ entry.1.1.isReference = true ∧ entry.1.2.isReference = true) ∧
    o.value = .ofVar (.ofIndex entry.2)

/-- A body declares no more kinds for parameters than the method has. -/
lemma length_declaredKinds_le (m : MethodDef) : (declaredKinds m).length ≤ m.arity := by
  rw [declaredKinds, MethodDef.arity, List.length_append]
  have le := List.length_filterMap_le ValueType.kind m.signature.parameters
  cases m.isStatic with
  | true => exact Nat.le_trans (Nat.le_of_eq (Nat.zero_add _)) le
  | false => exact Nat.le_trans (Nat.le_of_eq (Nat.add_comm _ _)) (Nat.add_le_add_right le 1)

/-- There is a parameter for each declared kind, with the type of the variable's own kind. -/
lemma parameters_spec : Except.Ensures (fun ps =>
    (declaredKinds c.method).length ≤ c.body.kinds.length ∧
      List.Forall₂ (fun entry o => IsParameter entry o ∧ o.type = .ofKind entry.1.1)
        (c.body.kinds.zip (declaredKinds c.method)).zipIdx ps)
    (parameters c) := by
  rw [parameters]
  split
  case isTrue => exact .error _
  case isFalse enough =>
    intro ps given
    refine ⟨Nat.le_trans (length_declaredKinds_le _) (Nat.le_of_not_lt enough),
      Except.Ensures.mapM (fun entry _ => ?_) ps given⟩
    dsimp only
    split
    case isTrue agree =>
      rw [Bool.or_eq_true, decide_eq_true_eq, Bool.and_eq_true] at agree
      exact .pure ⟨⟨agree, rfl⟩, rfl⟩
    case isFalse => exact .error _

section Inversion

variable {pools pools' : Pools}

/-- The function of a method has parameters and code for its body, and is what the code emits. -/
lemma exists_of_function_run {f : Function Label}
    (given : (function c).run pools = .ok (f, pools')) :
    ∃ ps code, parameters c = .ok ps ∧ body c = .ok code ∧
      f = (code.next (.initial c ps pools)).draft.finish ∧
      pools' = (code.next (.initial c ps pools)).pools := by
  rw [function_run] at given
  obtain ⟨ps, psGiven, given⟩ := Except.exists_of_bind_eq_ok given
  obtain ⟨code, codeGiven, given⟩ := Except.exists_of_bind_eq_ok given
  obtain ⟨rfl, rfl⟩ := Prod.mk.inj (Except.ok.inj given)
  exact ⟨ps, code, psGiven, codeGiven, rfl, rfl⟩

/-- What a method is made into: a declaration if its code is elsewhere, nothing if it is abstract,
and else the function of its body. -/
inductive MethodEntry (b : Backend) (owner : ClassDef) (m : MethodDef) (pools : Pools) :
    Option (Entry Label) → Pools → Prop
  | native (native : m.isNative = true) : MethodEntry b owner m pools
      (some (.declare (.ofValue m.signature.result) (.method (owner.reference m))
        (parameterTypes m))) pools
  | abstract (native : m.isNative = false) (abstract : m.isAbstract = true) :
      MethodEntry b owner m pools none pools
  | function {body : Body} {f : Function Label} {pools' : Pools} (native : m.isNative = false)
      (abstract : m.isAbstract = false) (found : m.body = some body)
      (lowered : (function (.ofBody b owner m body)).run pools = .ok (f, pools')) :
      MethodEntry b owner m pools (some (.define f)) pools'

/-- What a method is lowered to, if that succeeds. -/
lemma method_spec {b : Backend} {owner : ClassDef} {m : MethodDef} {entry : Option (Entry Label)}
    (given : (method b owner m).run pools = .ok (entry, pools')) :
    MethodEntry b owner m pools entry pools' := by
  rw [method] at given
  split at given
  case isTrue native =>
    cases given
    exact .native native
  case isFalse native =>
    split at given
    case isTrue abstract =>
      cases given
      exact .abstract (Bool.of_not_eq_true native) abstract
    case isFalse abstract =>
      split at given
      case h_1 => cases given
      case h_2 body found =>
        obtain ⟨f, pools₁, lowered, whole⟩ := StateT.exists_of_run_bind_eq_ok given
        cases whole
        exact .function (Bool.of_not_eq_true native)
          (Bool.of_not_eq_true abstract) found lowered

end Inversion

/-- A function consists of the code of the body, under labels that differ, and all call sites that
are registered with it are in that code. -/
theorem function_spec (bound : c.body.blocks.length ≤ UInt32.size) {f : Function Label}
    {pools pools' : Pools} (given : (function c).run pools = .ok (f, pools')) :
    ∃ k : BodyCode c, f.blocks = k.functionBlocks ∧ (.entry :: labels k.listing).Nodup ∧
      k.marks.map (·.number) = List.range' pools.sites.sites.length c.sitePoints.length ∧
      pools'.sites.sites = pools.sites.sites ++ c.sitePoints.map c.callSite := by
  obtain ⟨parameters, code, _, codeGiven, rfl, rfl⟩ := exists_of_function_run given
  obtain ⟨k, cursor, lastBlocks, numbers, sites, _⟩ := body_spec bound codeGiven parameters pools
  let d := (code.next (.initial c parameters pools)).draft
  have blocks : d.blocks = Listing.blocks ⟨.entry, []⟩ k.listing := cursor.blocks
  have left : ∀ b ∈ d.blocks, Fits b false := by
    rw [blocks]
    exact k.fits
  have resolve : d.resolve = k.resolve := by
    funext source
    cases source with
    | label label => rfl
    | block id =>
      rw [Draft.resolve, BodyCode.resolve, ← lastBlocks]
      rfl
  refine ⟨k, ?_, ?_, numbers, sites⟩
  · rw [finish_spec left, resolve, blocks]
    rfl
  · have nodup := cursor.nodup
    rw [Draft.labels, blocks, labels_blocks] at nodup
    exact nodup

/-- The parameters of the function are those of the method. -/
lemma function_parameters (bound : c.body.blocks.length ≤ UInt32.size) {f : Function Label}
    {pools pools' : Pools} (given : (function c).run pools = .ok (f, pools')) :
    parameters c = .ok f.parameters := by
  obtain ⟨parameters, code, checked, codeGiven, rfl, rfl⟩ := exists_of_function_run given
  obtain ⟨k, _, _, _, _, same⟩ := body_spec bound codeGiven parameters pools
  rw [checked]
  exact congrArg Except.ok same.symm

end ObjectBackend.Lowering
