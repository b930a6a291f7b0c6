import ObjectBackend.Proofs.Lowering.Straight

/-!
# Call sites in emitted code

The places of a body where exceptions come up (`SitePoint`), and what the emitted code has for each
of them (`Mark`): the number it is registered under, the lines that store the live references, and
the label that exceptions leave from. `Emit.Emits` says of a piece of code that it adds a region to
the current block, with a mark for each of some points, and that nothing else of what is recorded
changes.
-/

namespace ObjectBackend.Lowering

open Target Listing

/-- A place of a body where an exception can come up. -/
inductive SitePoint where
  /-- The initialization of the owner. -/
  | start
  | instruction (id : BlockId) (position : Nat)
  | raise (id : BlockId)
deriving DecidableEq

/-- The site that the terminator of a block is, if it throws an exception. -/
def raisePoints (id : BlockId) (b : BasicBlock) : List SitePoint :=
  if b.terminator matches .raise _ then [.raise id] else []

namespace Context

/-- The references that a site keeps alive. -/
def liveAt (c : Context) : SitePoint → List Var
  | .start => c.referenceParameters
  | .instruction id position => ((c.liveness.siteAt? id position).map (·.live)).getD []
  | .raise _ => []

/-- The classes that are handled at a site. -/
def handledAt (c : Context) : SitePoint → List (Option String)
  | .start => []
  | .instruction id _ | .raise id =>
    (c.body.block? id).elim [] fun b => b.tryCatches.map (·.exceptionType)

/-- What is registered of a site. -/
def callSite (c : Context) (point : SitePoint) : CallSite :=
  { liveReferences := (c.liveAt point).length, handled := c.handledAt point }

/-- The site that an instruction is, if it is one. -/
def instructionPoints (c : Context) (id : BlockId) (i : Instruction) (position : Nat) :
    List SitePoint :=
  if c.isSite i then [.instruction id position] else []

/-- The sites of a block, in the order they are emitted. -/
def blockPoints (c : Context) (id : BlockId) (b : BasicBlock) : List SitePoint :=
  (b.instructions.zipIdx.flatMap fun (i, position) => c.instructionPoints id i position) ++
    raisePoints id b

/-- The site before the first block, if there is one. -/
def startPoints (c : Context) : List SitePoint := if c.initializesOwner then [.start] else []

/-- The sites of a method, in the order they are emitted. -/
def sitePoints (c : Context) : List SitePoint :=
  c.startPoints ++ c.body.numberedBlocks.flatMap fun (id, b) => c.blockPoints id b

end Context

section Stores

variable {σ : Type}

/-- The lines that store a live reference in its cell, or null if there is none for it. -/
def cellStore (size : Nat) (live : List Var) (cell temporary : Nat) : List (Line Label σ) :=
  [.define (.register (.temporary temporary))
      (.fieldOf (frameType size) (.register .frame) [0, 1, cell]),
    .run (.store (.ptr (live[cell]?.elim .null .ofVar)) (.register (.temporary temporary)))]

/-- The lines that store the live references in all cells of the frame and the number of the site in
its header, if there is a frame. -/
def siteStores (size? : Option Nat) (live : List Var) (number temporary : Nat) :
    List (Line Label σ) :=
  match size? with
  | none => []
  | some size =>
    ((List.range size).flatMap fun cell => cellStore size live cell (temporary + cell)) ++
      [.define (.register (.temporary (temporary + size)))
          (.fieldOf (frameType size) (.register .frame) [0, 0, 1]),
        .run (.store (.i32 number) (.register (.temporary (temporary + size))))]

/-- The lines that test for a pending exception. If there is one they leave for the target,
otherwise for what comes next. -/
def checkLines (temporary : Nat) (target next : Label) : List (Line Label σ) :=
  [.define (.register (.temporary temporary)) (.load .ptr (.ofRuntime .pendingException)),
    .define (.register (.temporary (temporary + 1)))
      (.icmp .ne .ptr (.register (.temporary temporary)) .null),
    .leave (.condBr (.register (.temporary (temporary + 1))) target next)]

/-- The lines of a site that is registered under a number: an exception is thrown before the live
references are stored, every other call made after it. -/
def SiteLines (c : Context) (number : Nat) (lines : List (Line Label σ)) : SitePoint → Prop
  | .raise id => ∃ exception temporary,
      (c.body.block? id).map (·.terminator) = some (.raise exception) ∧
      lines = .run (.call .void (.symbol (.runtime .throw)) [.ptr (.ofVar exception)]) ::
        siteStores c.frameSize? [] number temporary
  | point => ∃ temporary rest,
      lines = siteStores c.frameSize? (c.liveAt point) number temporary ++ rest ∧
        rest.countP Line.isCall = 1

end Stores

/-- A call site in emitted code. -/
structure Mark where
  number : Nat
  /-- The label that exceptions leave from. -/
  source : Label
  lines : List DraftLine

namespace Place

/-- Where exceptions go. -/
def target (p : Place) : Label := p.landing?.getD .unwind

/-- What the landing pad is told of call sites, if there is one. -/
def landings (p : Place) (marks : List Mark) : List (Nat × Label) :=
  if p.landing?.isSome then marks.map fun m => (m.number, m.source) else []

/-- Whether exceptions leave the function. -/
def unwinds (p : Place) (marks : List Mark) : Bool := p.landing?.isNone && !marks.isEmpty

/-- The landings of call sites, one after the other. -/
lemma landings_append (p : Place) (ms ms' : List Mark) :
    p.landings (ms ++ ms') = p.landings ms ++ p.landings ms' := by
  rw [landings, landings, landings]
  cases p.landing?.isSome with
  | true => exact List.map_append
  | false => rfl

/-- Whether one of the call sites goes to the exit for exceptions. -/
lemma unwinds_append (p : Place) (ms ms' : List Mark) :
    p.unwinds (ms ++ ms') = (p.unwinds ms || p.unwinds ms') := by
  rw [unwinds, unwinds, unwinds, ← Bool.and_or_distrib_left]
  cases ms with
  | nil => rfl
  | cons m ms => rfl

end Place

/-- Lines that neither leave their block nor depend on how it is entered are a region. -/
lemma Region.ofLines (ℓ : Label) (n : Nat) {lines : List DraftLine}
    (plain : ∀ l ∈ lines, l.isPlain = true) : Region ℓ n (ofLines lines) ℓ n [] := by
  induction lines with
  | nil => exact .nil ℓ n
  | cons l lines ih =>
    obtain ⟨first, others⟩ := List.forall_mem_cons.1 plain
    exact (Region.line ℓ n first).append (ih others)

/-- Lines go to the block where the code starts. -/
lemma Progress.At.currentLabel {s : Progress} {before after : List DraftBlock}
    {current : DraftBlock} (start : s.At before current after) :
    s.draft.currentLabel = current.label := start.cursor.currentLabel

namespace Progress

variable {c : Context} {p : Place} {s s' s'' : Progress} {x y : Listing} {marks marks' : List Mark}
  {points points' : List SitePoint} {out out' : List (Label × Label)}

/-- Call sites have been registered in the order of their points, and each of them has been marked
in the code. -/
structure Records (c : Context) (p : Place) (points : List SitePoint) (s : Progress) (x : Listing)
    (marks : List Mark) (s' : Progress) : Prop where
  lines : List.Forall₂ (fun point m => SiteLines c m.number m.lines point) points marks
  within : ∀ m ∈ marks, ofLines m.lines <:+: x
  numbers : marks.map (·.number) = List.range' s.pools.sites.sites.length points.length
  sites : s'.pools.sites.sites = s.pools.sites.sites ++ points.map c.callSite
  landings : s'.landings = s.landings ++ p.landings marks
  unwinds : s'.unwinds = (s.unwinds || p.unwinds marks)

namespace Records

/-- Without call sites there is nothing to record. -/
lemma none (sites : s'.pools.sites = s.pools.sites) (landings : s'.landings = s.landings)
    (unwinds : s'.unwinds = s.unwinds) (x : Listing) : Records c p [] s x [] s' where
  lines := .nil
  within := List.forall_mem_nil _
  numbers := rfl
  sites := by rw [sites, List.map_nil, List.append_nil]
  landings := by simp [landings, Place.landings]
  unwinds := by simp [unwinds, Place.unwinds]

/-- What only writes lines has nothing to record. -/
lemma of_quiet (quiet : s.Quiet s') (x : Listing) : Records c p [] s x [] s' :=
  none quiet.sites quiet.landings quiet.unwinds x

/-- Call sites are recorded one after the other. -/
lemma append (h : Records c p points s x marks s') (h' : Records c p points' s' y marks' s'') :
    Records c p (points ++ points') s (x ++ y) (marks ++ marks') s'' where
  lines := List.rel_append h.lines h'.lines
  within := by
    refine List.forall_mem_append.2 ⟨fun m mem => ?_, fun m mem => ?_⟩
    · exact (h.within m mem).trans (List.prefix_append x y).isInfix
    · exact (h'.within m mem).trans (List.suffix_append x y).isInfix
  numbers := by
    rw [List.map_append, h.numbers, h'.numbers, h.sites, List.length_append, List.length_map,
      List.length_append, List.range'_append_1]
  sites := by rw [h'.sites, h.sites, List.map_append, List.append_assoc]
  landings := by rw [h'.landings, h.landings, Place.landings_append, List.append_assoc]
  unwinds := by rw [h'.unwinds, h.unwinds, Place.unwinds_append, Bool.or_assoc]

end Records

/-- A call site is registered and marked. -/
def record (s : Progress) (c : Context) (p : Place) (point : SitePoint) (mark : Mark) : Progress :=
  { s with
    pools := (s.pools.register (c.callSite point)).2
    landings := s.landings ++ p.landings [mark]
    unwinds := s.unwinds || p.unwinds [mark] }

/-- A call site has been recorded if nothing but its registration and code has been added. -/
lemma Records.of_record {point : SitePoint} {mark : Mark}
    (lines : SiteLines c mark.number mark.lines point) (within : ofLines mark.lines <:+: x)
    (number : mark.number = s.pools.sites.sites.length)
    (quiet : (s.record c p point mark).Quiet s') : Records c p [point] s x [mark] s' where
  lines := .cons lines .nil
  within := List.forall_mem_singleton.2 within
  numbers := by rw [List.map_singleton, number]; rfl
  sites := (congrArg CallSites.sites quiet.sites).trans (CallSites.sites_register ..)
  landings := quiet.landings
  unwinds := quiet.unwinds

/-- A region has been added to the current block. -/
structure Extends (s : Progress) (x : Listing) (out : List (Label × Label)) (s' : Progress) :
    Prop where
  moves : ∀ {before current after}, s.At before current after →
    s'.At (before ++ closed current x) (last current x) after
  region : Region s.draft.currentLabel s.draft.nextSplit x s'.draft.currentLabel
    s'.draft.nextSplit out
  tidy : Listing.Tidy [] x
  exits : s'.exits = s.exits
  lastBlocks : s'.draft.lastBlocks = s.draft.lastBlocks
  parameters : s'.draft.parameters = s.draft.parameters

namespace Extends

/-- Regions extend the code one after the other. -/
lemma append (h : s.Extends x out s') (h' : s'.Extends y out' s'') :
    s.Extends (x ++ y) (out ++ out') s'' where
  moves := fun start => by
    rw [closed_append, last_append, ← List.append_assoc]
    exact h'.moves (h.moves start)
  region := h.region.append h'.region
  tidy := h.tidy.append h'.tidy
  exits := h'.exits.trans h.exits
  lastBlocks := h'.lastBlocks.trans h.lastBlocks
  parameters := h'.parameters.trans h.parameters

/-- Plain lines make a region. -/
lemma of_writes {lines : List DraftLine} {before after : List DraftBlock} {current : DraftBlock}
    (writes : s.Writes lines s') (plain : ∀ l ∈ lines, l.isPlain = true)
    (tidy : Line.Tidy [] lines) (start : s.At before current after) :
    s.Extends (ofLines lines) [] s' where
  moves := fun start => by
    rw [closed_ofLines, List.append_nil, last_ofLines]
    exact writes.moves start
  region := by
    rw [start.currentLabel, (writes.moves start).currentLabel, writes.splits]
    exact .ofLines _ _ plain
  tidy := .ofLines tidy
  exits := writes.quiet.exits
  lastBlocks := writes.quiet.lastBlocks
  parameters := writes.quiet.parameters

end Extends

/-- A region has been added to the current block, and the call sites of some points are in it. -/
structure Adds (c : Context) (p : Place) (points : List SitePoint) (s : Progress) (x : Listing)
    (marks : List Mark) (s' : Progress) : Prop where
  code : s.Extends x (marks.map fun m => (m.source, p.target)) s'
  records : Records c p points s x marks s'

/-- Regions are added one after the other, with their call sites. -/
lemma Adds.append (h : Adds c p points s x marks s') (h' : Adds c p points' s' y marks' s'') :
    Adds c p (points ++ points') s (x ++ y) (marks ++ marks') s'' where
  code := by
    rw [List.map_append]
    exact h.code.append h'.code
  records := h.records.append h'.records

end Progress

/-- A reference is stored in its cell. -/
lemma spill_writes (s : Progress) (size : Nat) (live : List Var) (cell : Nat) :
    s.Writes (cellStore size live cell s.draft.nextTemporary) ((spill size live cell).next s) ∧
      ((spill size live cell).next s).draft.nextTemporary = s.draft.nextTemporary + 1 := by
  have address := Progress.Writes.define s
    (.fieldOf (frameType size) (.register .frame) [0, 1, cell])
  refine ⟨address.trans (.line (l := .run _) _ rfl), rfl⟩

/-- The references are stored in their cells, each of which takes one temporary. -/
lemma spills_write (size : Nat) (live : List Var) (temporary : Nat) (count cell : Nat) :
    ∀ s : Progress, s.draft.nextTemporary = temporary + cell →
      s.Writes ((List.range' cell count).flatMap fun cell =>
          cellStore size live cell (temporary + cell))
        (((List.range' cell count).forM (spill size live)).next s) ∧
      (((List.range' cell count).forM (spill size live)).next s).draft.nextTemporary =
        temporary + (cell + count) := by
  induction count generalizing cell with
  | zero => exact fun s next => ⟨.refl s, next⟩
  | succ count ih =>
    intro s next
    obtain ⟨writes, next'⟩ := spill_writes s size live cell
    rw [next] at writes next'
    obtain ⟨writes', next''⟩ := ih (cell + 1) _ (next'.trans (Nat.add_assoc ..))
    rw [List.range'_succ, List.flatMap_cons]
    refine ⟨writes.trans writes', next''.trans ?_⟩
    omega

/-- A site is registered, and what has to be known of it is stored. -/
lemma beginSite_spec (s : Progress) (size? : Option Nat) (live : List Var)
    (handled : List (Option String)) :
    (beginSite size? live handled).result s = s.pools.sites.sites.length ∧
    Progress.Writes { s with pools := (s.pools.register ⟨live.length, handled⟩).2 }
      (siteStores size? live s.pools.sites.sites.length s.draft.nextTemporary)
      ((beginSite size? live handled).next s) := by
  cases size? with
  | none => exact ⟨rfl, .refl _⟩
  | some size =>
    let s₁ : Progress := { s with pools := (s.pools.register ⟨live.length, handled⟩).2 }
    let s₂ := ((List.range size).forM (spill size live)).next s₁
    obtain ⟨writes, next⟩ : s₁.Writes _ s₂ ∧ s₂.draft.nextTemporary = _ := by
      have cells := spills_write size live s.draft.nextTemporary size 0 s₁ rfl
      rw [← List.range_eq_range'] at cells
      exact cells
    have address := Progress.Writes.define s₂
      (.fieldOf (frameType size) (.register .frame) [0, 0, 1])
    have header : s₂.Writes _ ((beginSite (some size) live handled).next s) := address.trans
      (.line (l := .run (.store (.i32 s.pools.sites.sites.length)
        (.register (.temporary s₂.draft.nextTemporary)))) _ rfl)
    rw [next, Nat.zero_add] at header
    exact ⟨rfl, writes.trans header⟩

/-- The lines compute addresses and store to them. -/
lemma forall_mem_siteStores {σ : Type} {P : Line Label σ → Prop}
    (address : ∀ receiver base whole indices, P (.define receiver (.element base whole indices)))
    (store : ∀ operand place, P (.run (.store operand place))) (size? : Option Nat)
    (live : List Var) (number temporary : Nat) :
    ∀ l ∈ siteStores size? live number temporary, P l := by
  cases size? with
  | none => exact List.forall_mem_nil _
  | some size =>
    have stored : ∀ (n : Nat) (o : Target.Operand) (is : List Int),
        ∀ l ∈ [.define (.register (.temporary n)) (.fieldOf (frameType size) (.register .frame) is),
          .run (.store o (.register (.temporary n)))], P l := fun n o is =>
      List.forall_mem_cons.2 ⟨address _ _ _ _, List.forall_mem_singleton.2 (store _ _)⟩
    refine List.forall_mem_append.2 ⟨fun l mem => ?_, stored _ _ _⟩
    obtain ⟨cell, _, mem⟩ := List.mem_flatMap.1 mem
    exact stored _ _ _ l mem

/-- The stores of a call site are plain lines. -/
lemma isPlain_siteStores (size? : Option Nat) (live : List Var) (number temporary : Nat) :
    ∀ l ∈ (siteStores size? live number temporary : List DraftLine), l.isPlain = true :=
  forall_mem_siteStores (fun _ _ _ _ => rfl) (fun _ _ => rfl) size? live number temporary

/-- Everything is stored to the frame. -/
lemma tidy_siteStores (size? : Option Nat) (live : List Var) (number temporary : Nat) :
    Line.Tidy [] (siteStores size? live number temporary : List DraftLine) := by
  cases size? with
  | none => trivial
  | some size =>
    have stored : ∀ (n : Nat) (o : Target.Operand) (is : List Int), Line.Tidy []
        [(.define (.register (.temporary n)) (.fieldOf (frameType size) (.register .frame) is) :
          DraftLine), .run (.store o (.register (.temporary n)))] :=
      fun n o is => ⟨⟨temporary_ne_callerFrame, rfl⟩, List.mem_cons_self .., trivial⟩
    refine Line.Tidy.append ?_ (stored _ _ _)
    induction List.range size with
    | nil => trivial
    | cons cell cells ih =>
      rw [List.flatMap_cons]
      exact (stored _ _ _).append ih

/-- An exception goes to the landing pad, or out of the function. -/
lemma exceptionTarget_spec (p : Place) (number : Nat) (lines : List DraftLine) (s : Progress) :
    (exceptionTarget p number).result s = p.target ∧
      (exceptionTarget p number).next s =
        { s with
          landings := s.landings ++ p.landings [⟨number, s.draft.currentLabel, lines⟩]
          unwinds := s.unwinds || p.unwinds [⟨number, s.draft.currentLabel, lines⟩] } := by
  obtain ⟨label, landing?⟩ := p
  cases landing? with
  | none =>
    refine ⟨rfl, ?_⟩
    change { s with unwinds := true } = _
    simp [Place.landings, Place.unwinds]
  | some landing =>
    refine ⟨rfl, ?_⟩
    change { s with landings := s.landings ++ [(number, s.draft.currentLabel)] } = _
    simp [Place.landings, Place.unwinds]

/-- After a call the pending exception is tested, and the block goes on behind the test. -/
lemma endSite_spec {p : Place} {s : Progress} {before after : List DraftBlock}
    {current : DraftBlock} (start : s.At before current after) (outside : p.target.isSplit = false)
    (number : Nat) (lines : List DraftLine) :
    let s' := (endSite p number).next s
    let mark : Mark := ⟨number, s.draft.currentLabel, lines⟩
    let next : Label := .split p.label s.draft.nextSplit
    s.Extends (ofLines (checkLines s.draft.nextTemporary p.target next) ++ [.start next])
        [(mark.source, p.target)] s' ∧
      s'.pools = s.pools ∧ s'.landings = s.landings ++ p.landings [mark] ∧
      s'.unwinds = (s.unwinds || p.unwinds [mark]) ∧ s'.draft.currentLabel = next := by
  intro s' mark next
  let load : Instr := .load .ptr (.ofRuntime .pendingException)
  let test : Instr := .icmp .ne .ptr (.register (.temporary s.draft.nextTemporary)) .null
  let s₁ := (Emit.define load).next s
  let s₂ := (Emit.define test).next s₁
  let thrown : Value := .register (.temporary s₁.draft.nextTemporary)
  have writes : s.Writes _ s₂ := (Progress.Writes.define s load).trans (.define s₁ test)
  have straight := Progress.Extends.of_writes writes (by simp [Line.isPlain])
    ⟨⟨temporary_ne_callerFrame, rfl⟩, ⟨temporary_ne_callerFrame, rfl⟩, trivial⟩ start
  -- the exception is recorded, and what follows is split off
  obtain ⟨target, recorded⟩ := exceptionTarget_spec p number lines s₂
  have label : s₂.draft.currentLabel = s.draft.currentLabel :=
    (writes.moves start).currentLabel.trans start.currentLabel.symm
  let leave : Term Label := .condBr thrown p.target next
  let s₃ : Progress :=
    { s₂ with
      landings := s₂.landings ++ p.landings [mark]
      unwinds := s₂.unwinds || p.unwinds [mark] }
  let s₄ := (Emit.split p.label >>= fun _ => Emit.leave leave).next s₃
  have eq : s' = (Emit.continueAt next).next s₄ := by
    change (Emit.split p.label >>= fun next =>
      (Emit.leave (.condBr thrown ((exceptionTarget p number).result s₂) next) >>=
        fun _ => Emit.continueAt next)).next ((exceptionTarget p number).next s₂) = _
    rw [target, recorded, label]
    rfl
  have quiet := Progress.Quiet.continueAt s₄ next
  have moves : ∀ {before current after}, s₂.At before current after →
      s'.At (before ++ [current.push (.leave leave)]) ⟨next, []⟩ after := by
    intro before current after start
    rw [eq]
    have cursor := (start.cursor.split p.label).terminate start.isOpen.isTerminated leave
    exact ⟨cursor.goTo, List.forall_mem_nil _⟩
  have split : s₂.Extends [.line (.leave leave), .start next] [(s₂.draft.currentLabel, p.target)]
      s' := by
    refine ⟨moves, ?_, ⟨trivial, trivial⟩, ?_, ?_, ?_⟩
    · rw [(moves (writes.moves start)).currentLabel, eq, Progress.nextSplit_continueAt]
      exact .site _ _ _ _ outside
    · rw [eq]
      exact quiet.exits
    · rw [eq]
      exact quiet.lastBlocks
    · rw [eq]
      exact quiet.parameters
  have extends' := straight.append split
  rw [label] at extends'
  refine ⟨extends', ?_, ?_, ?_, (moves (writes.moves start)).currentLabel⟩
  · rw [eq]
    rfl
  · rw [eq, quiet.landings]
    exact congrArg (· ++ _) writes.quiet.landings
  · rw [eq, quiet.unwinds]
    exact congrArg (· || _) writes.quiet.unwinds

/-- Branch to a test or around it, and go on in the test; the result is the label behind it. -/
def enterTest (branch : Label → Label → Term Label) : Emit Label := do
  let source ← .here
  let done ← .split source
  let check ← .split source
  .leave (branch done check)
  .continueAt check
  return done

/-- Go on behind a test with its result, or with a failure if the test has been skipped. -/
def rejoin (source done : Label) (result : Value) : Emit Value := do
  let tested ← .here
  .leave (.br done)
  .continueAt done
  let flag ← .fresh
  .phi flag .i1 [(.bool false, .label source), (result, .label tested)]
  return flag

namespace Progress

variable {s : Progress} {before after : List DraftBlock} {current : DraftBlock}

/-- The code for a test goes to a new block, with the one behind it next. -/
lemma At.enterTest (branch : Label → Label → Term Label) (start : s.At before current after) :
    let done : Label := .split s.draft.currentLabel s.draft.nextSplit
    let check : Label := .split s.draft.currentLabel (s.draft.nextSplit + 1)
    ((enterTest branch).next s).At (before ++ [current.push (.leave (branch done check))])
      ⟨check, []⟩ (⟨done, []⟩ :: after) := by
  intro done check
  have cursor := (start.cursor.split s.draft.currentLabel).split s.draft.currentLabel
  exact ⟨(cursor.terminate start.isOpen.isTerminated _).goTo, List.forall_mem_nil _⟩

/-- Entering a test changes nothing but lines and blocks. -/
lemma quiet_enterTest (s : Progress) (branch : Label → Label → Term Label) :
    s.Quiet ((Lowering.enterTest branch).next s) := by
  let s₁ := (Emit.here >>= fun source => Emit.split source >>= fun done =>
    Emit.split source >>= fun check => Emit.leave (branch done check)).next s
  have quiet : s.Quiet s₁ := ⟨rfl, rfl, rfl, rfl, rfl, rfl⟩
  exact quiet.trans (.continueAt s₁ _)

/-- Entering a test takes no temporary. -/
lemma nextTemporary_enterTest (branch : Label → Label → Term Label) :
    ((Lowering.enterTest branch).next s).draft.nextTemporary = s.draft.nextTemporary :=
  nextTemporary_continueAt _ _

/-- Entering a test takes two numbers of parts. -/
lemma nextSplit_enterTest (branch : Label → Label → Term Label) :
    ((Lowering.enterTest branch).next s).draft.nextSplit = s.draft.nextSplit + 2 :=
  nextSplit_continueAt _ _

/-- The code behind a test starts with a phi. -/
lemma At.rejoin (source done : Label) (result : Value)
    (inside : s.At before current (⟨done, []⟩ :: after)) :
    ((rejoin source done result).next s).At (before ++ [current.push (.leave (.br done))])
      ⟨done, [.phi (.register (.temporary s.draft.nextTemporary)) .i1
        [(.bool false, .label source), (result, .label s.draft.currentLabel)]]⟩ after := by
  let s₁ := (Emit.leave (.br done)).next s
  let s₂ := (Emit.continueAt done).next s₁
  have temporary : s₂.draft.nextTemporary = s.draft.nextTemporary :=
    nextTemporary_continueAt s₁ done
  have moved : s₂.At (before ++ [current.push (.leave (.br done))]) ⟨done, []⟩ after :=
    ⟨(inside.cursor.terminate inside.isOpen.isTerminated _).goTo, List.forall_mem_nil _⟩
  have fresh : s₂.Writes [] (Emit.fresh.next s₂) :=
    .of_blocks rfl rfl rfl ⟨rfl, rfl, rfl, rfl, rfl, rfl⟩
  have joined := fresh.trans (.line _ (l := .phi (.register (.temporary s₂.draft.nextTemporary)) .i1
    [(.bool false, .label source), (result, .label s.draft.currentLabel)]) rfl)
  rw [← temporary]
  exact joined.moves moved

/-- Where a test is rejoined its result is in a new temporary. -/
lemma result_rejoin (s : Progress) (source done : Label) (result : Value) :
    (Lowering.rejoin source done result).result s =
      .register (.temporary s.draft.nextTemporary) :=
  congrArg (fun n => Value.register (.temporary n)) (nextTemporary_continueAt _ done)

/-- Rejoining a test takes a temporary. -/
lemma nextTemporary_rejoin (s : Progress) (source done : Label) (result : Value) :
    ((Lowering.rejoin source done result).next s).draft.nextTemporary =
      s.draft.nextTemporary + 1 :=
  congrArg (· + 1) (nextTemporary_continueAt ((Emit.leave (.br done)).next s) done)

/-- Rejoining a test changes nothing but lines and blocks. -/
lemma quiet_rejoin (s : Progress) (source done : Label) (result : Value) :
    s.Quiet ((Lowering.rejoin source done result).next s) := by
  let s₁ := (Emit.leave (.br done)).next s
  let s₂ := (Emit.continueAt done).next s₁
  have left : s.Quiet s₁ := ⟨rfl, rfl, rfl, rfl, rfl, rfl⟩
  have joined : s₂.Quiet ((Lowering.rejoin source done result).next s) :=
    ⟨rfl, rfl, rfl, rfl, rfl, rfl⟩
  exact left.trans ((Quiet.continueAt s₁ done).trans joined)

/-- Rejoining a test takes no number of a part. -/
lemma nextSplit_rejoin (s : Progress) (source done : Label) (result : Value) :
    ((Lowering.rejoin source done result).next s).draft.nextSplit = s.draft.nextSplit :=
  nextSplit_continueAt ((Emit.leave (.br done)).next s) done

end Progress

namespace Emit

variable {α β : Type} {c : Context} {p : Place} {points points' : List SitePoint} {e : Emit α}
  {f : α → Emit β} {n : Nat}

/-- Code that adds a region to the current block, with the call sites of some points. -/
def Emits (c : Context) (p : Place) (points : List SitePoint) (e : Emit α) : Prop :=
  ∀ ⦃s before current after⦄, Progress.At s before current after →
    ∃ x marks, Progress.Adds c p points s x marks (e.next s)

/-- The code of a site is one call between the stores before it and the test after it. -/
lemma site_spec {point : SitePoint} {code : Emit Unit} (straight : Straight 1 code)
    (other : ∀ id, point ≠ .raise id) (outside : p.target.isSplit = false) {s : Progress}
    {before after : List DraftBlock} {current : DraftBlock} (start : s.At before current after) :
    let s' := (site c p (c.handledAt point) (c.liveAt point) code).next s
    ∃ x marks, Progress.Adds c p [point] s x marks s' ∧
      s'.draft.currentLabel = .split p.label s.draft.nextSplit := by
  intro s'
  obtain ⟨number, stores⟩ := beginSite_spec s c.frameSize? (c.liveAt point) (c.handledAt point)
  let s₁ : Progress := { s with pools := (s.pools.register (c.callSite point)).2 }
  let s₂ := (beginSite c.frameSize? (c.liveAt point) (c.handledAt point)).next s
  obtain ⟨rest, plain, calls, tidy, writes⟩ := straight s₂
  let lines : List DraftLine :=
    siteStores c.frameSize? (c.liveAt point) s.pools.sites.sites.length
      s.draft.nextTemporary ++ rest
  have start₁ : s₁.At before current after := ⟨start.cursor, start.isOpen⟩
  have written := stores.trans writes
  have called := Progress.Extends.of_writes written
    (List.forall_mem_append.2 ⟨isPlain_siteStores _ _ _ _, plain⟩)
    ((tidy_siteStores _ _ _ _).append tidy) start₁
  -- the check behind the site is code of its own, which goes on from the lines of the site
  obtain ⟨tested, pools, landings, unwinds, behind⟩ :=
    endSite_spec (called.moves start₁) outside s.pools.sites.sites.length lines
  have label : (code.next s₂).draft.currentLabel = s.draft.currentLabel :=
    (written.moves start₁).currentLabel.trans start.currentLabel.symm
  rw [label] at tested landings unwinds
  have eq : s' = (endSite p s.pools.sites.sites.length).next (code.next s₂) := by
    have steps : s' = (endSite p ((beginSite c.frameSize? (c.liveAt point)
        (c.handledAt point)).result s)).next (code.next s₂) := rfl
    rw [steps, number]
  rw [← eq] at tested landings unwinds pools behind
  let mark : Mark := ⟨s.pools.sites.sites.length, s.draft.currentLabel, lines⟩
  have code := called.append tested
  rw [written.splits] at behind
  have quiet : (s.record c p point mark).Quiet s' :=
    { sites := (congrArg Pools.sites pools).trans written.quiet.sites
      landings := landings.trans (congrArg (· ++ _) written.quiet.landings)
      exits := code.exits
      unwinds := unwinds.trans (congrArg (· || _) written.quiet.unwinds)
      lastBlocks := code.lastBlocks
      parameters := code.parameters }
  have siteLines : SiteLines c mark.number mark.lines point := by
    cases point with
    | raise id => exact absurd rfl (other id)
    | _ => exact ⟨_, _, rfl, calls⟩
  refine ⟨_, [mark], ⟨⟨fun start => code.moves ⟨start.cursor, start.isOpen⟩, code.region, code.tidy,
    code.exits, code.lastBlocks, code.parameters⟩, .of_record siteLines ?within rfl quiet⟩, behind⟩
  exact (List.prefix_append (ofLines lines) _).isInfix

/-- Straight code adds a region without call sites. -/
lemma Straight.emits (straight : Straight n e) : Emits c p [] e := by
  intro s before current after start
  obtain ⟨lines, plain, _, tidy, writes⟩ := straight s
  exact ⟨_, [], .of_writes writes plain tidy start, .of_quiet writes.quiet _⟩

namespace Emits

/-- Regions are added one after the other. -/
lemma bind (he : Emits c p points e) (hf : ∀ a, Emits c p points' (f a)) :
    Emits c p (points ++ points') (e >>= f) := by
  intro s before current after start
  obtain ⟨x, marks, adds⟩ := he start
  obtain ⟨y, marks', adds'⟩ := hf (e.result s) (adds.code.moves start)
  exact ⟨x ++ y, marks ++ marks', adds.append adds'⟩

/-- Code without call sites may be put in front. -/
lemma nil_bind (he : Emits c p [] e) (hf : ∀ a, Emits c p points (f a)) :
    Emits c p points (e >>= f) := he.bind hf

/-- Pieces of code in sequence. -/
lemma forM {codes : List (Emit Unit)} {pointss : List (List SitePoint)}
    (h : List.Forall₂ (fun code points => Emits c p points code) codes pointss) :
    Emits c p pointss.flatten (codes.forM fun code => code) := by
  induction h with
  | nil => exact (Straight.pure ()).emits
  | cons first _ ih =>
    rw [List.flatten_cons]
    exact first.bind fun _ => ih

/-- A test that may be skipped stays within the region. -/
lemma testOrSkip {branch : Label → Label → Term Label} {test : Emit Value}
    (perm : ∀ done check, (branch done check).targets.Perm [done, check])
    (h : Emits c p [] test) : Emits c p [] (Lowering.testOrSkip branch test) := by
  intro s before current after start
  let ℓ := s.draft.currentLabel
  let done : Label := .split ℓ s.draft.nextSplit
  let check : Label := .split ℓ (s.draft.nextSplit + 1)
  let s₁ := (enterTest branch).next s
  let s₂ := test.next s₁
  let s' := (Lowering.testOrSkip branch test).next s
  obtain ⟨x, marks, adds⟩ := h (start.enterTest branch)
  obtain rfl : marks = [] := List.forall₂_nil_left_iff.1 adds.records.lines
  let flag : Value := .register (.temporary s₂.draft.nextTemporary)
  -- both ways meet in a block whose phi tells the outcome
  have leave : ∀ {before current after}, s₂.At before current (⟨done, []⟩ :: after) →
      s'.At (before ++ [current.push (.leave (.br done))])
        ⟨done, [.phi flag .i1 [(.bool false, .label ℓ),
          (test.result s₁, .label s₂.draft.currentLabel)]]⟩ after :=
    fun inside => inside.rejoin ℓ done (test.result s₁)
  have quiet := Progress.quiet_enterTest s branch
  have quiet' : s₂.Quiet s' := Progress.quiet_rejoin s₂ _ _ _
  refine ⟨skippable ℓ s₂.draft.currentLabel s.draft.nextSplit (branch done check) x flag
    (.bool false) (test.result s₁), [], ?_⟩
  refine ⟨⟨?moves, ?region, ?tidy, ?_, ?_, ?_⟩, ?records⟩
  case tidy =>
    exact Listing.Tidy.append ⟨trivial, adds.code.tidy⟩ ⟨trivial, temporary_ne_callerFrame, trivial⟩
  case moves =>
    intro before current after start
    have moved := leave (adds.code.moves (start.enterTest branch))
    rw [closed_skippable, last_skippable]
    simp only [List.append_assoc, List.cons_append, List.nil_append] at moved ⊢
    exact moved
  case region =>
    have inside := adds.code.region
    rw [(start.enterTest branch).currentLabel, Progress.nextSplit_enterTest] at inside
    have label : s'.draft.currentLabel = done :=
      (leave (adds.code.moves (start.enterTest branch))).currentLabel
    have splits : s'.draft.nextSplit = s₂.draft.nextSplit := Progress.nextSplit_rejoin s₂ _ _ _
    rw [label, splits]
    exact .test _ _ _ (perm done check) inside
  case records =>
    exact ((Progress.Records.of_quiet quiet _).append adds.records).append (.of_quiet quiet' _)
  · exact quiet'.exits.trans (adds.code.exits.trans quiet.exits)
  · exact quiet'.lastBlocks.trans (adds.code.lastBlocks.trans quiet.lastBlocks)
  · exact quiet'.parameters.trans (adds.code.parameters.trans quiet.parameters)

/-- A call site adds a region with its point. -/
lemma site {point : SitePoint} {code : Emit Unit} (straight : Straight 1 code)
    (other : ∀ id, point ≠ .raise id) (outside : p.target.isSplit = false) :
    Emits c p [point] (Lowering.site c p (c.handledAt point) (c.liveAt point) code) := by
  intro s before current after start
  obtain ⟨x, marks, adds, _⟩ := site_spec straight other outside start
  exact ⟨x, marks, adds⟩

end Emits

end Emit

end ObjectBackend.Lowering
