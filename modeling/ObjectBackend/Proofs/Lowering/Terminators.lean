import ObjectBackend.Proofs.Lowering.Instructions

/-!
# The code at the ends of blocks

The phis of a block name, for each edge of the source program, the blocks that the emitted edge
comes from (`phi_spec`). The code of a terminator is straight and leaves the block to its targets,
to the shared exit or, if it throws an exception, to where exceptions go (`terminator_leaves`).
-/

namespace ObjectBackend

open Target

/-- The blocks that a terminator goes to, one for each edge. -/
def Terminator.targets : Terminator → List BlockId
  | jump target => [target]
  | branch _ _ consequent alternative | binaryBranch _ _ _ consequent alternative =>
    [consequent, alternative]
  | switch _ table otherwise => otherwise :: table.map (·.2)
  | exit _ | raise _ | unreachable => []

/-- The edges of a terminator to a block are the times that it names the block. -/
lemma Terminator.edgesTo_eq (t : Terminator) (target : BlockId) :
    t.edgesTo target = t.targets.count target := by
  cases t with
  | _ => rfl

namespace Lowering

open Emit Listing

variable {c : Context} {id : BlockId} {b : BasicBlock} {v : Var}

section Phis

/-- Where a phi of a block takes its values from, for the edges from another block. -/
def sourcesFrom (c : Context) (id source : BlockId) : List (Source Label) :=
  (c.body.block? source).elim [] fun b =>
    List.replicate (b.terminator.targets.count id) (.block source) ++
      List.replicate (if c.hasLanding b then (b.tryCatches.map (·.handler)).count id else 0)
        (.label (.landing source))

/-- Where a phi of a block takes its values from. -/
def phiSources (c : Context) (id : BlockId) (phi : Phi) : List (Source Label) :=
  (if id = .entry then [.label (startEnd c)] else []) ++
    phi.incomings.flatMap fun i => sourcesFrom c id i.source

/-- The values of a phi of a block, and where it takes them from. -/
def phiIncomings (c : Context) (id : BlockId) (phi : Phi) : List (Value × Source Label) :=
  (if id = .entry then [(.undef, .label (startEnd c))] else []) ++
    phi.incomings.flatMap fun i => (sourcesFrom c id i.source).map (Value.ofVar i.value, ·)

/-- The values of a phi come from its sources. -/
lemma map_phiIncomings (phi : Phi) :
    (phiIncomings c id phi).map Prod.snd = phiSources c id phi := by
  rw [phiIncomings, List.map_append, List.map_flatMap, phiSources]
  simp only [List.map_map, Function.comp_def, List.map_id']
  split <;> rfl

/-- The line of a phi. All its variables have one type. -/
def IsPhi (c : Context) (id : BlockId) (phi : Phi) (l : DraftLine) : Prop :=
  ∃ type, c.typeOf phi.receiver = .ok type ∧ (∀ i ∈ phi.incomings, c.typeOf i.value = .ok type) ∧
    l = .phi (.ofVar phi.receiver) type (phiIncomings c id phi)

/-- A value comes in on an edge from each source, if it is of the type of the phi. -/
lemma incomingEdges_spec (type : IrType) (i : Incoming) :
    Except.Ensures (fun edges => c.typeOf i.value = .ok type ∧
      (sourcesFrom c id i.source).map (Value.ofVar i.value, ·) = edges)
      (incomingEdges c id type i) := by
  dsimp only [incomingEdges]
  refine .bind fun _ checked => ?_
  split
  · exact .error _
  case _ source found =>
    refine .pure ⟨expect_spec _ checked, ?_⟩
    rw [sourcesFrom, found, Terminator.edgesTo_eq]
    rfl

/-- A phi is lowered to a line with its sources. -/
lemma phi_spec (p : Phi) :
    Except.Ensures (fun code => ∃ l, IsPhi c id p l ∧ code = Emit.line l) (phi c id p) := by
  refine .bind fun type typed => .bind fun edges given => ?_
  obtain ⟨types, each⟩ := (List.forall₂_and_left _ _).1
    (Except.Ensures.mapM (fun i _ => incomingEdges_spec type i) edges given)
  refine .pure ⟨_, ⟨type, typed, types, rfl⟩, ?_⟩
  have each : p.incomings.map (fun i => (sourcesFrom c id i.source).map (Value.ofVar i.value, ·)) =
      edges := by
    rw [← List.forall₂_eq_eq_eq, List.forall₂_map_left_iff]
    exact each
  rw [phiIncomings, List.flatMap_def, each]
  rfl

/-- The lines of the phis of a block. -/
lemma phis_write {phis : List Phi} {codes : List (Emit Unit)}
    (each : List.Forall₂ (fun p code => ∃ l, IsPhi c id p l ∧ code = Emit.line l) phis codes)
    (s : Progress) :
    ∃ lines, List.Forall₂ (IsPhi c id) phis lines ∧
      s.Writes lines ((codes.forM fun code => code).next s) := by
  induction each generalizing s with
  | nil => exact ⟨[], .nil, .refl s⟩
  | @cons p code _ codes first _ ih =>
    obtain ⟨l, isPhi, rfl⟩ := first
    obtain ⟨type, typed, types, rfl⟩ := isPhi
    obtain ⟨lines, arePhis, writes⟩ := ih ((Emit.line (.phi _ type _)).next s)
    exact ⟨_ :: lines, .cons ⟨type, typed, types, rfl⟩ arePhis,
      (Progress.Writes.line s rfl).trans writes⟩

end Phis

section Leaving

/-- A block has been left by its terminator, behind some lines. An exception that it throws is
marked, and so is the value that it returns through the shared exit. -/
structure Progress.Leaves (c : Context) (id : BlockId) (b : BasicBlock) (s : Progress)
    (lines : List DraftLine) (t : Term Label) (raised : List Mark)
    (exits : List (Option Value × Label)) (s' : Progress) : Prop where
  plain : ∀ l ∈ lines, l.isPlain = true
  tidy : Line.Tidy [] lines
  /-- A method with a frame returns through the shared exit. -/
  returns : ∀ o, t = .ret o → c.frameSize? = none
  moves : ∀ {before current after}, s.At before current after →
    s'.draft.Cursor before ⟨current.label, current.lines ++ lines ++ [.leave t]⟩ after
  splits : s'.draft.nextSplit = s.draft.nextSplit
  targets : t.targets = b.terminator.targets.map .block ++ exits.map (fun _ => .exit) ++
    raised.map fun _ => (Place.ofBlock id b).target
  records : Records c (.ofBlock id b) (raisePoints id b) s (ofLines lines) raised s'
  sources : (∀ e ∈ exits, e.2 = s.draft.currentLabel) ∧
    ∀ m ∈ raised, m.source = s.draft.currentLabel
  exits : s'.exits = s.exits ++ exits
  lastBlocks : s'.draft.lastBlocks = s.draft.lastBlocks
  parameters : s'.draft.parameters = s.draft.parameters

/-- Code that leaves a block by its terminator. -/
def Emit.Leaves (c : Context) (id : BlockId) (b : BasicBlock) (e : Emit Unit) : Prop :=
  ∀ ⦃s before current after⦄, Progress.At s before current after →
    ∃ lines t raised exits, s.Leaves c id b lines t raised exits (e.next s)

/-- Straight code, and then a terminator of the same targets. -/
lemma Emit.Straight.leaves {α : Type} {n : Nat} {e : Emit α} {t : α → Term Label}
    (straight : Straight n e) (targets : ∀ a, (t a).targets = b.terminator.targets.map .block)
    (returns : ∀ a o, t a = .ret o → c.frameSize? = none) (stays : raisePoints id b = []) :
    Emit.Leaves c id b (e >>= fun a => Emit.leave (t a)) := by
  intro s before current after start
  obtain ⟨lines, plain, _, tidy, writes⟩ := straight s
  refine ⟨lines, t (e.result s), [], [], plain, tidy, returns _, ?moves, writes.splits, ?_, ?_, ?_,
    ?_, ?_, ?_⟩
  case moves =>
    intro before current after start
    have here := writes.moves start
    exact here.cursor.terminate here.isOpen.isTerminated _
  · rw [targets]
    simp
  · rw [stays]
    have quiet : s.Quiet ((e >>= fun a => Emit.leave (t a)).next s) :=
      writes.quiet.trans ⟨rfl, rfl, rfl, rfl, rfl, rfl⟩
    exact .of_quiet quiet _
  · simp
  · rw [List.append_nil]
    exact writes.quiet.exits
  · exact writes.quiet.lastBlocks
  · exact writes.quiet.parameters

/-- A terminator to the same blocks leaves its block. -/
lemma Emit.leave_leaves {t : Term Label} (targets : t.targets = b.terminator.targets.map .block)
    (returns : ∀ o, t = .ret o → c.frameSize? = none) (stays : raisePoints id b = []) :
    Emit.Leaves c id b (Emit.leave t) :=
  (Straight.pure ()).leaves (t := fun _ => t) (fun _ => targets) (fun _ => returns) stays

/-- A condition on one operand appends its lines, without a call. -/
lemma branchTest_straight (condition : BranchCondition) (operand : Var) :
    Except.Ensures (Straight 0) (branchTest c condition operand) := by
  refine .bind fun type _ => ?_
  dsimp only
  split
  · exact .error _
  · split
    · exact .error _
    · split
      · exact .error _
      · exact .pure (.define (.icmp ..) rfl)

/-- A condition on two operands appends its lines, without a call. -/
lemma binaryBranchTest_straight (condition : BinaryBranchCondition) (first second : Var) :
    Except.Ensures (Straight 0) (binaryBranchTest c condition first second) := by
  refine .bind fun type _ => .bind fun _ _ => ?_
  dsimp only
  split
  · split
    · exact .pure (.define (.icmp ..) rfl)
    · exact .error _
  · split
    · exact .pure (.define (.icmp ..) rfl)
    · exact .error _

/-- A method returns at once if it has no frame, and through the shared exit if it has one. -/
lemma returnValue_leaves {v : Option Var} (ends : b.terminator = .exit v) (value : Option Value) :
    Emit.Leaves c id b (returnValue c value) := by
  have noTargets : b.terminator.targets = [] := by rw [ends]; rfl
  have stays : raisePoints id b = [] := by rw [raisePoints, ends]; rfl
  rw [returnValue]
  split
  case isTrue none =>
    exact Emit.leave_leaves (by rw [noTargets]; rfl)
      (fun _ _ => Option.isNone_iff_eq_none.1 none) stays
  case isFalse =>
    intro s before current after start
    refine ⟨[], .br .exit, [], [(value, s.draft.currentLabel)], List.forall_mem_nil _, trivial,
      (by rintro _ ⟨⟩), ?_, rfl, ?_, ?_, ?_, rfl, rfl, rfl⟩
    · intro before current after start
      rw [List.append_nil]
      exact start.cursor.terminate start.isOpen.isTerminated _
    · rw [noTargets]
      rfl
    · rw [stays]
      exact .none (by rfl) (by rfl) (by rfl) _
    · simp

/-- An exit leaves its block. -/
lemma exit_leaves {v : Option Var} (ends : b.terminator = .exit v) :
    Except.Ensures (Emit.Leaves c id b) (Lowering.exit c v) := by
  cases v with
  | none =>
    dsimp only [Lowering.exit]
    split
    · exact .pure (returnValue_leaves ends _)
    · exact .error _
  | some v =>
    dsimp only [Lowering.exit]
    split
    · exact .error _
    · exact .bind fun _ _ => .pure (returnValue_leaves ends _)

/-- Throw an exception, which goes to the resulting label. -/
def throwAt (c : Context) (id : BlockId) (b : BasicBlock) (v : Var) : Emit Label := do
  let _ ← Emit.call .void (.runtime .throw) [.ptr (.ofVar v)]
  let site ← beginSite c.frameSize? [] (c.handledAt (.raise id))
  exceptionTarget (.ofBlock id b) site

/-- An exception is thrown before its call site is registered, with no references to keep. -/
lemma throwAt_spec (throws : (c.body.block? id).map (·.terminator) = some (.raise v))
    {s : Progress} {before after : List DraftBlock} {current : DraftBlock}
    (start : s.At before current after) :
    let p : Place := .ofBlock id b
    (throwAt c id b v).result s = p.target ∧
    ∃ mark : Mark, SiteLines c mark.number mark.lines (.raise id) ∧
      (∀ l ∈ mark.lines, l.isPlain = true) ∧ Line.Tidy [] mark.lines ∧
      mark.number = s.pools.sites.sites.length ∧
      mark.source = s.draft.currentLabel ∧
      (s.record c p (.raise id) mark).Writes mark.lines ((throwAt c id b v).next s) := by
  intro p
  let thrown : DraftLine := .run (.call .void (.symbol (.runtime .throw)) [.ptr (.ofVar v)])
  let s₁ := (Emit.line thrown).next s
  have throws₁ : s.Writes [thrown] s₁ := .line s rfl
  obtain ⟨number, stores⟩ := beginSite_spec s₁ c.frameSize? [] (c.handledAt (.raise id))
  let s₂ := (beginSite c.frameSize? [] (c.handledAt (.raise id))).next s₁
  let lines : List DraftLine :=
    thrown :: siteStores c.frameSize? [] s.pools.sites.sites.length s.draft.nextTemporary
  let mark : Mark := ⟨s.pools.sites.sites.length, s.draft.currentLabel, lines⟩
  have moves : ∀ {before current after}, s.At before current after →
      s₂.At before ⟨current.label, current.lines ++ lines⟩ after := by
    intro before current after start
    have thrown := throws₁.moves start
    have stored := stores.moves ⟨thrown.cursor, thrown.isOpen⟩
    rw [List.append_assoc] at stored
    exact stored
  obtain ⟨target, recorded⟩ := exceptionTarget_spec p s.pools.sites.sites.length lines s₂
  have label : s₂.draft.currentLabel = s.draft.currentLabel :=
    (moves start).currentLabel.trans start.currentLabel.symm
  rw [label] at recorded
  -- the number of the site does not depend on the lines before it
  have site : (beginSite c.frameSize? [] (c.handledAt (.raise id))).result s₁ =
      s.pools.sites.sites.length := number
  have ends : (throwAt c id b v).next s = { s₂ with
      landings := s₂.landings ++ p.landings [mark]
      unwinds := s₂.unwinds || p.unwinds [mark] } := by
    rw [← recorded, ← site]
    rfl
  have result : (throwAt c id b v).result s = p.target := by
    rw [← target, ← site]
    rfl
  refine ⟨result, mark, ⟨v, _, throws, rfl⟩, ?_, ⟨trivial, tidy_siteStores _ _ _ _⟩, rfl, rfl,
    ?writes⟩
  · exact List.forall_mem_cons.2 ⟨rfl, isPlain_siteStores _ _ _ _⟩
  case writes =>
    rw [ends]
    refine ⟨fun start => ?_, stores.splits, ?_⟩
    · have here := moves ⟨start.cursor, start.isOpen⟩
      exact ⟨here.cursor, here.isOpen⟩
    · exact ⟨stores.quiet.sites, congrArg (· ++ _) stores.quiet.landings, stores.quiet.exits,
        congrArg (· || _) stores.quiet.unwinds, stores.quiet.lastBlocks,
        stores.quiet.parameters⟩

/-- An exception is thrown and then goes where exceptions go. -/
lemma raise_leaves (found : c.body.block? id = some b) (ends : b.terminator = .raise v) :
    Except.Ensures (Emit.Leaves c id b) (raise c id b v) := by
  refine .bind fun _ _ => .bind fun handled given => .pure ?_
  have eq : handled = c.handledAt (.raise id) := by
    rw [handledClasses_eq handled given, Context.handledAt, found]
    rfl
  rw [eq]
  let leaving : Emit Unit := throwAt c id b v >>= fun target => Emit.leave (.br target)
  change Emit.Leaves c id b leaving
  have throws : (c.body.block? id).map (·.terminator) = some (.raise v) := by
    rw [found, Option.map_some, ends]
  intro s before current after start
  obtain ⟨target, mark, lines, plain, tidy, number, source, writes⟩ :=
    throwAt_spec (b := b) throws start
  have quiet : (s.record c (.ofBlock id b) (.raise id) mark).Quiet (leaving.next s) :=
    writes.quiet.trans ⟨rfl, rfl, rfl, rfl, rfl, rfl⟩
  refine ⟨mark.lines, .br (Place.ofBlock id b).target, [mark], [], plain, tidy, (by rintro _ ⟨⟩),
    ?moves, writes.splits, ?targets, ?records, ?sources, ?exits, quiet.lastBlocks,
    quiet.parameters⟩
  case moves =>
    intro before current after start
    have here := writes.moves ⟨start.cursor, start.isOpen⟩
    rw [Emit.next_bind, target]
    exact here.cursor.terminate here.isOpen.isTerminated _
  case targets =>
    rw [ends]
    rfl
  case records =>
    rw [raisePoints, ends]
    exact .of_record lines (List.infix_refl _) number quiet
  case sources => simp [source]
  case exits =>
    rw [List.append_nil]
    exact quiet.exits

/-- The code of a terminator leaves its block. -/
lemma terminator_leaves (found : c.body.block? id = some b) :
    Except.Ensures (Emit.Leaves c id b) (terminator c id b) := by
  rw [terminator.eq_def]
  cases ends : b.terminator with
  | jump target =>
    refine .pure (Emit.leave_leaves ?_ (by rintro _ ⟨⟩) ?_)
    · rw [ends]
      rfl
    · rw [raisePoints, ends]
      rfl
  | branch condition operand consequent alternative =>
    refine .bind fun test given => .pure ?_
    refine (branchTest_straight _ _ test given).leaves (fun _ => ?_) (by rintro _ _ ⟨⟩) ?_
    · rw [ends]
      rfl
    · rw [raisePoints, ends]
      rfl
  | binaryBranch condition first second consequent alternative =>
    refine .bind fun test given => .pure ?_
    refine (binaryBranchTest_straight _ _ _ test given).leaves (fun _ => ?_) (by rintro _ _ ⟨⟩) ?_
    · rw [ends]
      rfl
    · rw [raisePoints, ends]
      rfl
  | switch condition table otherwise =>
    refine .bind fun _ _ => .pure (Emit.leave_leaves ?_ (by rintro _ ⟨⟩) ?_)
    · rw [ends, Term.targets, Terminator.targets, List.map_cons, List.map_map, List.map_map]
      rfl
    · rw [raisePoints, ends]
      rfl
  | exit value => exact exit_leaves ends
  | raise exception => exact raise_leaves found ends
  | unreachable =>
    refine .pure (Emit.leave_leaves ?_ (by rintro _ ⟨⟩) ?_)
    · rw [ends]
      rfl
    · rw [raisePoints, ends]
      rfl

end Leaving

end Lowering

end ObjectBackend
