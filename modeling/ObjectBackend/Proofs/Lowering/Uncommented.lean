import ObjectBackend.Proofs.Lowering.Bodies
import ObjectBackend.Proofs.Lowering.Composition
import ObjectBackend.Proofs.Target.Comments

/-!
# Code that is emitted without comments

A method is lowered twice, with comments and without. Both runs fail alike, and what they have
emitted differs by comments only, step by step (`Emit.Uncomments`): a step that appends no comment
does the same in both, since no step looks at lines other than terminators. So the function without
its comments is the function that is emitted without comments (`function_uncommented`).
-/

namespace Except

variable {ε α β γ δ : Type} {R : α → β → Prop} {S : γ → δ → Prop}

/-- Two computations fail alike, or their results are related. -/
inductive Alike (R : α → β → Prop) : Except ε α → Except ε β → Prop where
  | ok {a : α} {b : β} : R a b → Alike R (.ok a) (.ok b)
  | error (e : ε) : Alike R (.error e) (.error e)

namespace Alike

variable {x : Except ε α} {y : Except ε β}

/-- Computations are alike one after the other. -/
lemma bind {f : α → Except ε γ} {g : β → Except ε δ} (alike : Alike R x y)
    (next : ∀ a b, R a b → Alike S (f a) (g b)) : Alike S (x >>= f) (y >>= g) := by
  cases alike with
  | ok related => exact next _ _ related
  | error e => exact .error e

/-- Two computations that begin alike may differ afterwards. -/
lemma bind_same {f : α → Except ε γ} {g : α → Except ε δ}
    (next : ∀ a, x = .ok a → Alike S (f a) (g a)) : Alike S (x >>= f) (x >>= g) := by
  cases x with
  | ok a => exact next a rfl
  | error e => exact .error e

/-- Traversals are alike if their steps are. -/
lemma mapM {f : γ → Except ε α} {g : γ → Except ε β} {xs : List γ}
    (each : ∀ c ∈ xs, Alike R (f c) (g c)) : Alike (List.Forall₂ R) (xs.mapM f) (xs.mapM g) := by
  induction xs with
  | nil => exact .ok .nil
  | cons c xs ih =>
    obtain ⟨first, others⟩ := List.forall_mem_cons.1 each
    rw [List.mapM_cons, List.mapM_cons]
    refine first.bind fun a b related => (ih others).bind fun as bs relateds => .ok ?_
    exact .cons related relateds

/-- What is known of both results can be used to relate them. -/
lemma imp {R' : α → β → Prop} (alike : Alike R x y)
    (related : ∀ a b, x = .ok a → y = .ok b → R a b → R' a b) : Alike R' x y := by
  cases alike with
  | ok holds => exact .ok (related _ _ rfl rfl holds)
  | error e => exact .error e

/-- If the second result is a function of the first, the first computation gives both. -/
lemma eq_map {f : α → β} (alike : Alike (fun a b => b = f a) x y) : y = x.map f := by
  cases alike with
  | ok same => rw [same, Except.map]
  | error e => rfl

end Alike

end Except

namespace ObjectBackend

open Target

namespace Target

variable {ℓ σ τ : Type}

namespace Block

variable {b : Block ℓ σ}

/-- Comments do not matter to whether a block is left. -/
lemma isTerminated_uncommented : b.uncommented.isTerminated = b.isTerminated := by
  rw [isTerminated, uncommented, List.any_filter]
  congr 1
  funext l
  cases l <;> rfl

/-- A line of code is kept. -/
lemma uncommented_push {l : Line ℓ σ} (code : l.isComment = false) :
    (b.push l).uncommented = b.uncommented.push l := by
  rw [uncommented, push, List.filter_append, List.filter_cons_of_pos (by simp [code])]
  rfl

/-- A comment is deleted. -/
lemma uncommented_push_comment {l : Line ℓ σ} (comment : l.isComment = true) :
    (b.push l).uncommented = b.uncommented := by
  rw [uncommented, push, List.filter_append, List.filter_cons_of_neg (by simp [comment]),
    List.filter_nil, List.append_nil]
  rfl

/-- A terminator is kept. -/
lemma uncommented_terminate {t : Term ℓ} :
    (b.terminate t).uncommented = b.uncommented.terminate t := by
  rw [terminate, terminate, isTerminated_uncommented]
  split
  · rfl
  · exact uncommented_push rfl

/-- The sources of phis do not matter to the comments of a block. -/
lemma uncommented_mapSources (f : σ → τ) :
    (b.mapSources f).uncommented = b.uncommented.mapSources f := by
  simp only [mapSources, uncommented, List.filter_map, Function.comp_def, Line.isComment_mapSources]

end Block

namespace Draft

variable {d : Draft ℓ}

/-- A function under construction without its comments. -/
def uncommented (d : Draft ℓ) : Draft ℓ := { d with blocks := d.blocks.map Block.uncommented }

/-- Changes of one block can be made without comments. -/
lemma map_modify {f g : Block ℓ (Source ℓ) → Block ℓ (Source ℓ)} {bs : List (Block ℓ (Source ℓ))}
    {i : Nat} (same : ∀ b, (f b).uncommented = g b.uncommented) :
    (bs.modify i f).map Block.uncommented = (bs.map Block.uncommented).modify i g := by
  refine List.ext_getElem? fun j => ?_
  rw [List.getElem?_map, List.getElem?_modify, List.getElem?_modify, List.getElem?_map]
  cases bs[j]? with
  | none => rfl
  | some b =>
    change some _ = some _
    dsimp only
    split
    · exact congrArg some (same b)
    · rfl

/-- A line of code that is pushed is kept. -/
lemma uncommented_push {l : Line ℓ (Source ℓ)} (code : l.isComment = false) :
    (d.push l).uncommented = d.uncommented.push l := by
  rw [uncommented, push, map_modify (g := (·.push l)) fun b => Block.uncommented_push code]
  rfl

/-- A comment that is pushed is deleted. -/
lemma uncommented_push_comment {l : Line ℓ (Source ℓ)} (comment : l.isComment = true) :
    (d.push l).uncommented = d.uncommented := by
  have same : (d.blocks.modify d.current (·.push l)).map Block.uncommented =
      d.blocks.map Block.uncommented := by
    rw [map_modify (g := id) fun b => Block.uncommented_push_comment comment, List.modify_id]
  rw [uncommented, push, same]
  rfl

/-- A terminator that is put is kept. -/
lemma uncommented_terminate {t : Term ℓ} :
    (d.terminate t).uncommented = d.uncommented.terminate t := by
  rw [uncommented, terminate,
    map_modify (g := (·.terminate t)) fun b => Block.uncommented_terminate]
  rfl

/-- A block at the end is kept. -/
lemma uncommented_appendBlock (l : ℓ) :
    (d.appendBlock l).uncommented = d.uncommented.appendBlock l := by
  rw [uncommented, appendBlock, List.map_append]
  rfl

/-- A block that is inserted is kept. -/
lemma uncommented_insertBlock (l : ℓ) :
    (d.insertBlock l).uncommented = d.uncommented.insertBlock l := by
  rw [insertBlock, insertBlock, uncommented, uncommented, List.length_map, List.map_insertIdx]
  rfl

/-- Where lines go to is kept. -/
lemma uncommented_goTo [DecidableEq ℓ] (l : ℓ) : (d.goTo l).uncommented = d.uncommented.goTo l := by
  have same : d.uncommented.blocks.findIdx? (·.label = l) = d.blocks.findIdx? (·.label = l) :=
    List.findIdx?_map
  rw [goTo, goTo, same]
  split <;> rfl

variable [BlockLabel ℓ]

/-- Comments do not matter to where lines go. -/
lemma currentLabel_uncommented : d.uncommented.currentLabel = d.currentLabel := by
  rw [currentLabel, currentBlock?, currentLabel, currentBlock?, uncommented, List.getElem?_map,
    Option.map_map]
  rfl

/-- The blocks of a finished draft are left, and their phis resolved. -/
lemma blocks_finish (d : Draft ℓ) : d.finish.blocks =
    d.blocks.map fun b => (b.terminate .unreachable).mapSources d.resolve := List.map_map

/-- A draft may be finished before or after its comments are deleted. -/
lemma uncommented_finish : d.finish.uncommented = d.uncommented.finish := by
  have block (b : Block ℓ (Source ℓ)) :
      ((b.terminate .unreachable).mapSources d.resolve).uncommented =
        (b.uncommented.terminate .unreachable).mapSources d.resolve := by
    rw [Block.uncommented_mapSources, Block.uncommented_terminate]
  have blocks : d.finish.blocks.map Block.uncommented = d.uncommented.finish.blocks := by
    rw [blocks_finish, blocks_finish, List.map_map, uncommented, List.map_map]
    exact List.map_congr_left fun b _ => block b
  rw [Function.uncommented, blocks]
  rfl

end Draft

end Target

namespace Lowering

variable {α β : Type}

/-- The progress without the comments that have been emitted. -/
def Progress.uncommented (s : Progress) : Progress := { s with draft := s.draft.uncommented }

/-- Two steps give the same and differ in the comments they emit. -/
structure Emit.Uncomments (e e' : Emit α) : Prop where
  result : ∀ s, e'.result s.uncommented = e.result s
  next : ∀ s, e'.next s.uncommented = (e.next s).uncommented

/-- Whether a line does something. -/
def isCode (l : DraftLine) : Bool := !l.isComment

namespace Emit.Uncomments

variable {e e' : Emit α} {f f' : α → Emit β}

/-- Code is freed of its comments one after the other. -/
lemma bind (first : e.Uncomments e') (rest : ∀ s, (f (e.result s)).Uncomments (f' (e.result s))) :
    (e >>= f).Uncomments (e' >>= f') where
  result s := by
    change (f' (e'.result s.uncommented)).result (e'.next s.uncommented) = _
    rw [first.result, first.next]
    exact (rest s).result _
  next s := by
    change (f' (e'.result s.uncommented)).next (e'.next s.uncommented) = _
    rw [first.result, first.next]
    exact (rest s).next _

/-- A step on the draft. -/
lemma onDraft {g : Draft Label → α × Draft Label}
    (same : ∀ d, g d.uncommented = ((g d).1, (g d).2.uncommented)) :
    (Emit.onDraft g).Uncomments (Emit.onDraft g) where
  result s := by
    change (g s.draft.uncommented).1 = (g s.draft).1
    rw [same]
  next s := by
    change { s with draft := (g s.draft.uncommented).2 } =
      { s with draft := (g s.draft).2.uncommented }
    rw [same]

/-- Steps that append no comment do the same without comments. -/
lemma of_composed (composed : e.Composed isCode) : e.Uncomments e := by
  induction composed with
  | pure => exact ⟨fun _ => rfl, fun _ => rfl⟩
  | bind _ _ ih ih' => exact ih.bind ih'
  | line holds =>
    refine onDraft fun d => ?_
    rw [Draft.uncommented_push (Bool.not_eq_true' _ ▸ holds)]
  | leave =>
    refine onDraft fun d => ?_
    rw [Draft.uncommented_terminate]
  | fresh => exact onDraft fun _ => rfl
  | here =>
    refine onDraft fun d => ?_
    rw [Draft.currentLabel_uncommented]
  | appendBlock l =>
    refine onDraft fun d => ?_
    rw [Draft.uncommented_appendBlock]
  | insertBlock l =>
    refine onDraft fun d => ?_
    rw [Draft.uncommented_insertBlock]
  | split first =>
    refine onDraft fun d => ?_
    rw [Draft.split, ← Draft.uncommented_insertBlock]
    rfl
  | continueAt l =>
    refine onDraft fun d => ?_
    rw [Draft.uncommented_goTo]
  | finishBlock id =>
    refine onDraft fun d => ?_
    rw [Draft.finishBlock, Draft.currentLabel_uncommented]
    rfl
  | @aside _ f apart _ =>
    -- such code neither reads nor changes the draft
    have alone (s : Progress) := apart s s.draft.uncommented
    have kept (s : Progress) : (f s).2.draft = s.draft := by
      have same := congrArg (fun r => r.2.draft) (apart s s.draft)
      exact same
    refine ⟨fun s => ?_, fun s => ?_⟩
    · change (f { s with draft := s.draft.uncommented }).1 = (f s).1
      rw [alone]
    · change (f { s with draft := s.draft.uncommented }).2 =
        { (f s).2 with draft := (f s).2.draft.uncommented }
      rw [alone, kept]

/-- Codes are freed of their comments one by one. -/
lemma forM {codes codes' : List (Emit Unit)} (related : List.Forall₂ Emit.Uncomments codes codes') :
    (codes.forM fun code => code).Uncomments (codes'.forM fun code => code) := by
  induction related with
  | nil => exact of_composed (.pure ())
  | cons first _ ih => exact first.bind fun _ => ih

end Emit.Uncomments

end Lowering

/-- A back end that is told to emit no comments. -/
def Backend.uncommented (b : Backend) : Backend :=
  { b with settings := { b.settings with comments := false } }

namespace Lowering

/-- The context of a method for which no comments are emitted. -/
def Context.uncommented (c : Context) : Context := { c with backend := c.backend.uncommented }

variable {c : Context} {id : BlockId} {b : BasicBlock}

section Composed

/-- Ordinary lines are not comments. -/
lemma isCode_of_isOrdinary (l : DraftLine) (ordinary : l.isOrdinary = true) : isCode l = true :=
  (Bool.and_eq_true_iff.1 ordinary).1

/-- Ordinary code has no comments. -/
lemma Emit.Ordinary.uncomments {α : Type} {e : Emit α} (ordinary : e.Ordinary) : e.Uncomments e :=
  .of_composed (ordinary.mono isCode_of_isOrdinary)

/-- A phi is ordinary. -/
lemma phi_composed (p : Phi) : Except.Ensures Emit.Ordinary (phi c id p) := by
  intro code given
  obtain ⟨l, isPhi, rfl⟩ := phi_spec p code given
  exact .line isPhi.isOrdinary

/-- A handler gets its exception by a call, and may copy it. -/
lemma receiveException_composed {p : DraftLine → Bool}
    (wider : ∀ l, l.isOrdinary = true → p l = true)
    (call : ∀ n, p (.define (.register (.temporary n))
      (.call .ptr (.symbol (.runtime .catchException)) [])) = true) :
    Except.Ensures (Emit.Composed p) (receiveException c id b) := by
  have calls : (Emit.call .ptr (.runtime .catchException) []).Composed p :=
    .bind (e := .define (.call .ptr (.symbol (.runtime .catchException)) []))
      (f := fun v => pure (some v)) (.define call) fun _ => .pure _
  dsimp only [receiveException]
  split
  · exact .pure (.pure _)
  refine .bind fun _ _ => .pure (.bind calls fun s => ?_)
  cases b.exceptionVariable with
  | none => exact .pure _
  | some v =>
    let exception : Value := .register (.temporary s.draft.nextTemporary)
    have copies : (Emit.copyTo v .ptr exception).Ordinary := .copyTo v .ptr rfl
    exact copies.mono wider

end Composed

/-- Code for a comment emits one or none. -/
lemma comment_uncomments (i : Instruction) :
    (comment c i).Uncomments (comment c.uncommented i) := by
  change (comment c i).Uncomments (pure ())
  rw [comment]
  split
  · exact ⟨fun _ => rfl, fun s =>
      congrArg (fun d => { s with draft := d }) (Draft.uncommented_push_comment rfl).symm⟩
  · exact .of_composed (.pure ())

/-- The codes of the instructions of a block are alike but for comments. -/
lemma instructionCodes_alike :
    Except.Alike (List.Forall₂ Emit.Uncomments) (instructionCodes c id b)
      (instructionCodes c.uncommented id b) := by
  refine .mapM ?_
  rintro ⟨i, position⟩ _
  change Except.Alike _ _ (instruction c id b i position >>= _)
  refine .bind_same fun code given => .ok ?_
  exact (comment_uncomments i).bind fun _ => (instruction_ordinary i position code given).uncomments

/-- The code of a block is alike but for comments. -/
lemma block_alike : Except.Alike Emit.Uncomments (block c id b) (block c.uncommented id b) := by
  change Except.Alike _ (_ >>= _) (b.phis.mapM (phi c id) >>= _)
  refine .bind_same fun phis phisGiven => ?_
  change Except.Alike _ (_ >>= _) (receiveException c id b >>= _)
  refine .bind_same fun received receivedGiven => ?_
  refine .bind instructionCodes_alike fun codes codes' related => ?_
  change Except.Alike _ (_ >>= _) (terminator c id b >>= _)
  refine .bind_same fun leaving leavingGiven => .ok ?_
  have phiCodes : (phis.forM fun code => code).Ordinary := .forM fun code mem => by
    obtain ⟨p, _, given⟩ := Except.exists_of_mem_of_mapM_eq_ok phisGiven mem
    exact phi_composed p code given
  have receiving : received.Uncomments received := .of_composed
    (receiveException_composed isCode_of_isOrdinary (fun _ => rfl) received receivedGiven)
  exact (Emit.Uncomments.of_composed (.continueAt _)).bind fun _ =>
    phiCodes.uncomments.bind fun _ => receiving.bind fun _ =>
    (Emit.Uncomments.forM related).bind fun _ =>
    (Emit.Ordinary.uncomments (terminator_ordinary leaving leavingGiven)).bind fun _ =>
    (Emit.Uncomments.of_composed (.finishBlock id)).bind fun _ =>
    (landingPad_ordinary id b).uncomments

/-- The shared exit has no comments. -/
lemma exitBlock_uncomments : (exitBlock c).Uncomments (exitBlock c) := by
  rw [exitBlock_eq]
  exact .of_composed
    (.recorded (fun _ _ => rfl) fun s => sharedExit_composed isCode_of_isOrdinary rfl)

/-- The code of a body is alike but for comments. -/
lemma body_alike : Except.Alike Emit.Uncomments (body c) (body c.uncommented) := by
  have blocks : Except.Alike (List.Forall₂ Emit.Uncomments)
      (c.body.numberedBlocks.mapM fun e => block c e.1 e.2)
      (c.body.numberedBlocks.mapM fun e => block c.uncommented e.1 e.2) :=
    .mapM fun _ _ => block_alike
  have code (codes codes' : List (Emit Unit))
      (related : List.Forall₂ Emit.Uncomments codes codes') :
      Emit.Uncomments
        (do
          start c
          c.body.numberedBlocks.forM fun e => .appendBlock (.block e.1)
          codes.forM fun code => code
          exitBlock c
          unwindBlock c)
        (do
          start c
          c.body.numberedBlocks.forM fun e => .appendBlock (.block e.1)
          codes'.forM fun code => code
          exitBlock c
          unwindBlock c) := by
    have labels : Emit.Ordinary (c.body.numberedBlocks.forM fun e => .appendBlock (.block e.1)) :=
      .forM fun _ _ => .appendBlock _
    exact (start_ordinary c).uncomments.bind fun _ => labels.uncomments.bind fun _ =>
      (Emit.Uncomments.forM related).bind fun _ => exitBlock_uncomments.bind fun _ =>
      (unwindBlock_ordinary c).uncomments
  rw [body, body]
  change Except.Alike _ _ (if c.body.blocks.isEmpty then _ else _)
  split
  · exact .error _
  · exact blocks.bind fun codes codes' related => .ok (code codes codes' related)

/-- The function that is emitted without comments is the function without its comments. -/
lemma function_uncommented (pools : Pools) :
    (function c.uncommented).run pools =
      ((function c).run pools).map fun r => (r.1.uncommented, r.2) := by
  rw [function_run, function_run]
  refine Except.Alike.eq_map ?_
  change Except.Alike _ (parameters c >>= _) (parameters c >>= _)
  refine .bind_same fun ps _ => .bind body_alike fun code code' related => .ok ?_
  have empty : (Progress.initial c.uncommented ps pools) =
      (Progress.initial c ps pools).uncommented := rfl
  dsimp only
  rw [empty, related.next]
  exact Prod.ext Draft.uncommented_finish.symm rfl

end Lowering

end ObjectBackend
