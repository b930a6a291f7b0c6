import ObjectBackend.Proofs.Lowering.Uncommented
import ObjectBackend.Proofs.Source.Description

/-!
# Neat functions

In the function of a method all registers have plain names, and comments stay on their lines,
because they describe instructions (`function_isNeat`). Each step of emission keeps that up; the phi
of the shared exit does because of what has been recorded for it.
-/

namespace ObjectBackend

open Target

namespace Target

/-- An ordinary value has a plain register. -/
lemma Value.hasPlainRegister_of_isOrdinary {v : Value} (ordinary : v.isOrdinary = true) :
    v.HasPlainRegister := by
  cases v with
  | register r =>
    refine Local.plain_text fun name eq => ?_
    rw [eq] at ordinary
    cases ordinary
  | _ => trivial

/-- A line of code is neat if its registers have plain names. -/
lemma Line.isNeat_of_values {ℓ σ : Type} {l : Line ℓ σ} (code : l.isComment = false)
    (own : ∀ v ∈ l.values, v.HasPlainRegister) : l.IsNeat := by
  cases l with
  | comment => cases code
  | _ => exact own

/-- An ordinary line is neat. -/
lemma Line.isNeat_of_isOrdinary {ℓ σ : Type} {l : Line ℓ σ} (ordinary : l.isOrdinary = true) :
    l.IsNeat := by
  obtain ⟨code, values⟩ := Bool.and_eq_true_iff.1 ordinary
  exact isNeat_of_values (by simpa using code) fun v mem =>
    Value.hasPlainRegister_of_isOrdinary (List.all_eq_true.1 values v mem)

/-- The sources of phis do not matter to whether a line is neat. -/
lemma Line.IsNeat.mapSources {ℓ σ τ : Type} {l : Line ℓ σ} (neat : l.IsNeat) (f : σ → τ) :
    (l.mapSources f).IsNeat := by
  cases l with
  | phi =>
    refine isNeat_of_values rfl ?_
    rw [values_mapSources]
    exact neat
  | _ => exact neat

namespace Draft

variable {d : Draft Label}

/-- A function under construction is neat so far. -/
structure IsNeat (d : Draft Label) : Prop where
  parameters : ∀ o ∈ d.parameters, o.value.HasPlainRegister
  lines : ∀ b ∈ d.blocks, ∀ l ∈ b.lines, l.IsNeat

namespace IsNeat

/-- A draft stays neat if the lines that are changed are neat. -/
lemma modify (neat : d.IsNeat) {f : Block Label (Source Label) → Block Label (Source Label)}
    {i : Nat} (changes : ∀ b, ∀ l ∈ (f b).lines, l ∈ b.lines ∨ l.IsNeat) :
    IsNeat { d with blocks := d.blocks.modify i f } where
  parameters := neat.parameters
  lines b mem l meml := by
    obtain ⟨j, lt, rfl⟩ := List.mem_iff_getElem.1 mem
    rw [List.getElem_modify] at meml
    split at meml
    · exact (changes _ l meml).elim (neat.lines _ (List.getElem_mem _) l) id
    · exact neat.lines _ (List.getElem_mem _) l meml

/-- A line that is appended to a block is the only new one. -/
lemma mem_push {b : Block Label (Source Label)} {l new : Line Label (Source Label)}
    (mem : l ∈ (b.push new).lines) : l ∈ b.lines ∨ l = new :=
  (List.mem_append.1 mem).imp_right List.mem_singleton.1

/-- The lines of a block that is left are those it had and the terminator. -/
lemma mem_terminate {b : Block Label (Source Label)} {l : Line Label (Source Label)}
    {t : Term Label} (mem : l ∈ (b.terminate t).lines) : l ∈ b.lines ∨ l = .leave t := by
  rw [Block.terminate] at mem
  split at mem
  · exact .inl mem
  · exact mem_push mem

/-- A neat line may be pushed. -/
lemma push (neat : d.IsNeat) {l : Line Label (Source Label)} (holds : l.IsNeat) :
    (d.push l).IsNeat :=
  neat.modify fun _ l' mem => (mem_push mem).imp_right fun (same : l' = l) => same ▸ holds

/-- A neat terminator may be put. -/
lemma terminate (neat : d.IsNeat) {t : Term Label}
    (holds : Line.IsNeat (.leave t : Line Label (Source Label))) : (d.terminate t).IsNeat :=
  neat.modify fun _ l mem => (mem_terminate mem).imp_right fun (same : l = .leave t) => same ▸ holds

/-- An empty block may be put at the end. -/
lemma appendBlock (neat : d.IsNeat) (l : Label) : (d.appendBlock l).IsNeat where
  parameters := neat.parameters
  lines b mem := by
    rcases List.mem_append.1 mem with mem | mem
    · exact neat.lines b mem
    · rw [List.mem_singleton.1 mem]
      exact List.forall_mem_nil _

/-- An empty block may be inserted. -/
lemma insertBlock (neat : d.IsNeat) (l : Label) : (d.insertBlock l).IsNeat where
  parameters := neat.parameters
  lines b mem := by
    rcases (List.mem_insertIdx (Nat.min_le_right _ _)).1 mem with rfl | mem
    · exact List.forall_mem_nil _
    · exact neat.lines b mem

/-- Where lines go to does not matter to whether a draft is neat. -/
lemma goTo (neat : d.IsNeat) (l : Label) : (d.goTo l).IsNeat := by
  obtain ⟨i, eq⟩ := d.goTo_eq l
  rw [eq]
  exact ⟨neat.parameters, neat.lines⟩

/-- A finished draft is neat. -/
lemma finish (neat : d.IsNeat) : d.finish.IsNeat where
  parameters := neat.parameters
  lines b mem l meml := by
    rw [blocks_finish] at mem
    obtain ⟨b, mem, rfl⟩ := List.mem_map.1 mem
    obtain ⟨l, here, rfl⟩ := List.mem_map.1 meml
    refine Line.IsNeat.mapSources ?_ _
    rcases mem_terminate here with old | rfl
    · exact neat.lines b ‹_› l old
    · exact List.forall_mem_nil _

end IsNeat

end Draft

end Target

namespace Lowering

variable {α : Type} {e : Emit α} {c : Context} {id : BlockId} {b : BasicBlock}

/-- Whether a line is neat. -/
def isNeat (l : DraftLine) : Bool := decide l.IsNeat

/-- An ordinary line is a neat one. -/
lemma isNeat_of_isOrdinary (l : DraftLine) (ordinary : l.isOrdinary = true) : isNeat l = true :=
  decide_eq_true (Line.isNeat_of_isOrdinary ordinary)

/-- Neat lines keep a function neat. -/
lemma Emit.Composed.isNeat (composed : e.Composed isNeat) {s : Progress} (neat : s.draft.IsNeat) :
    (e.next s).draft.IsNeat := by
  induction composed generalizing s with
  | pure | fresh | here => exact ⟨neat.parameters, neat.lines⟩
  | finishBlock => exact ⟨neat.parameters, neat.lines⟩
  | bind _ _ ih ih' => exact ih' _ (ih neat)
  | line holds => exact neat.push (of_decide_eq_true holds)
  | leave holds => exact neat.terminate (of_decide_eq_true holds)
  | appendBlock l => exact neat.appendBlock l
  | insertBlock l => exact neat.insertBlock l
  | split first =>
    have inserted := neat.insertBlock (.split first s.draft.nextSplit)
    exact ⟨inserted.parameters, inserted.lines⟩
  | continueAt l => exact neat.goTo l
  | aside apart =>
    have draft := congrArg (fun r => r.2.draft) (apart s s.draft)
    exact draft.symm ▸ neat

/-- The code of a block is neat, since its comments are descriptions. -/
lemma block_composed : Except.Ensures (Emit.Composed isNeat) (block c id b) := by
  refine .bind fun phis phisGiven => .bind fun received receivedGiven =>
    .bind fun codes codesGiven => .bind fun leaving leavingGiven => .pure ?_
  have phiCodes : (phis.forM fun code => code).Composed isNeat := .forM fun code mem => by
    obtain ⟨p, _, given⟩ := Except.exists_of_mem_of_mapM_eq_ok phisGiven mem
    exact (phi_composed p code given).mono isNeat_of_isOrdinary
  have call (n : Nat) : isNeat (.define (.register (.temporary n))
      (.call .ptr (.symbol (.runtime .catchException)) []) : DraftLine) = true := by
    refine decide_eq_true (List.forall_mem_cons.2 ⟨?_, by decide⟩)
    exact Local.plain_text fun _ => nofun
  have receiving := receiveException_composed isNeat_of_isOrdinary call received receivedGiven
  have described (i : Instruction) : isNeat (.comment i.description) = true :=
    decide_eq_true i.oneLine_description
  have instructions : (codes.forM fun code => code).Composed isNeat :=
    .forM (instructionCodes_composed isNeat_of_isOrdinary described codes codesGiven)
  have leaves := (terminator_ordinary leaving leavingGiven).mono isNeat_of_isOrdinary
  exact .bind (.continueAt _) fun _ => .bind phiCodes fun _ => .bind receiving fun _ =>
    .bind instructions fun _ => .bind leaves fun _ => .bind (.finishBlock id) fun _ =>
    (landingPad_ordinary id b).mono isNeat_of_isOrdinary

/-- The shared exit is neat if what is returned through it is ordinary. -/
lemma exitBlock_isNeat {s : Progress} (neat : s.draft.IsNeat)
    (ordinary : ∀ x ∈ s.exits, x.1.all Value.isOrdinary = true) :
    ((exitBlock c).next s).draft.IsNeat := by
  have phi : isNeat (.phi (.register .result) c.result
      (s.exits.map fun e => (e.1.getD .undef, .label e.2)) : DraftLine) = true := by
    refine decide_eq_true (List.forall_mem_cons.2 ⟨by decide, fun v mem => ?_⟩)
    rw [List.map_map] at mem
    obtain ⟨⟨value, source⟩, recorded, rfl⟩ := List.mem_map.1 mem
    have holds := ordinary _ recorded
    cases value with
    | none => trivial
    | some v => exact Value.hasPlainRegister_of_isOrdinary (v := v) holds
  exact (sharedExit_composed isNeat_of_isOrdinary phi).isNeat neat

/-- The code of a body keeps a draft neat. -/
lemma body_isNeat {code : Emit Unit} (given : body c = .ok code) {s : Progress}
    (neat : s.draft.IsNeat) (exits : s.exits = []) : (code.next s).draft.IsNeat := by
  dsimp only [body] at given
  split at given
  · cases given
  obtain ⟨codes, codesGiven, given⟩ := Except.exists_of_bind_eq_ok given
  cases given
  let blocks : Emit Unit := do
    start c
    c.body.numberedBlocks.forM fun e => .appendBlock (.block e.1)
    codes.forM fun code => code
  have composed : blocks.Composed isNeat :=
    .bind ((start_ordinary c).mono isNeat_of_isOrdinary) fun _ =>
    .bind (.forM fun _ _ => .appendBlock _) fun _ => .forM fun code mem => by
      obtain ⟨_, _, given⟩ := Except.exists_of_mem_of_mapM_eq_ok codesGiven mem
      exact block_composed code given
  have returned : ∀ x ∈ (blocks.next s).exits, x.1.all Value.isOrdinary = true := by
    refine composed.exits ?_
    rw [exits]
    exact List.forall_mem_nil _
  change ((unwindBlock c).next ((exitBlock c).next (blocks.next s))).draft.IsNeat
  exact ((unwindBlock_ordinary c).mono isNeat_of_isOrdinary).isNeat
    (exitBlock_isNeat (composed.isNeat neat) returned)

/-- Parameters have plain registers. -/
lemma parameters_hasPlainRegister :
    Except.Ensures (fun ps => ∀ o ∈ ps, o.value.HasPlainRegister) (parameters c) := by
  intro ps given o mem
  obtain ⟨_, each⟩ := parameters_spec ps given
  obtain ⟨_, _, is, _⟩ := each.flip.exists_of_mem mem
  rw [is.2]
  exact Local.plain_text fun _ => nofun

/-- The function of a method is neat. -/
lemma function_isNeat {f : Function Label} {pools pools' : Pools}
    (given : (function c).run pools = .ok (f, pools')) : f.IsNeat := by
  obtain ⟨ps, code, psGiven, codeGiven, rfl, rfl⟩ := exists_of_function_run given
  have initial : (Progress.initial c ps pools).draft.IsNeat :=
    ⟨parameters_hasPlainRegister ps psGiven, List.forall_mem_singleton.2 (List.forall_mem_nil _)⟩
  exact (body_isNeat codeGiven initial rfl).finish

end Lowering

end ObjectBackend
