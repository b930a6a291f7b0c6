import Mathlib.Data.List.Pairwise
import Mathlib.Order.Nat
import ObjectBackend.Proofs.Lowering.BlockExecution
import ObjectBackend.Proofs.Lowering.ControlFlow

/-!
# Entering blocks

The label that a block is entered from tells by which edge: the codes of different blocks end under
different labels (`BodyCode.eq_of_ending`). So a phi of the code takes the variable that the phi of
the body takes (`BodyCode.find?_phiIncomings`), and the phis of a block are passed as they are in
the body (`BodyCode.phis_run`).
-/

namespace ObjectBackend.Lowering

open Target Emit Listing

variable {c : Context}

/-- A listing ends in the block that it starts in, or in one that it starts. -/
lemma endLabel_eq_or_mem (ℓ : Label) (x : Listing) :
    endLabel ℓ x = ℓ ∨ endLabel ℓ x ∈ labels x := by
  induction x generalizing ℓ with
  | nil => exact .inl rfl
  | cons i x ih =>
    cases i with
    | line l => exact ih ℓ
    | start l => exact .inr (List.mem_cons.2 (ih l))

/-- A block ends in one of its parts. -/
lemma BlockCode.ending_mem_labels (b : BlockCode c) : b.ending ∈ labels b.listing := by
  rw [b.labels_listing, ← b.region.endLabel_eq]
  rcases endLabel_eq_or_mem (.block b.id) b.inner with eq | mem
  · rw [eq]
    exact List.mem_cons_self ..
  · exact List.mem_cons_of_mem _ (List.mem_append_left _ mem)

namespace BodyCode

variable {k : BodyCode c} {b b' : BlockCode c} {id : BlockId}

/-- No two codes of blocks share a label. -/
lemma eq_of_mem_labels (nodup : (labels k.listing).Nodup) (mem : b ∈ k.blocks)
    (mem' : b' ∈ k.blocks) {l : Label} (own : l ∈ labels b.listing) (own' : l ∈ labels b'.listing) :
    b = b' := by
  by_contra other
  rw [labels_listing, List.append_assoc, List.append_assoc] at nodup
  have blocks := (List.nodup_append.1 (List.nodup_append.1 nodup).2.1).1
  have symm : Std.Symm (Function.onFun List.Disjoint fun b : BlockCode c => labels b.listing) :=
    ⟨fun _ _ disjoint _ left right => disjoint right left⟩
  exact (List.nodup_flatMap.1 blocks).2.forall mem mem' other own own'

/-- No two codes of blocks end under one label. -/
lemma eq_of_ending (nodup : (labels k.listing).Nodup) (mem : b ∈ k.blocks) (mem' : b' ∈ k.blocks)
    (eq : b.ending = b'.ending) : b = b' :=
  eq_of_mem_labels nodup mem mem' b.ending_mem_labels (eq ▸ b'.ending_mem_labels)

section Phis

variable (bound : c.body.blocks.length ≤ UInt32.size) (nodup : (labels k.listing).Nodup)
  (unprotected : ∀ block ∈ c.body.blocks, block.tryCatches = [])

include bound unprotected in
/-- An edge from a block without handlers comes from the end of its code. -/
lemma resolve_sourcesFrom (mem : b ∈ k.blocks) : (sourcesFrom c id b.id).map k.resolve =
    List.replicate (b.block.terminator.targets.count id) b.ending := by
  have noLanding : c.hasLanding b.block = false := by
    rw [Context.hasLanding, BasicBlock.isProtected, unprotected _ (List.mem_of_getElem? b.found)]
    rfl
  rw [sourcesFrom, b.found, Option.elim_some, noLanding, if_neg Bool.false_ne_true,
    List.replicate_zero, List.append_nil, List.map_replicate, k.resolve_block bound mem]

include bound unprotected nodup

/-- The edges from other blocks come from other labels. -/
lemma ne_ending {source : BlockId} (mem : b ∈ k.blocks) (other : source ≠ b.id) :
    ∀ l ∈ (sourcesFrom c id source).map k.resolve, l ≠ b.ending := by
  rintro l named rfl
  cases found : c.body.block? source with
  | none =>
    rw [sourcesFrom, found] at named
    cases named
  | some block =>
    obtain ⟨b', mem', rfl, _⟩ := k.exists_blockCode found
    rw [resolve_sourcesFrom bound unprotected mem'] at named
    have ending := List.eq_of_mem_replicate named
    rw [eq_of_ending nodup mem' mem ending.symm] at other
    exact other rfl

/-- A phi of the code takes the variable that the phi of the body takes. -/
lemma find?_phiIncomings (mem : b ∈ k.blocks) (goes : id ∈ b.block.terminator.targets)
    (later : id ≠ .entry) {phi : Phi} {i : Incoming}
    (taken : phi.incomings.find? (·.source = b.id) = some i) :
    ((phiIncomings c id phi).map fun (value, source) => (value, k.resolve source)).find?
      (fun e => some e.2 = some b.ending) = some (.ofVar i.value, b.ending) := by
  rw [phiIncomings, if_neg later, List.nil_append]
  generalize phi.incomings = is at taken
  induction is with
  | nil => cases taken
  | cons j is ih =>
    rw [List.flatMap_cons, List.map_append, List.find?_append, List.map_map]
    have first : (sourcesFrom c id j.source).map
          ((fun e : Value × Source Label => (e.1, k.resolve e.2)) ∘ (Value.ofVar j.value, ·)) =
        ((sourcesFrom c id j.source).map k.resolve).map (Value.ofVar j.value, ·) := by
      rw [List.map_map]
      rfl
    rw [first]
    by_cases eq : j.source = b.id
    · rw [List.find?_cons, decide_eq_true eq] at taken
      obtain rfl := Option.some.inj taken
      obtain ⟨n, positive⟩ := Nat.exists_eq_succ_of_ne_zero (List.count_pos_iff.2 goes).ne'
      rw [eq, resolve_sourcesFrom bound unprotected mem, positive, List.replicate_succ,
        List.map_cons, List.find?_cons, decide_eq_true rfl]
      rfl
    · rw [List.find?_cons, decide_eq_false eq] at taken
      have others : ∀ e ∈ ((sourcesFrom c id j.source).map k.resolve).map (Value.ofVar j.value, ·),
          ¬ decide (some e.2 = some b.ending) = true := by
        intro e mem'
        obtain ⟨l, named, rfl⟩ := List.mem_map.1 mem'
        rw [decide_eq_true_eq, Option.some.injEq]
        exact ne_ending bound nodup unprotected mem eq l named
      rw [List.find?_eq_none.2 others, Option.none_or]
      exact ih taken

/-- The phis of a block are passed as they are in the body. -/
lemma phis_run (host : Host) (mem : b ∈ k.blocks) (goes : id ∈ b.block.terminator.targets)
    {values : Values Address} (typed : Typed c values) {f : Function Label} {phis : List Phi}
    {before lines : List DraftLine} (arePhis : List.Forall₂ (IsPhi c id) phis lines)
    (later : id = .entry → phis = []) {entered entered' : Values Address}
    (enters : enter? b.id values phis entered = some entered') {σ : State Label}
    (source : σ.source = some b.ending) (read : Mirrors values σ.entered)
    (behind : σ.Behind ⟨.block id, before⟩) {after : List (Line Label Label)}
    (here : f.lines? (.block id) =
      some ((before ++ lines).map (Line.mapSources k.resolve) ++ after))
    (typed' : Typed c entered) (mirrors : Mirrors entered σ.registers) :
    ∃ τ, f.Runs host σ τ ∧ τ.Behind ⟨.block id, before ++ lines⟩ ∧ τ.memory = σ.memory ∧
      Typed c entered' ∧ Mirrors entered' τ.registers := by
  induction arePhis generalizing before entered σ with
  | nil =>
    obtain rfl := Option.some.inj enters
    rw [List.append_nil]
    exact ⟨σ, .refl, behind, rfl, typed', mirrors⟩
  | @cons phi l phis lines first _ ih =>
    have other : id ≠ .entry := fun eq => List.cons_ne_nil _ _ (later eq)
    obtain ⟨type, ofReceiver, ofValues, rfl⟩ := first
    obtain ⟨d, value, enters⟩ := Option.bind_eq_some_iff.1 enters
    obtain ⟨i, taken, holds⟩ := Option.bind_eq_some_iff.1 value
    -- the line of the phi
    have at' : f.line? σ = some (.phi (.ofVar phi.receiver) type
        ((phiIncomings c id phi).map fun (value, source) => (value, k.resolve source))) := by
      rw [Function.line?, behind.label, here, List.map_append, List.append_assoc, behind.position]
      simp [Line.mapSources]
    have step : f.step? host σ = some (σ.set (.var phi.receiver) d.word σ.memory) := by
      refine Function.step?_phi (v := .ofVar i.value) (l := b.ending) at' ?_ (read i.value d holds)
      rw [source]
      exact find?_phiIncomings bound nodup unprotected mem goes other taken
    -- the value of the phi is of its type
    have fits : c.typeOf phi.receiver = .ok d.type := by
      rw [ofReceiver, ← ofValues i (List.mem_of_find?_eq_some taken)]
      exact typed i.value d holds
    let σ' := σ.set (.var phi.receiver) d.word σ.memory
    rw [List.append_cons] at here ⊢
    have behind' : σ'.Behind ⟨.block id, before ++ [.phi (.ofVar phi.receiver) type
        (phiIncomings c id phi)]⟩ := by
      refine ⟨behind.label, ?_⟩
      rw [List.length_append]
      exact congrArg (· + 1) behind.position
    obtain ⟨τ, steps, behind, memory, typed', mirrors⟩ := ih (σ := σ') (fun eq => absurd eq other)
      enters source read behind' here (typed'.update fits) (mirrors.update d)
    exact ⟨τ, .head step steps, behind, memory, typed', mirrors⟩

end Phis

end BodyCode

end ObjectBackend.Lowering
