import ObjectBackend.Proofs.Lowering.Blocks
import ObjectBackend.Proofs.Lowering.Branching

/-!
# Running the code of a block

The code of a block runs as the block is executed, from its first instruction to its terminator
(`BlockCode.runs`). What is known on the way is that the values of variables are of their types and
that whatever is read next has been written (`Sound`); each instruction preserves that.
-/

namespace ObjectBackend.Lowering

open Target Emit Listing

variable {host : Host} {c : Context} {parameters : List Var} {id : BlockId} {b : BasicBlock}
  {values : Values Address} {position : Nat}

/-- A body is executed at a place that can be reached, and what its variables hold is of their
types. -/
structure Sound (c : Context) (parameters : List Var) (a : Activation Address) : Prop where
  typed : Typed c a.values
  reached : a.Reached c.body parameters

/-- Code runs as one point of a block is left for a later one. -/
def Emit.Follows (host : Host) (c : Context) (parameters : List Var) (id : BlockId)
    (values : Values Address) (position position' : Nat) (e : Emit Unit) : Prop :=
  ∃ values' : Values Address,
    Steps c.body.step? ⟨⟨id, position⟩, values⟩ ⟨⟨id, position'⟩, values'⟩ ∧
    Sound c parameters ⟨⟨id, position'⟩, values'⟩ ∧
    ∀ m, Triple host (Holding m values []) e fun _ => Holding m values' []

/-- A comment is run without any effect. -/
lemma comment_runs {P : Assertion} (i : Instruction) : Triple host P (comment c i) fun _ => P := by
  rw [comment]
  split
  · apply Triple.of_line (l := fun _ => .comment i.description) (fun s => .line s rfl)
    exact fun s g σ holds => ⟨σ.next σ.memory, rfl, rfl, rfl, holds⟩
  · exact .pure (Q := fun _ => P) ()

section Instructions

variable (provided : ∀ type, (Environment.comparison type).ProvidedBy host)
  (strict : c.body.StrictSsa parameters) (found : c.body.block? id = some b)

include provided strict found

/-- The code of an instruction does what the instruction does. -/
lemma instruction_follows {i : Instruction} (instr : b.instructions[position]? = some i)
    (arithmetic : i.isArithmetic = true) (sound : Sound c parameters ⟨⟨id, position⟩, values⟩) :
    Except.Ensures (Emit.Follows host c parameters id values position (position + 1))
      (instruction c id b i position) := by
  intro code given
  have plain : plainInstruction c i = .ok code := by
    rw [instruction, Instruction.isCallSite_of_isArithmetic arithmetic] at given
    exact given
  have step : c.body.Step ⟨id, position⟩ i.defined.toList ⟨id, position + 1⟩ := .next found instr
  by_cases nothing : i = .nop
  · subst nothing
    obtain rfl := Except.ok.inj plain
    have next := Body.step?_next (a := ⟨⟨id, position⟩, values⟩) found instr (if_pos rfl)
    refine ⟨values, .single next, ⟨sound.typed, ?_⟩,
      fun m => .pure (Q := fun _ => Holding m values []) ()⟩
    exact sound.reached.step step (fun _ holds => holds) (List.forall_mem_nil _)
  · have reads : ∀ v ∈ i.used, ∃ d, values v = some d :=
      fun v used => sound.reached.reads strict (.instruction found instr used)
    obtain ⟨v, defined, d, computed, assigns⟩ :=
      plainInstruction_assigns provided sound.typed arithmetic nothing reads code plain
    have executes : i.execute? values = some (Function.update values v (some d)) := by
      rw [Instruction.execute?, if_neg nothing, defined, computed]
      rfl
    have next := Body.step?_next (a := ⟨⟨id, position⟩, values⟩) found instr executes
    refine ⟨_, .single next, ⟨sound.typed.update assigns.typed, ?_⟩, assigns.runs⟩
    apply sound.reached.step step (fun _ holds => exists_update d holds)
    rw [defined]
    exact List.forall_mem_singleton.2 ⟨d, Function.update_self ..⟩

/-- The code of the instructions from a position on, one after the other. -/
lemma instructions_follow (arithmetic : ∀ i ∈ b.instructions, i.isArithmetic = true)
    {codes : List (Emit Unit)} (le : position ≤ b.instructions.length)
    (each : List.Forall₂ (fun e code => (do
        let code ← instruction c id b e.1 e.2
        return do
          comment c e.1
          code) = .ok code) ((b.instructions.drop position).zipIdx position) codes)
    (sound : Sound c parameters ⟨⟨id, position⟩, values⟩) :
    Emit.Follows host c parameters id values position b.instructions.length
      (codes.forM fun code => code) := by
  generalize rest_eq : b.instructions.drop position = rest at each
  induction rest generalizing position codes values with
  | nil =>
    have ge := List.drop_eq_nil_iff.1 rest_eq
    obtain rfl := Nat.le_antisymm le ge
    cases each
    exact ⟨values, .refl, sound, fun m => .pure (Q := fun _ => Holding m values []) ()⟩
  | cons i rest ih =>
    have instr : b.instructions[position]? = some i := by
      rw [← Nat.add_zero position, ← List.getElem?_drop, rest_eq]
      rfl
    have others : b.instructions.drop (position + 1) = rest := by
      rw [← List.drop_drop, rest_eq]
      rfl
    have lt := (List.getElem?_eq_some_iff.1 instr).1
    rw [List.zipIdx_cons] at each
    cases each with
    | cons first each =>
      obtain ⟨code, given, eq⟩ := Except.exists_of_bind_eq_ok first
      obtain rfl := Except.ok.inj eq
      -- one instruction moves the body on by one step, the rest by the induction
      obtain ⟨between, step, sound, runs⟩ := instruction_follows provided strict found instr
        (arithmetic i (List.mem_of_getElem? instr)) sound code given
      obtain ⟨values', steps, sound, runs'⟩ := ih lt sound others each
      refine ⟨values', step.trans steps, sound, fun m => ?_⟩
      exact ((comment_runs i).bind fun _ => runs m).bind fun _ => runs' m

end Instructions

/-- The code of a block up to its terminator, and the terminator itself. -/
lemma Emission.follows (e : Emission c id b)
    (provided : ∀ type, (Environment.comparison type).ProvidedBy host)
    (strict : c.body.StrictSsa parameters) (found : c.body.block? id = some b)
    (arithmetic : ∀ i ∈ b.instructions, i.isArithmetic = true)
    (ends : b.terminator.isArithmetic = true) (unhandled : c.isHandler id = false)
    (frameless : c.frameSize? = none) (sound : Sound c parameters ⟨⟨id, 0⟩, values⟩) :
    ∃ values' : Values Address,
      Steps c.body.step? ⟨⟨id, 0⟩, values⟩ ⟨⟨id, b.instructions.length⟩, values'⟩ ∧
      Sound c parameters ⟨⟨id, b.instructions.length⟩, values'⟩ ∧
      ∀ m, Emit.Ends host (Holding m values []) e.code (Finished c m values' b.terminator) := by
  have received : e.received = Pure.pure () := by
    have receives := e.receives
    rw [receiveException, unhandled] at receives
    exact (Except.ok.inj receives).symm
  have each := Except.Ensures.mapM (fun entry _ => fun code given => given) _ e.executes
  obtain ⟨values', steps, sound', runs⟩ :=
    instructions_follow provided strict found arithmetic (Nat.zero_le _) each sound
  have reads : ∀ v ∈ b.terminator.used, ∃ d, values' v = some d :=
    fun v used => sound'.reached.reads strict (.terminator found rfl used)
  refine ⟨values', steps, sound', fun m => ?_⟩
  rw [Emission.code, Emission.inner, received]
  apply (runs m).ends
  intro _
  exact terminator_ends sound'.typed ends frameless reads e.leaving e.leaves m

/-- A function that carries the code of a block runs it to the terminator. -/
lemma BlockCode.runs (k : BlockCode c)
    (provided : ∀ type, (Environment.comparison type).ProvidedBy host)
    (strict : c.body.StrictSsa parameters)
    (arithmetic : ∀ i ∈ k.block.instructions, i.isArithmetic = true)
    (ends : k.block.terminator.isArithmetic = true) (unhandled : c.isHandler k.id = false)
    (frameless : c.frameSize? = none) (sound : Sound c parameters ⟨⟨k.id, 0⟩, values⟩)
    {f : Function Label}
    (carries : f.Carries (blocks ⟨.block k.id, k.phis⟩ (k.inner ++ [.line (.leave k.term)])))
    {σ : State Label} (behind : σ.Behind ⟨.block k.id, k.phis⟩)
    (mirrors : Mirrors values σ.registers) :
    ∃ (values' : Values Address) (τ : State Label) (t : Term Label),
      Steps c.body.step? ⟨⟨k.id, 0⟩, values⟩ ⟨⟨k.id, k.block.instructions.length⟩, values'⟩ ∧
      Sound c parameters ⟨⟨k.id, k.block.instructions.length⟩, values'⟩ ∧
      f.Runs host σ τ ∧ τ.label = k.ending ∧ f.line? τ = some (.leave t) ∧
      Finished c σ.memory values' k.block.terminator t τ.registers τ.memory := by
  obtain ⟨values', steps, sound', leaves⟩ :=
    k.emission.follows provided strict k.found arithmetic ends unhandled frameless sound
  obtain ⟨s, before, after, start, cursor⟩ := k.emitted
  obtain ⟨x, t, cursor', runs⟩ := leaves σ.memory start
  -- the listing that is known of the block is the one that has been run
  obtain ⟨same, same'⟩ := cursor.eq_of_cursor cursor'
  have blocks_eq : blocks ⟨.block k.id, k.phis⟩ (k.inner ++ [.line (.leave k.term)]) =
      blocks ⟨.block k.id, k.phis⟩ (x ++ [.line (.leave t)]) := by
    rw [blocks, blocks, List.append_cancel_left same, same']
  rw [blocks_eq] at carries
  have holding : Holding σ.memory values [] s.draft.nextTemporary σ.registers σ.memory :=
    ⟨⟨rfl, List.forall_mem_nil _, List.forall_mem_nil _⟩, mirrors⟩
  obtain ⟨τ, steps', behind', at', finished⟩ := runs carries behind holding
  refine ⟨values', τ, t, steps, sound', steps', ?_, at', finished⟩
  have label := congrArg Block.label same'
  rw [label_last, label_last, endLabel_append, endLabel_append, k.region.endLabel_eq] at label
  rw [behind'.label, label_last]
  exact label.symm

end ObjectBackend.Lowering
