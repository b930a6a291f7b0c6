import ObjectBackend.Proofs.Lowering.Entering
import ObjectBackend.Proofs.Lowering.Parameters
import ObjectBackend.Proofs.Source.Availability

/-!
# Functions that do what bodies do

The function that is emitted for a body of arithmetic returns what the body returns, or runs forever
like the body (`function_refines_body`). Both are followed from block to block: whenever the body is
at the start of a block, the machine is behind the phis of its code, and the registers hold what the
variables do (`AtBlock`).
-/

namespace ObjectBackend.Lowering

open Target Emit Listing

variable {host : Host} {c : Context} {f : Function Label} {k : BodyCode c} {b : BlockCode c}
  {m : Memory} {parameters : List Var}

/-- Where a terminator goes is one of its targets. -/
lemma mem_targets_of_target? {values : Values Address} {u : Terminator} {target : BlockId}
    (goes : u.target? values = some target) : target ∈ u.targets := by
  cases u with
  | jump => exact List.mem_singleton.2 (Option.some.inj goes).symm
  | branch condition operand consequent alternative =>
    obtain ⟨d, _, goes⟩ := Option.bind_eq_some_iff.1 goes
    obtain ⟨p, _, goes⟩ := Option.bind_eq_some_iff.1 goes
    obtain rfl := Option.some.inj goes
    cases p with
    | true => exact List.mem_cons_self ..
    | false => exact List.mem_cons_of_mem _ (List.mem_singleton_self _)
  | binaryBranch condition first second consequent alternative =>
    obtain ⟨x, _, goes⟩ := Option.bind_eq_some_iff.1 goes
    obtain ⟨y, _, goes⟩ := Option.bind_eq_some_iff.1 goes
    obtain ⟨p, _, goes⟩ := Option.bind_eq_some_iff.1 goes
    obtain rfl := Option.some.inj goes
    cases p with
    | true => exact List.mem_cons_self ..
    | false => exact List.mem_cons_of_mem _ (List.mem_singleton_self _)
  | «switch» condition table otherwise =>
    obtain ⟨d, _, goes⟩ := Option.bind_eq_some_iff.1 goes
    cases d with
    | int n =>
      obtain rfl := Option.some.inj goes
      cases found : table.find? (·.1.toBitVec = n) with
      | none => exact List.mem_cons_self ..
      | some e =>
        exact List.mem_cons_of_mem _ (List.mem_map_of_mem (List.mem_of_find?_eq_some found))
    | _ => cases goes
  | exit | raise | unreachable => cases goes

namespace BodyCode

section Placement

variable (blocks : f.blocks = k.functionBlocks) (nodup : (.entry :: labels k.listing).Nodup)

include blocks nodup

/-- Each block of the listing is one of the function. -/
lemma lines?_of_mem {d : DraftBlock} (mem : d ∈ Listing.blocks ⟨.entry, []⟩ k.listing) :
    f.lines? d.label = some (d.lines.map (Line.mapSources k.resolve)) := by
  have differ : (f.blocks.map Block.label).Nodup := by
    rw [blocks, k.label_functionBlocks]
    exact nodup
  refine Function.lines?_of_mem differ (b := d.mapSources k.resolve) ?_
  rw [blocks, functionBlocks]
  exact List.mem_map_of_mem mem

/-- The function carries the listing of its body. -/
lemma carries : f.Carries (Listing.blocks ⟨.entry, []⟩ k.listing) := by
  refine ⟨k.resolve, fun _ => rfl, fun d mem => ⟨[], ?_⟩⟩
  rw [List.append_nil]
  exact k.lines?_of_mem blocks nodup mem

omit blocks nodup in
/-- The code of a block behind its phis, and what is around it. -/
lemma exists_listing_eq (mem : b ∈ k.blocks) : ∃ x y, k.listing =
    x ++ .start (.block b.id) :: (ofLines b.phis ++ (b.inner ++ [.line (.leave b.term)] ++ y)) := by
  obtain ⟨before, after, split⟩ := List.append_of_mem mem
  refine ⟨k.entry ++ [.line (.leave (.br (.block .entry)))] ++ before.flatMap (·.listing),
    b.pad ++ after.flatMap (·.listing) ++ exitCode c k.exits ++
      unwindCode c (!k.marks.isEmpty), ?_⟩
  rw [listing, main, split, List.flatMap_append, List.flatMap_cons, BlockCode.listing,
    BlockCode.content]
  simp

/-- The function carries the content of each block. -/
lemma carries_block (mem : b ∈ k.blocks) : f.Carries
    (Listing.blocks ⟨.block b.id, b.phis⟩ (b.inner ++ [.line (.leave b.term)])) := by
  obtain ⟨x, y, eq⟩ := k.exists_listing_eq mem
  have all := k.carries blocks nodup
  rw [eq] at all
  have started := Carries.tail (Carries.of_append all).2
  have behind := (Carries.of_append started).2
  rw [last_ofLines] at behind
  exact (Carries.of_append behind).1

/-- The phis of a block come first. -/
lemma lines?_block (mem : b ∈ k.blocks) : ∃ after,
    f.lines? (.block b.id) = some (b.phis.map (Line.mapSources k.resolve) ++ after) := by
  obtain ⟨x, y, eq⟩ := k.exists_listing_eq mem
  obtain ⟨d, memd, label, ⟨rest, lines⟩⟩ := exists_prefix_block ⟨.block b.id, b.phis⟩
    (b.inner ++ [.line (.leave b.term)] ++ y)
  have placed : d ∈ Listing.blocks ⟨.entry, []⟩ k.listing := by
    rw [eq, blocks_append]
    refine List.mem_append_right _ (List.mem_cons_of_mem _ ?_)
    change d ∈ Listing.blocks ⟨.block b.id, []⟩ _
    rw [blocks_append, closed_ofLines, last_ofLines]
    exact memd
  have found := k.lines?_of_mem blocks nodup placed
  rw [label, ← lines, List.map_append] at found
  exact ⟨_, found⟩

end Placement

end BodyCode

/-- A body is at the start of a block, and a machine behind the phis of its code. -/
structure AtBlock (b : BlockCode c) (parameters : List Var) (m : Memory) (a : Activation Address)
    (σ : State Label) : Prop where
  point : a.point = ⟨b.id, 0⟩
  sound : Sound c parameters a
  behind : σ.Behind ⟨.block b.id, b.phis⟩
  mirrors : Mirrors a.values σ.registers
  memory : σ.memory = m

/-- A body and a machine return, the machine the word for the value of the body. -/
def Returning (c : Context) (f : Function Label) (m : Memory) (a : Activation Address)
    (σ : State Label) : Prop :=
  ∃ d operand, c.body.result? a = some d ∧ f.line? σ = some (.leave (.ret (some operand))) ∧
    operand.value.word? σ.registers = some d.word ∧ σ.memory = m

section Edges

variable {b' : BlockCode c} {values : Values Address}

/-- At the end of a block, the phis of the next one have values, and so it is reached. -/
lemma exists_enter (strict : c.body.StrictSsa parameters) (arithmetic : c.body.IsArithmetic)
    (sound : Sound c parameters ⟨⟨b.id, b.block.instructions.length⟩, values⟩)
    (goes : b'.id ∈ b.block.terminator.targets) :
    ∃ entered, enter? b.id values b'.block.phis values = some entered ∧
      Activation.Reached c.body parameters ⟨⟨b'.id, 0⟩, entered⟩ := by
  have numbered := Body.mem_numberedBlocks b'.found
  have successor : b'.id ∈ b.block.successors := BasicBlock.mem_successors.2 (.inl goes)
  have predecessor : b.id ∈ c.body.predecessors b'.id := by
    refine List.mem_map.2 ⟨(b.id, b.block), ?_, rfl⟩
    exact List.mem_filter.2 ⟨Body.mem_numberedBlocks b.found, decide_eq_true successor⟩
  have exit : c.body.Exit ⟨b.id, b.block.instructions.length⟩ b'.id := .atEnd b.found rfl successor
  have given : ∀ phi ∈ b'.block.phis, ∃ d, phi.value? b.id values = some d := by
    intro phi mem
    obtain ⟨i, named, eq⟩ :=
      List.mem_map.1 (arithmetic.covered _ numbered phi mem b.id predecessor)
    have some : (phi.incomings.find? (·.source = b.id)).isSome = true :=
      List.find?_isSome.2 ⟨i, named, decide_eq_true eq⟩
    obtain ⟨i, taken⟩ := Option.isSome_iff_exists.1 some
    have source := List.find?_some taken
    have takes : c.body.Takes b.id b'.id i.value := by
      refine ⟨b'.block, b'.found, List.mem_flatMap.2 ⟨phi, mem, List.mem_map_of_mem ?_⟩⟩
      exact List.mem_filter.2 ⟨List.mem_of_find?_eq_some taken, source⟩
    obtain ⟨d, holds⟩ := sound.reached.takes strict exit takes
    refine ⟨d, ?_⟩
    rw [Phi.value?, taken]
    exact holds
  obtain ⟨entered, enters, kept, hold⟩ := exists_enter? given
  refine ⟨entered, enters, sound.reached.step (.exit exit b'.found) kept ?_⟩
  rw [BasicBlock.headDefs, (arithmetic.unprotected _ (List.mem_of_getElem? b'.found)).2]
  intro v written
  rw [Option.toList_none, List.append_nil] at written
  obtain ⟨phi, mem, rfl⟩ := List.mem_map.1 written
  exact hold phi mem

variable (provided : ∀ type, (Environment.comparison type).ProvidedBy host)
  (bound : c.body.blocks.length ≤ UInt32.size) {name : String}
  (checked : c.body.check name = .ok ()) (strict : c.body.StrictSsa parameters)
  (arithmetic : c.body.IsArithmetic) (frameless : c.frameSize? = none)
  (blocks : f.blocks = k.functionBlocks) (nodup : (.entry :: labels k.listing).Nodup)

include bound checked strict arithmetic blocks nodup

/-- Both go on to the same block. -/
lemma edge_runs (host : Host) (mem : b ∈ k.blocks)
    (sound : Sound c parameters ⟨⟨b.id, b.block.instructions.length⟩, values⟩) {τ : State Label}
    (here : τ.label = b.ending) {t : Term Label} (at' : f.line? τ = some (.leave t))
    (mirrors : Mirrors values τ.registers) {target : BlockId}
    (goes : b.block.terminator.target? values = some target)
    (goes' : t.target? τ.registers = some (.block target)) :
    ∃ a' σ', c.body.step? ⟨⟨b.id, b.block.instructions.length⟩, values⟩ = some a' ∧
      Advances (f.step? host) τ σ' ∧ ∃ b' ∈ k.blocks, AtBlock b' parameters τ.memory a' σ' := by
  have named := mem_targets_of_target? goes
  have lt := Body.lt_of_mem_successors checked (List.mem_of_getElem? b.found)
    (BasicBlock.mem_successors.2 (.inl named))
  obtain ⟨b', mem', rfl, _⟩ := k.exists_blockCode (List.getElem?_eq_getElem lt)
  obtain ⟨entered, enters, reached⟩ := exists_enter strict arithmetic sound named
  have step := Body.step?_exit (a := ⟨⟨b.id, b.block.instructions.length⟩, values⟩) b.found rfl
    goes b'.found enters
  have leave : f.step? host τ = some (τ.enter (.block b'.id)) := Function.step?_leave at' goes'
  have later : b'.id = .entry → b'.block.phis = [] :=
    fun eq => arithmetic.entry _ (eq ▸ b'.found)
  obtain ⟨after, lines⟩ := k.lines?_block blocks nodup mem'
  have unprotected := fun block mem => (arithmetic.unprotected block mem).1
  obtain ⟨υ, steps, behind, memory, typed, mirrors'⟩ := BodyCode.phis_run bound
    (List.nodup_cons.1 nodup).2 unprotected host mem named sound.typed b'.arePhis later enters
    (congrArg some here) mirrors (behind_enter τ (.block b'.id)) lines sound.typed mirrors
  refine ⟨_, υ, step, .head' leave steps, b', mem', rfl, ⟨typed, reached⟩, behind, mirrors', memory⟩

include provided frameless

/-- From the start of a block, both return or come to the start of a block again. -/
lemma AtBlock.progress (mem : b ∈ k.blocks) {a : Activation Address} {σ : State Label}
    (together : AtBlock b parameters m a σ) :
    (∃ a' σ', Steps c.body.step? a a' ∧ Steps (f.step? host) σ σ' ∧ Returning c f m a' σ') ∨
      ∃ a' σ', Advances c.body.step? a a' ∧ Advances (f.step? host) σ σ' ∧
        ∃ b' ∈ k.blocks, AtBlock b' parameters m a' σ' := by
  obtain ⟨pt, values⟩ := a
  obtain ⟨rfl, sound, behind, mirrors, rfl⟩ := together
  have memBlock : b.block ∈ c.body.blocks := List.mem_of_getElem? b.found
  have unhandled : c.isHandler b.id = false := by
    rw [Context.isHandler, List.any_eq_false]
    intro block mem
    rw [(arithmetic.unprotected block mem).1]
    exact Bool.false_ne_true
  obtain ⟨values', τ, t, steps, sound', steps', here, at', finished⟩ :=
    b.runs provided strict (arithmetic.instructions _ memBlock)
      (arithmetic.terminators _ memBlock) unhandled frameless sound
      (k.carries_block blocks nodup mem) behind mirrors
  generalize eq : b.block.terminator = u at finished
  cases finished.agrees with
  | returns holds =>
    refine .inl ⟨_, τ, steps, steps', _, _, ?_, at', finished.mirrors _ _ holds, finished.memory⟩
    rw [Body.result?_exit b.found rfl eq]
    exact holds
  | goes goes goes' =>
    obtain ⟨a', σ', step, advances, b', mem', together⟩ := edge_runs bound checked
      strict arithmetic blocks nodup host mem sound' here at' finished.mirrors (eq ▸ goes) goes'
    rw [finished.memory] at together
    exact .inr ⟨a', σ', .tail' steps step, .trans_right steps' advances, b', mem', together⟩

end Edges

section Start

variable {backend : Backend} {owner : ClassDef} {method : MethodDef} {body : Body}

/-- A body with nothing but arithmetic has no call sites. -/
lemma callSites_eq_nil (arithmetic : body.IsArithmetic) : body.callSites = [] := by
  refine List.flatMap_eq_nil_iff.2 fun e mem => ?_
  obtain ⟨n, found⟩ := List.getElem?_of_mem mem
  rw [Body.getElem?_numberedBlocks, Option.map_eq_some_iff] at found
  obtain ⟨block, found, rfl⟩ := found
  rw [List.map_eq_nil_iff, List.filter_eq_nil_iff]
  intro entry instr
  have plain := arithmetic.instructions block (List.mem_of_getElem? found) entry.1
    (List.fst_mem_of_mem_zipIdx instr)
  rw [Instruction.isCallSite_of_isArithmetic plain]
  exact Bool.false_ne_true

/-- A method has no frame if its body has no call sites and its class needs no initializer. -/
lemma frameSize?_eq_none (arithmetic : body.IsArithmetic)
    (plain : backend.program.needsInitialization owner.name = false) :
    let c := Context.ofBody backend owner method body
    c.frameSize? = none ∧ c.initializesOwner = false := by
  intro c
  have noInitializer : c.initializesOwner = false := by
    rw [Context.initializesOwner]
    exact (congrArg _ plain).trans (Bool.and_false _)
  have noSites : c.liveness.sites = [] := by
    have sites := Liveness.map_sites body
    rw [callSites_eq_nil arithmetic] at sites
    exact List.map_eq_nil_iff.1 sites
  rw [Context.frameSize?, noInitializer, noSites]
  exact ⟨rfl, rfl⟩

/-- At the entry of a body the parameters hold the arguments. -/
lemma AtBlock.start (arithmetic : c.body.IsArithmetic) {b : BlockCode c} (entry : b.id = .entry)
    (given : Lowering.parameters c = .ok f.parameters) {args : List (Scalar Address)}
    (fit : List.Forall₂ Scalar.HasKind args (declaredKinds c.method)) (m : Memory) :
    AtBlock b (parameterVars c.method) m (Body.start args)
      (State.enter (.start (f.arguments (args.map Scalar.word)) m) (.block .entry)) := by
  have found : c.body.block? .entry = some b.block := entry ▸ b.found
  have noPhis : b.block.phis = [] := arithmetic.entry _ found
  have noLines : b.phis = [] := by
    have each := b.arePhis
    rw [noPhis] at each
    exact List.forall₂_nil_left_iff.1 each
  have noDefs : b.block.headDefs = [] := by
    rw [BasicBlock.headDefs, noPhis, (arithmetic.unprotected _ (List.mem_of_getElem? found)).2]
    rfl
  have hold : ∀ v ∈ parameterVars c.method, ∃ d, args[v.index]? = some d := by
    intro v mem
    obtain ⟨i, less, rfl⟩ := List.mem_map.1 mem
    have lt : (Var.ofIndex i).index < args.length := by
      rw [fit.length_eq]
      exact (Nat.mod_le i _).trans_lt (List.mem_range.1 less)
    exact ⟨_, List.getElem?_eq_getElem lt⟩
  refine ⟨?_, ⟨typed_start given fit, _, .entry found, ?_⟩, ?_, ?_, rfl⟩
  · rw [entry]
    rfl
  · rw [noDefs, List.append_nil]
    exact hold
  · rw [entry, noLines]
    exact behind_enter _ _
  · exact mirrors_start given rfl fit.length_eq

end Start

/-- The function that is emitted for a body of arithmetic does what the body does. For all arguments
of the declared kinds, and whatever is in memory, either both return, the function the word for the
value that the body returns, or both run forever. -/
theorem function_refines_body {b : Backend} {owner : ClassDef} {m : MethodDef} {body : Body}
    {name : String} {f : Function Label} {pools pools' : Pools} {host : Host}
    (checked : body.check name = .ok ()) (bound : body.blocks.length ≤ UInt32.size)
    (strict : body.StrictSsa (parameterVars m)) (arithmetic : body.IsArithmetic)
    (plain : b.program.needsInitialization owner.name = false)
    (lowered : (function (.ofBody b owner m body)).run pools = .ok (f, pools'))
    (provided : ∀ type, (Environment.comparison type).ProvidedBy host)
    {args : List (Scalar Address)} (fit : List.Forall₂ Scalar.HasKind args (declaredKinds m))
    (memory : Memory) :
    let words := args.map Scalar.word
    (∃ d, body.Returns args d ∧ f.Returns host words memory d.word memory) ∨
      NeverEnds body.step? (Body.start args) ∧
        NeverEnds (f.step? host) (.start (f.arguments words) memory) := by
  intro words
  let c := Context.ofBody b owner m body
  obtain ⟨k, blocks, nodup, _⟩ := function_spec (c := c) bound lowered
  have given : Lowering.parameters c = .ok f.parameters :=
    function_parameters (c := c) bound lowered
  obtain ⟨frameless, noInitializer⟩ : c.frameSize? = none ∧ c.initializesOwner = false :=
    frameSize?_eq_none arithmetic plain
  -- the function starts by going to the first block of the body
  have empty : k.entry = [] := by
    obtain ⟨y, eq, _, nothing⟩ := k.frame
    rw [eq, frameless, nothing noInitializer]
    rfl
  let σ : State Label := .start (f.arguments words) memory
  have first : f.step? host σ = some (σ.enter (.block .entry)) := by
    have all := k.carries blocks nodup
    rw [BodyCode.listing, BodyCode.main, empty] at all
    exact Carries.step_leave all ⟨rfl, rfl⟩ rfl
  have found : c.body.block? .entry = some _ := List.getElem?_eq_getElem (Body.length_pos checked)
  obtain ⟨b, mem, entry, _⟩ := k.exists_blockCode found
  have together := AtBlock.start arithmetic entry given fit memory
  let Related (a : Activation Address) (σ : State Label) : Prop :=
    ∃ b ∈ k.blocks, AtBlock b (parameterVars m) memory a σ
  have progress (a : Activation Address) (σ : State Label) (related : Related a σ) :=
    related.elim fun b both =>
      both.2.progress provided bound checked strict arithmetic frameless blocks nodup both.1
  rcases end_together progress ⟨b, mem, together⟩ with
    ⟨a, τ, steps, steps', d, operand, result, at', word, same⟩ | ⟨ends, ends'⟩
  · refine .inl ⟨d, ⟨a, steps, result⟩, ?_, τ, operand, .head first steps', at', word, same⟩
    have length := congrArg List.length (map_parameters given)
    rw [List.length_map, List.length_map, parameterVars, List.length_map, List.length_range]
      at length
    rw [List.length_map, fit.length_eq, length]
    rfl
  · exact .inr ⟨ends, ends'.of_step first⟩

/-- A loop that counts the binary digits of a number and compares their count with another number.
-/
def binaryDigits : Body :=
  { kinds := List.replicate 9 .int
    blocks :=
      [{ BasicBlock.empty with
          instructions := [.intConstant ⟨2⟩ 1, .intConstant ⟨3⟩ 0]
          terminator := .jump ⟨1⟩ },
       { BasicBlock.empty with
          phis := [⟨⟨4⟩, [⟨⟨0⟩, ⟨0⟩⟩, ⟨⟨2⟩, ⟨6⟩⟩]⟩, ⟨⟨5⟩, [⟨⟨0⟩, ⟨3⟩⟩, ⟨⟨2⟩, ⟨7⟩⟩]⟩]
          terminator := .branch .equal ⟨4⟩ ⟨3⟩ ⟨2⟩ },
       { BasicBlock.empty with
          instructions :=
            [.binary .shiftRightUnsigned ⟨6⟩ ⟨4⟩ ⟨2⟩ .int, .binary .add ⟨7⟩ ⟨5⟩ ⟨2⟩ .int]
          terminator := .jump ⟨1⟩ },
       { BasicBlock.empty with
          instructions := [.binary .compare ⟨8⟩ ⟨5⟩ ⟨1⟩ .int]
          terminator := .exit (some ⟨8⟩) }] }

/-- The method with this body. -/
def digitsMethod : MethodDef :=
  { signature := ⟨"digits", [.primitive .int, .primitive .int], .primitive .int⟩
    isStatic := true
    isNative := false
    isAbstract := false
    access := .anyClass
    body := some binaryDigits }

/-- The class with this method. -/
def numbers : ClassDef := { ClassDef.empty "Numbers" with methods := [digitsMethod] }

/-- The class alone. -/
def numbersProgram : Program := { classes := [numbers], entryPoint := none, nodup := by decide }

/-- The body of the example has nothing but arithmetic. -/
lemma binaryDigits_isArithmetic : binaryDigits.IsArithmetic where
  entry := by
    rintro block ⟨⟩
    rfl
  unprotected := by decide
  instructions := by decide
  terminators := by decide
  covered := by decide

/-- The body of the example is in strict form. -/
lemma binaryDigits_strict : binaryDigits.StrictSsa (parameterVars digitsMethod) := by
  let available (id : BlockId) : List Var :=
    [[⟨0⟩, ⟨1⟩], [⟨1⟩, ⟨2⟩, ⟨4⟩, ⟨5⟩], [⟨1⟩, ⟨2⟩, ⟨4⟩, ⟨5⟩], [⟨1⟩, ⟨5⟩]].getD id.index []
  have availability : binaryDigits.Availability (parameterVars digitsMethod) available :=
    ⟨by decide, by decide, by decide, by decide, by decide, by decide⟩
  exact availability.strictSsa

/-- Five has three digits, which are more than two. -/
lemma binaryDigits_returns :
    binaryDigits.Returns (ρ := Address) [.int 5, .int 2] (.int 1) := by
  have computed : (after? (binaryDigits.step? (ρ := Address)) 17
      (Body.start [.int 5, .int 2])).bind binaryDigits.result? = some (.int 1) := by
    decide
  obtain ⟨a, comes, result⟩ := Option.bind_eq_some_iff.1 computed
  exact ⟨a, steps_of_after? comes, result⟩

/-- So the function that is emitted for the method says so, too. -/
theorem binaryDigits_refined :
    ∃ b f pools, Backend.ofProgram numbersProgram .default = .ok b ∧
      (function (.ofBody b numbers digitsMethod binaryDigits)).run .empty = .ok (f, pools) ∧
      ∀ m, f.Returns Environment.comparing [.int 5, .int 2] m (.int 1) m := by
  have computed : ((Backend.ofProgram numbersProgram .default).toOption.bind fun b =>
      ((function (.ofBody b numbers digitsMethod binaryDigits)).run .empty).toOption.map fun _ =>
        b.program.needsInitialization numbers.name) = some false := by
    cbv
  obtain ⟨b, ⟨f, pools⟩, built, lowered, plain⟩ := Except.exists_of_toOption_bind_map computed
  refine ⟨b, f, pools, built, lowered, fun m => ?_⟩
  have checked : binaryDigits.check "digits" = .ok () := by rfl
  have fit : List.Forall₂ Scalar.HasKind ([.int 5, .int 2] : List (Scalar Address))
      (declaredKinds digitsMethod) := .cons trivial (.cons trivial .nil)
  rcases function_refines_body checked (by decide) binaryDigits_strict binaryDigits_isArithmetic
    plain lowered Environment.comparing_provides fit m with ⟨d, returns, returned⟩ | ⟨ends, _⟩
  · obtain rfl := returns.eq binaryDigits_returns
    exact returned
  · exact absurd ends binaryDigits_returns.ends

end ObjectBackend.Lowering
