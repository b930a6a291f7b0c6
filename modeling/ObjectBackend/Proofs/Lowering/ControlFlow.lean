import ObjectBackend.Proofs.Evaluation
import ObjectBackend.Proofs.Image.LabelText
import ObjectBackend.Proofs.Lowering.BodyGraph

/-!
# Control flow

The functions that methods are lowered to are well-formed control-flow graphs
(`method_wellFormed`).
-/

namespace ObjectBackend

open Target Lowering Listing

/-- The edges between the blocks of a function: one for each time that a terminator names a block.
-/
def Target.Function.edges (f : Function Label) : List (Label × Label) := f.blocks.flatMap blockEdges

/-- A function is a well-formed control-flow graph. -/
structure Target.Function.WellFormed (f : Function Label) : Prop where
  /-- Labels differ, as they are written. -/
  labels : (f.blocks.map fun b => b.label.text).Nodup
  /-- Each block ends in its only terminator. -/
  ends : ∀ b ∈ f.blocks, ∃ lines t, b.lines = lines ++ [.leave t] ∧ ∀ l ∈ lines, l.isLeave = false
  /-- Each edge leads to a block. -/
  targets : ∀ e ∈ f.edges, ∃ b ∈ f.blocks, b.label = e.2
  /-- Each phi has a value for each edge into its block. -/
  phis : ∀ b ∈ f.blocks, ∀ receiver type incomings, .phi receiver type incomings ∈ b.lines →
    (incomings.map Prod.snd).Perm (sourcesTo b.label f.edges)

namespace Lowering

variable {σ τ : Type} {c : Context}

/-- The sources of phis have nothing to do with edges. -/
lemma blockEdges_mapSources (g : σ → τ) (b : Block Label σ) :
    blockEdges (b.mapSources g) = blockEdges b := by
  have lines : ∀ l : Line Label σ, lineEdges b.label (l.mapSources g) = lineEdges b.label l := by
    intro l
    cases l <;> rfl
  rw [blockEdges, Block.mapSources, List.flatMap_map]
  exact List.flatMap_congr fun l _ => lines l

/-- The sources of phis do not matter to whether a line leaves its block. -/
lemma isLeave_mapSources (g : σ → τ) (l : Line Label σ) : (l.mapSources g).isLeave = l.isLeave := by
  cases l <;> rfl

namespace BodyCode

variable (k : BodyCode c)

/-- The blocks of a function are the entry and those that its listing starts. -/
lemma label_functionBlocks :
    k.functionBlocks.map Block.label = .entry :: labels k.listing := by
  rw [functionBlocks, List.map_map, ← labels_blocks ⟨.entry, []⟩]
  rfl

/-- The edges of a function are those of its listing. -/
lemma edges_functionBlocks : k.functionBlocks.flatMap blockEdges = edges .entry k.listing := by
  rw [functionBlocks, List.flatMap_map]
  refine (List.flatMap_congr fun b _ => blockEdges_mapSources _ b).trans ?_
  exact edges_blocks ⟨.entry, []⟩ k.listing

/-- Each phi of the function is one of the listing, with its sources resolved. -/
lemma joins_functionBlocks {b : Block Label Label} (mem : b ∈ k.functionBlocks) {receiver : Value}
    {type : IrType} {incomings : List (Value × Label)}
    (phi : .phi receiver type incomings ∈ b.lines) :
    ∃ sources, (b.label, sources) ∈ joins .entry k.listing ∧
      incomings.map Prod.snd = sources.map k.resolve := by
  obtain ⟨d, memd, rfl⟩ := List.mem_map.1 mem
  obtain ⟨l, meml, eq⟩ := List.mem_map.1 phi
  cases l with
  | phi receiver' type' incomings' =>
    obtain ⟨rfl, rfl, rfl⟩ := Line.phi.inj eq
    refine ⟨incomings'.map Prod.snd, ?_, ?_⟩
    · have all := joins_blocks ⟨.entry, []⟩ k.listing
      change _ = joins .entry k.listing at all
      rw [← all]
      exact List.mem_flatMap.2 ⟨d, memd, List.mem_flatMap.2 ⟨_, meml, List.mem_singleton_self _⟩⟩
    · rw [List.map_map, List.map_map]
      rfl
  | comment | run | define | leave => cases eq

/-- The code of a body makes a well-formed function, if the phis of the body are complete. -/
lemma wellFormed (bound : c.body.blocks.length ≤ UInt32.size) {name : String}
    (checked : c.body.check name = .ok ())
    (complete : ∀ e ∈ c.body.numberedBlocks, ∀ phi ∈ e.2.phis, ∀ source ∈ c.body.predecessors e.1,
      (phi.incomings.map (·.source)).count source = 1)
    {f : Function Label} (blocks : f.blocks = k.functionBlocks)
    (nodup : (.entry :: labels k.listing).Nodup) : f.WellFormed := by
  have edges : f.edges = Listing.edges .entry k.listing := by
    rw [Function.edges, blocks, edges_functionBlocks]
  refine ⟨?labels, ?ends, ?targets, ?phis⟩
  case labels =>
    have texts : (f.blocks.map fun b => b.label.text) =
        (.entry :: Listing.labels k.listing).map Label.text := by
      rw [blocks, ← label_functionBlocks, List.map_map]
      rfl
    rw [texts]
    exact nodup.map Label.text_injective
  case ends =>
    -- resolving the sources of phis keeps the last line the only one that leaves
    rw [blocks]
    intro b mem
    obtain ⟨d, memd, rfl⟩ := List.mem_map.1 mem
    obtain ⟨lines, t, eq, stay⟩ := k.fits d memd
    refine ⟨lines.map (Line.mapSources k.resolve), t, ?_, ?_⟩
    · rw [Block.mapSources, eq, List.map_append]
      rfl
    · intro l mem
      obtain ⟨l', meml, rfl⟩ := List.mem_map.1 mem
      rw [isLeave_mapSources]
      exact stay l' meml
  case targets =>
    intro e mem
    rw [edges] at mem
    have label : e.2 ∈ f.blocks.map Block.label := by
      rw [blocks, label_functionBlocks]
      exact List.mem_cons_of_mem _ (k.mem_labels checked mem)
    exact List.mem_map.1 label
  case phis =>
    intro b mem receiver type incomings phi
    rw [blocks] at mem
    obtain ⟨sources, joined, eq⟩ := k.joins_functionBlocks mem phi
    rw [eq, edges]
    exact k.joins_perm bound checked complete joined

end BodyCode

/-- A method that is defined has a body, and is lowered by the code for it. -/
lemma function_of_method {b : Backend} {owner : ClassDef} {m : MethodDef} {body : Body}
    {f : Function Label} {pools pools' : Pools} (given : m.body = some body)
    (lowered : (method b owner m).run pools = .ok (some (.define f), pools')) :
    (function (.ofBody b owner m body)).run pools = .ok (f, pools') := by
  cases method_spec lowered with
  | function _ _ found lowered =>
    obtain rfl := Option.some.inj (given.symm.trans found)
    exact lowered

/-- A method of a checked program is lowered to a well-formed control-flow graph, whatever its
handlers, branches and call sites: if each phi of its body names each predecessor once, each phi of
the function has a value for each edge. The bound says that each block has a number of its own. -/
theorem method_wellFormed {p : Program} {settings : Settings} {b : Backend} {owner : ClassDef}
    {m : MethodDef} {body : Body} {f : Function Label} {pools pools' : Pools}
    (built : Backend.ofProgram p settings = .ok b) (memc : owner ∈ p.classes)
    (memm : m ∈ owner.methods) (given : m.body = some body)
    (bound : body.blocks.length ≤ UInt32.size)
    (complete : ∀ e ∈ body.numberedBlocks, ∀ phi ∈ e.2.phis, ∀ source ∈ body.predecessors e.1,
      (phi.incomings.map (·.source)).count source = 1)
    (lowered : (method b owner m).run pools = .ok (some (.define f), pools')) : f.WellFormed := by
  have checked : body.check (owner.reference m).text = .ok () := by
    obtain ⟨_, checked, _⟩ := Except.exists_of_bind_eq_ok built
    have classes := Except.of_forM_eq_ok (Except.of_mapError_eq_ok checked) memc
    have bodies := Except.of_forM_eq_ok classes memm
    rw [given] at bodies
    exact Except.of_forM_eq_ok bodies (Option.mem_toList.2 rfl)
  let c := Context.ofBody b owner m body
  obtain ⟨k, blocks, nodup, _⟩ := function_spec (c := c) bound (function_of_method given lowered)
  exact k.wellFormed bound checked complete blocks nodup

/-- Wait until a count is zero or a call throws an exception; both lead to the last block. -/
def waiting : Body :=
  { kinds := [.int, .int, .int]
    blocks :=
      [{ BasicBlock.empty with terminator := .jump ⟨1⟩ },
       { BasicBlock.empty with
          phis := [⟨⟨1⟩, [⟨⟨0⟩, ⟨0⟩⟩, ⟨⟨1⟩, ⟨1⟩⟩]⟩]
          instructions := [.invoke none none ⟨"Clock", ⟨"tick", [], .void⟩⟩ [] .static]
          terminator := .branch .equal ⟨1⟩ ⟨2⟩ ⟨1⟩
          tryCatches := [⟨none, ⟨2⟩⟩] },
       { BasicBlock.empty with
          phis := [⟨⟨2⟩, [⟨⟨1⟩, ⟨1⟩⟩]⟩]
          terminator := .exit none }] }

/-- The method of the body. -/
def waitMethod : MethodDef :=
  { signature := ⟨"wait", [.primitive .int], .void⟩, isStatic := true, isNative := false
    isAbstract := false, access := .anyClass, body := some waiting }

/-- A class with the method and the one that it calls. -/
def clock : ClassDef :=
  { ClassDef.empty "Clock" with
    methods :=
      [waitMethod,
       { waitMethod with signature := ⟨"tick", [], .void⟩, isNative := true, body := none }] }

/-- The class alone. -/
def clockProgram : Program := { classes := [clock], entryPoint := none, nodup := by decide }

/-- The labels of the blocks of a function. -/
def labelTexts : Option (Entry Label) × Pools → Option (List String)
  | (some (.define f), _) => some (f.blocks.map (·.label.text))
  | _ => none

/-- The last block of the body is entered from the one before and from its landing pad. -/
theorem clock_wellFormed :
    ∃ b f pools, Backend.ofProgram clockProgram .default = .ok b ∧
      (method b clock waitMethod).run .empty = .ok (some (.define f), pools) ∧
      f.blocks.map (·.label.text) =
        ["entry", "b0", "b1", "b1.0", "b1.lp", "b2", "exit", "unwind"] ∧ f.WellFormed := by
  have computed : ((Backend.ofProgram clockProgram .default).toOption.bind fun b =>
      ((method b clock waitMethod).run .empty).toOption.bind labelTexts) =
        some ["entry", "b0", "b1", "b1.0", "b1.lp", "b2", "exit", "unwind"] := by
    cbv
  obtain ⟨b, built, computed⟩ := Option.bind_eq_some_iff.1 computed
  obtain ⟨⟨entry, pools⟩, lowered, texts⟩ := Option.bind_eq_some_iff.1 computed
  have built : Backend.ofProgram clockProgram .default = .ok b := Except.eq_ok_of_toOption built
  cases entry with
  | none => cases texts
  | some entry =>
    cases entry with
    | define f =>
      have lowered : (method b clock waitMethod).run .empty = .ok (some (.define f), pools) :=
        Except.eq_ok_of_toOption lowered
      refine ⟨b, f, pools, built, lowered, Option.some.inj texts, ?_⟩
      exact method_wellFormed built (List.mem_singleton_self _) (List.mem_cons_self ..) rfl
        (by decide) (by decide) lowered
    | blank | comment | sourceName | dataLayout | targetTriple | typeDef | external | declare
    | data =>
      cases texts

end Lowering

end ObjectBackend
