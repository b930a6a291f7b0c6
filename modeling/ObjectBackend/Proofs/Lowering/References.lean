import ObjectBackend.Proofs.Flow.Liveness
import ObjectBackend.Proofs.Lowering.ControlFlow

/-!
# References at call sites

What a collector relies on when it runs within a call: the frame of the function holds the
references that are live at the site, and the table of call sites knows how many there are
(`sites_keep_references`).
-/

namespace ObjectBackend.Lowering

open Target Listing

section Sources

variable {σ τ : Type} (g : σ → τ)

/-- The stores of a call site are no phis. -/
lemma mapSources_siteStores (size? : Option Nat) (live : List Var) (number temporary : Nat) :
    (siteStores size? live number temporary).map (Line.mapSources g) =
      siteStores size? live number temporary := by
  cases size? with
  | none => rfl
  | some size =>
    rw [siteStores, siteStores, List.map_append, List.map_flatMap]
    rfl

/-- The code that makes a frame has no phis. -/
lemma mapSources_frameCode (size? : Option Nat) (temporary : Nat) :
    (frameCode size? temporary).map (Line.mapSources g) = frameCode size? temporary := by
  cases size? with
  | none => rfl
  | some size => rfl

/-- The sources of phis do not matter to the number of calls. -/
lemma countP_isCall_mapSources (lines : List (Line Label σ)) :
    (lines.map (Line.mapSources g)).countP Line.isCall = lines.countP Line.isCall := by
  rw [List.countP_map]
  congr 1
  funext l
  cases l with
  | run i | define _ i => cases i <;> rfl
  | comment | phi | leave => rfl

/-- The lines of a site have nothing to do with phis. -/
lemma SiteLines.mapSources {c : Context} {number : Nat} {lines : List (Line Label σ)}
    {point : SitePoint} (h : SiteLines c number lines point) :
    SiteLines c number (lines.map (Line.mapSources g)) point := by
  cases point with
  | start | instruction id position =>
    obtain ⟨temporary, rest, rfl, call⟩ := h
    refine ⟨temporary, rest.map (Line.mapSources g), ?_, ?_⟩
    · rw [List.map_append, mapSources_siteStores]
    · rw [countP_isCall_mapSources]
      exact call
  | raise id =>
    obtain ⟨exception, temporary, thrown, rfl⟩ := h
    refine ⟨exception, temporary, thrown, ?_⟩
    rw [List.map_cons, mapSources_siteStores]
    rfl

end Sources

namespace Context

variable {c : Context}

/-- The sites of a method are where its body has them. -/
lemma of_mem_sitePoints (bound : c.body.blocks.length ≤ UInt32.size) {point : SitePoint}
    (mem : point ∈ c.sitePoints) :
    (point = .start ∧ c.initializesOwner = true) ∨
      (∃ id position b i, point = .instruction id position ∧ c.body.block? id = some b ∧
        b.instructions[position]? = some i ∧ i.isCallSite = true) ∨
      ∃ id, point = .raise id := by
  rw [sitePoints, startPoints, List.mem_append] at mem
  rcases mem with mem | mem
  · split at mem
    case isTrue initializes => exact .inl ⟨List.mem_singleton.1 mem, initializes⟩
    case isFalse => cases mem
  · obtain ⟨⟨id, b⟩, numbered, mem⟩ := List.mem_flatMap.1 mem
    have found : c.body.block? id = some b := Body.block?_of_mem bound numbered
    change point ∈ c.blockPoints id b at mem
    rw [blockPoints, List.mem_append] at mem
    rcases mem with mem | mem
    · obtain ⟨⟨i, position⟩, instr, mem⟩ := List.mem_flatMap.1 mem
      change point ∈ c.instructionPoints id i position at mem
      rw [instructionPoints] at mem
      split at mem
      case isTrue site =>
        refine .inr (.inl ⟨id, position, b, i, List.mem_singleton.1 mem, found, ?_, ?_⟩)
        · exact List.mk_mem_zipIdx_iff_getElem?.1 instr
        · exact isCallSite_of_isSite site
      case isFalse => cases mem
    · rw [raisePoints] at mem
      split at mem
      · exact .inr (.inr ⟨id, List.mem_singleton.1 mem⟩)
      · cases mem

end Context

/-- The references of a site are where they are looked for: the code stores them under the number of
the site in a frame that has room for them, and they are those that the analysis gives. -/
structure Keeps (c : Context) (f : Function Label) (number : Nat) (point : SitePoint) : Prop where
  emitted : ∃ b ∈ f.blocks, ∃ lines, lines <:+: b.lines ∧ SiteLines c number lines point
  room : ∀ size, c.frameSize? = some size → (c.liveAt point).length ≤ size
  frameless : c.frameSize? = none → ∃ id, point = .raise id
  analysed : ∀ id position, point = .instruction id position →
    ∃ live, c.liveness.siteAt? id position = some ⟨id, position, live⟩ ∧ c.liveAt point = live

namespace BodyCode

variable {c : Context} (k : BodyCode c)

/-- The sites of a body are marked in its code, in their order. -/
lemma marks_spec :
    List.Forall₂ (fun point m => SiteLines c m.number m.lines point) c.sitePoints k.marks := by
  have points : (c.body.numberedBlocks.flatMap fun entry => c.blockPoints entry.1 entry.2) =
      k.blocks.flatMap fun b => c.blockPoints b.id b.block := by
    rw [← k.numbered, List.flatMap_map]
  rw [marks]
  change List.Forall₂ _ (c.startPoints ++
    c.body.numberedBlocks.flatMap fun entry => c.blockPoints entry.1 entry.2) _
  rw [points]
  refine List.rel_append k.entryLines ?_
  induction k.blocks with
  | nil => exact .nil
  | cons b bs ih =>
    rw [List.flatMap_cons, List.flatMap_cons]
    exact List.rel_append b.lines ih

/-- The entry stands at the start of the listing. -/
lemma entry_prefix : k.entry <+: k.listing := by
  rw [listing, main, List.append_assoc, List.append_assoc, List.append_assoc]
  exact List.prefix_append ..

/-- The code of each block stands in the listing. -/
lemma block_infix {b : BlockCode c} (mem : b ∈ k.blocks) : b.listing <:+: k.listing := by
  obtain ⟨before, after, split⟩ := List.append_of_mem mem
  rw [listing, main, split, List.flatMap_append, List.flatMap_cons]
  refine ⟨k.entry ++ [.line (.leave (.br (.block .entry)))] ++ before.flatMap (·.listing),
    after.flatMap (·.listing) ++ exitCode c k.exits ++ unwindCode c (!k.marks.isEmpty), ?_⟩
  simp only [List.append_assoc]

/-- The lines of each site stand together in the code. -/
lemma infix_listing {m : Mark} (mem : m ∈ k.marks) : ofLines m.lines <:+: k.listing := by
  rcases List.mem_append.1 mem with mem | mem
  · exact (k.entryWithin m mem).trans k.entry_prefix.isInfix
  · obtain ⟨b, memb, mem⟩ := List.mem_flatMap.1 mem
    have inner : b.inner <:+: b.listing :=
      ⟨.start (.block b.id) :: ofLines b.phis, [.line (.leave b.term)] ++ b.pad,
        by simp [BlockCode.listing, BlockCode.content]⟩
    exact (b.within m mem).trans (inner.trans (k.block_infix memb))

/-- Each part of the code is in a block of the function. -/
lemma exists_block {f : Function Label} (blocks : f.blocks = k.functionBlocks)
    {lines : List DraftLine} (part : ofLines lines <:+: k.listing) :
    ∃ b ∈ f.blocks, lines.map (Line.mapSources k.resolve) <:+: b.lines := by
  obtain ⟨d, mem, within⟩ := exists_block_of_infix ⟨.entry, []⟩ part
  refine ⟨d.mapSources k.resolve, ?_, within.map _⟩
  rw [blocks]
  exact List.mem_map_of_mem mem

end BodyCode

section Frame

variable {c : Context} {name : String}

/-- A frame has room for the references of each site of the analysis. -/
lemma length_live_le {size : Nat} (framed : c.frameSize? = some size) {s : LiveSite}
    (mem : s ∈ c.liveness.sites) : s.live.length ≤ size := by
  have fits := (Liveness.frameSize_spec c.liveness).1 s mem
  rw [Context.frameSize?] at framed
  split at framed
  · cases framed
  · split at framed
    · obtain rfl := Option.some.inj framed
      exact Nat.le_trans fits (Nat.le_max_left ..)
    · obtain rfl := Option.some.inj framed
      exact fits

/-- It has room for the references that the initialization of the owner keeps. -/
lemma length_referenceParameters_le {size : Nat} (framed : c.frameSize? = some size)
    (initializes : c.initializesOwner = true) : c.referenceParameters.length ≤ size := by
  rw [Context.frameSize?, initializes, Bool.not_true, Bool.and_false, if_neg Bool.false_ne_true,
    if_pos rfl] at framed
  obtain rfl := Option.some.inj framed
  exact Nat.le_max_right ..

/-- A method without a frame neither initializes its owner nor has sites in the analysis. -/
lemma of_frameless (frameless : c.frameSize? = none) :
    c.initializesOwner = false ∧ c.liveness.sites = [] := by
  rw [Context.frameSize?] at frameless
  split at frameless
  case isTrue none =>
    rw [Bool.and_eq_true, Bool.not_eq_true', List.isEmpty_iff] at none
    exact ⟨none.2, none.1⟩
  case isFalse =>
    split at frameless
    · cases frameless
    · cases frameless

end Frame

/-- A collector that runs within a call finds all references that are live there. The code of a
method begins with making its frame, if it has one; its call sites are numbered one after the other,
and registered with the number of their live references; and each of them is emitted under its
number, with stores to all cells of the frame. -/
theorem sites_keep_references {b : Backend} {owner : ClassDef} {m : MethodDef} {body : Body}
    {name : String} {f : Function Label} {pools pools' : Pools} (checked : body.check name = .ok ())
    (bound : body.blocks.length ≤ UInt32.size)
    (lowered : (function (.ofBody b owner m body)).run pools = .ok (f, pools')) :
    let c := Context.ofBody b owner m body
    (∃ block ∈ f.blocks, frameCode c.frameSize? 0 <:+: block.lines) ∧
    pools'.sites.sites = pools.sites.sites ++ c.sitePoints.map c.callSite ∧
    ∀ i point, c.sitePoints[i]? = some point →
      Keeps c f (pools.sites.sites.length + i) point := by
  intro c
  obtain ⟨k, blocks, _, numbers, sites⟩ := function_spec (c := c) bound lowered
  refine ⟨?frame, sites, ?keeps⟩
  case frame =>
    obtain ⟨y, eq, _⟩ := k.frame
    have first : ofLines (frameCode c.frameSize? 0) <+: k.entry := eq ▸ List.prefix_append _ y
    obtain ⟨block, mem, within⟩ := k.exists_block blocks (first.trans k.entry_prefix).isInfix
    rw [mapSources_frameCode] at within
    exact ⟨block, mem, within⟩
  case keeps =>
    intro i point at'
    have place := Context.of_mem_sitePoints bound (List.mem_of_getElem? at')
    -- of the three kinds of points only instructions are sites of the analysis
    have analysed : ∀ id position, point = .instruction id position →
        ∃ live, c.liveness.siteAt? id position = some ⟨id, position, live⟩ ∧
          c.liveAt point = live := by
      rintro id position rfl
      rcases place with ⟨eq, _⟩ | ⟨id', position', block, i, eq, found, instr, site⟩ | ⟨id', eq⟩
      · cases eq
      · cases eq
        obtain ⟨live, entry, _⟩ := Liveness.siteAt?_spec checked found instr site
        have found' : c.liveness.siteAt? id position = some ⟨id, position, live⟩ := entry
        refine ⟨live, found', ?_⟩
        rw [Context.liveAt, found']
        rfl
      · cases eq
    refine ⟨?emitted, ?room, ?frameless, analysed⟩
    case emitted =>
      obtain ⟨lt, rfl⟩ := List.getElem?_eq_some_iff.1 at'
      have lt' : i < k.marks.length := k.marks_spec.length_eq ▸ lt
      have lines := k.marks_spec.get lt lt'
      have number : k.marks[i].number = pools.sites.sites.length + i := by
        have numbered : (k.marks.map (·.number))[i]? = _ := congrArg (·[i]?) numbers
        rw [List.getElem?_map, List.getElem?_eq_getElem lt', List.getElem?_range' lt,
          Nat.one_mul] at numbered
        exact Option.some.inj numbered
      obtain ⟨block, mem, within⟩ := k.exists_block blocks (k.infix_listing (List.getElem_mem lt'))
      refine ⟨block, mem, _, within, ?_⟩
      rw [← number]
      exact SiteLines.mapSources k.resolve lines
    case room =>
      intro size framed
      rcases place with ⟨rfl, initializes⟩ | ⟨id, position, _, _, rfl, _⟩ | ⟨id, rfl⟩
      · exact length_referenceParameters_le framed initializes
      · obtain ⟨live, entry, eq⟩ := analysed id position rfl
        rw [eq]
        exact length_live_le framed (List.mem_of_find?_eq_some entry)
      · exact Nat.zero_le size
    case frameless =>
      -- a body without a frame has no sites but those of raises
      intro none
      obtain ⟨initializes, noSites⟩ := of_frameless none
      rcases place with ⟨_, initializes'⟩ | ⟨id, position, _, _, eq, _⟩ | raise
      · rw [initializes] at initializes'
        cases initializes'
      · obtain ⟨live, entry, _⟩ := analysed id position eq
        have mem := List.mem_of_find?_eq_some entry
        rw [noSites] at mem
        cases mem
      · exact raise

/-- Call a method and return an object that is there before. -/
def echo : Body :=
  { kinds := [.object]
    blocks :=
      [{ BasicBlock.empty with
          instructions := [.invoke none none ⟨"Clock", ⟨"tick", [], .void⟩⟩ [] .static]
          terminator := .exit (some ⟨0⟩) }] }

/-- The method of the body. -/
def echoMethod : MethodDef :=
  { waitMethod with
    signature := ⟨"echo", [.object "Clock"], .object "Clock"⟩
    body := some echo }

/-- The object is kept in the frame while the method is called. -/
theorem echo_keeps_object :
    ∃ b f pools, Backend.ofProgram clockProgram .default = .ok b ∧
      (function (.ofBody b clock echoMethod echo)).run .empty = .ok (f, pools) ∧
      pools.sites.sites = [⟨1, []⟩] ∧
      Keeps (.ofBody b clock echoMethod echo) f 0 (.instruction ⟨0⟩ 0) := by
  have computed : ((Backend.ofProgram clockProgram .default).toOption.bind fun b =>
      ((function (.ofBody b clock echoMethod echo)).run .empty).toOption.map fun r =>
        ((Context.ofBody b clock echoMethod echo).sitePoints, r.2.sites.sites)) =
          some ([.instruction ⟨0⟩ 0], [⟨1, []⟩]) := by
    cbv
  obtain ⟨b, ⟨f, pools⟩, built, lowered, values⟩ := Except.exists_of_toOption_bind_map computed
  obtain ⟨points, sites⟩ := Prod.mk.inj values
  have checked : echo.check "echo" = .ok () := by rfl
  obtain ⟨_, _, keeps⟩ := sites_keep_references checked (by decide) lowered
  refine ⟨b, f, pools, built, lowered, sites, ?_⟩
  exact keeps 0 _ (congrArg (·[0]?) points)

end ObjectBackend.Lowering
