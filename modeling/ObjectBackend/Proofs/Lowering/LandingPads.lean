import ObjectBackend.Proofs.Lowering.References
import ObjectBackend.Proofs.Target.Machine

/-!
# Landing pads

What the search for a handler relies on: the number that a landing pad is told of a call site is the
position of the site in the table of call sites, the table lists the handlers of the pad's block
there, and the pad goes to the handler that has been selected (`landing_pads_agree`).
-/

namespace ObjectBackend

open Target

/-- The table of call sites lists some handled classes under a number, in their order. -/
def CallSites.Lists (t : CallSites) (number : Nat) (handled : List (Option String)) : Prop :=
  ∃ type items live,
    .data (.runtime .callSites) .readOnly type (.sequence items) ∈ t.entries ∧
    items[number]? = some (.runtime .callSite, .record
      [Constant.i32 (.int live), Constant.i32 (.int handled.length),
        Constant.ptr (if handled.isEmpty then .null else .symbol (.handlers number))]) ∧
    (handled.isEmpty = false →
      .data (.handlers number) .privateReadOnly (.array handled.length .ptr)
        (.sequence (handled.map CallSites.handlerContents)) ∈ t.entries)

/-- A registered site stands in the table at the position of its number. -/
lemma CallSites.lists_of_getElem? {t : CallSites} {number : Nat} {site : CallSite}
    (registered : t.sites[number]? = some site) : t.Lists number site.handled := by
  have entry : t.sites.zipIdx[number]? = some (site, number) := by
    rw [List.getElem?_zipIdx, registered]
    simp
  rw [Lists, entries_eq]
  refine ⟨_, _, site.liveReferences, List.mem_append_right _ (List.mem_cons_self ..), ?_, ?_⟩
  · rw [List.getElem?_map, entry]
    rfl
  · intro handles
    refine List.mem_append_left _ (List.mem_flatMap.2 ⟨_, List.mem_of_getElem? entry, ?_⟩)
    change _ ∈ handlerEntries site number
    rw [handlerEntries, handles]
    exact List.mem_singleton_self _

namespace Lowering

open Listing

/-- The block of the body that a site belongs to. -/
def SitePoint.block? : SitePoint → Option BlockId
  | start => none
  | instruction id _ | raise id => some id

/-- Where an exception goes when a number has been selected for it. -/
def handlerTarget (b : BasicBlock) : Int → Label
  | .ofNat i => b.tryCatches[i]?.elim .unwind fun h => .block h.handler
  | .negSucc _ => .unwind

/-- The lines of a landing pad: a number is selected for the pending exception and the site that it
comes from, and the exception goes where it goes by that number. -/
def IsPad (id : BlockId) (b : BasicBlock) (incomings : List (Value × Label))
    (lines : List (Line Label Label)) : Prop :=
  ∃ exception selected t,
    lines =
      [.phi (.register (.landingSite id)) .i32 incomings,
        .define (.register exception) (.load .ptr (.ofRuntime .pendingException)),
        .define (.register selected) (.call .i32 (.ofRuntime .selectHandler)
          [.ptr (.register exception), ⟨.i32, .register (.landingSite id)⟩]),
        .leave t] ∧
    ∀ (r : Registers) (i : Int), r selected = some (.int i) →
      t.target? r = some (handlerTarget b i)

/-- A function agrees with a table of call sites on the numbers of its sites: the table lists the
handlers of each site, the code has the sites under their numbers, and each landing pad gets the
numbers of sites with just the handlers that it goes to. -/
structure FunctionAgrees (c : Context) (f : Function Label) (t : CallSites)
    (numbers : List Nat) : Prop where
  sites : List.Forall₂ (fun point number => t.Lists number (c.handledAt point) ∧
    ∃ b ∈ f.blocks, ∃ lines, lines <:+: b.lines ∧ SiteLines c number lines point)
    c.sitePoints numbers
  outside : ∀ point number, (point, number) ∈ c.sitePoints.zip numbers →
    (∀ id ∈ point.block?, ∀ b ∈ c.body.block? id, b.isProtected = false) → t.Lists number []
  pads : ∀ pad ∈ f.blocks, ∀ id, pad.label = .landing id → ∃ b incomings,
    c.body.block? id = some b ∧ IsPad id b incomings pad.lines ∧
    ∀ e ∈ incomings, ∃ (point : SitePoint) (number : Nat), e.1 = .int number ∧
      (point, number) ∈ c.sitePoints.zip numbers ∧ point.block? = some id ∧
      t.Lists number (b.tryCatches.map (·.exceptionType))

/-- The function of a method agrees with a table; what has no function has no call sites. -/
def MethodAgrees (b : Backend) (t : CallSites) (e : ClassDef × MethodDef)
    (result : Option (Entry Label) × List Nat) : Prop :=
  match result with
  | (some (.define f), numbers) =>
    ∃ body, e.2.body = some body ∧ FunctionAgrees (.ofBody b e.1 e.2 body) f t numbers
  | (_, numbers) => numbers = []

section Handlers

variable (hs : List TryCatch)

/-- A selected number is looked up as the handler in its place. -/
lemma lookup_handlers (n i : Nat) :
    List.lookup (Int.ofNat (n + i)) ((hs.zipIdx n).map fun (h, i) =>
      (Int.ofNat i, Label.block h.handler)) = hs[i]?.map fun h => .block h.handler := by
  induction hs generalizing n i with
  | nil => rfl
  | cons h hs ih =>
    rw [List.zipIdx_cons, List.map_cons, List.lookup_cons]
    cases i with
    | zero => simp
    | succ i =>
      have other : (Int.ofNat (n + (i + 1)) == Int.ofNat n) = false := by simp; omega
      have next := ih (n + 1) i
      rw [Nat.add_right_comm] at next
      rw [other]
      exact next

/-- A negative number selects no handler. -/
lemma lookup_handlers_negSucc (n i : Nat) :
    List.lookup (Int.negSucc i) ((hs.zipIdx n).map fun (h, i) =>
      (Int.ofNat i, Label.block h.handler)) = none := by
  induction hs generalizing n with
  | nil => rfl
  | cons h hs ih =>
    rw [List.zipIdx_cons, List.map_cons, List.lookup_cons]
    exact ih (n + 1)

/-- The switch of a landing pad goes to the handler in the selected place, or on to the callers. -/
lemma target?_switch (b : BasicBlock) {r : Registers} {v : Value} {i : Int}
    (selected : v.word? r = some (.int i)) :
    (Term.switch .i32 v .unwind (b.tryCatches.zipIdx.map fun (h, i) =>
      (Int.ofNat i, Label.block h.handler))).target? r = some (handlerTarget b i) := by
  rw [Term.target?, selected]
  change some ((List.lookup i _).getD Label.unwind) = _
  cases i with
  | ofNat i =>
    have found := lookup_handlers b.tryCatches 0 i
    rw [Nat.zero_add] at found
    rw [found, handlerTarget]
    cases b.tryCatches[i]? <;> rfl
  | negSucc i =>
    rw [lookup_handlers_negSucc]
    rfl

end Handlers

variable {c : Context}

section Points

variable {id : BlockId} {b : BasicBlock} {point : SitePoint}

/-- The call sites of a block are in it. -/
lemma block?_of_mem_blockPoints (mem : point ∈ c.blockPoints id b) : point.block? = some id := by
  rw [Context.blockPoints, List.mem_append] at mem
  rcases mem with mem | mem
  · obtain ⟨⟨i, position⟩, _, mem⟩ := List.mem_flatMap.1 mem
    change point ∈ c.instructionPoints id i position at mem
    rw [Context.instructionPoints] at mem
    split at mem
    · rw [List.mem_singleton.1 mem]
      rfl
    · cases mem
  · rw [raisePoints] at mem
    split at mem
    · rw [List.mem_singleton.1 mem]
      rfl
    · cases mem

/-- A call site in a block is handled by the classes of its protected ranges. -/
lemma handledAt_of_block? (block : point.block? = some id) (found : c.body.block? id = some b) :
    c.handledAt point = b.tryCatches.map (·.exceptionType) := by
  cases point with
  | start => cases block
  | instruction id' position | raise id' =>
    cases block
    rw [Context.handledAt, found]
    rfl

/-- Outside of protected blocks nothing is handled. -/
lemma handledAt_of_not_protected
    (outside : ∀ id ∈ point.block?, ∀ b ∈ c.body.block? id, b.isProtected = false) :
    c.handledAt point = [] := by
  cases point with
  | start => rfl
  | instruction id position | raise id =>
    cases found : c.body.block? id with
    | none => rw [Context.handledAt, found, Option.elim_none]
    | some b =>
      have unprotected := outside id rfl b found
      rw [BasicBlock.isProtected, Bool.not_eq_false', List.isEmpty_iff] at unprotected
      rw [Context.handledAt, found, Option.elim_some, unprotected, List.map_nil]

end Points

namespace BodyCode

variable (k : BodyCode c)

/-- The landing pad of a block makes a block of its own. -/
lemma pad_mem {b : BlockCode c} (mem : b ∈ k.blocks) {lines : List DraftLine} {ℓ : Label}
    (pad : b.pad = .start ℓ :: ofLines lines) :
    ⟨ℓ, lines⟩ ∈ Listing.blocks ⟨.entry, []⟩ k.listing := by
  obtain ⟨before, after, split⟩ := List.append_of_mem mem
  let x := k.entry ++ [.line (.leave (.br (.block .entry)))] ++ before.flatMap (·.listing) ++
    .start (.block b.id) :: b.content
  let y := after.flatMap (·.listing) ++ exitCode c k.exits ++ unwindCode c (!k.marks.isEmpty)
  have eq : k.listing = x ++ .start ℓ :: (ofLines lines ++ y) := by
    have own : b.listing = .start (.block b.id) :: b.content ++ .start ℓ :: ofLines lines := by
      rw [BlockCode.listing, pad]
      rfl
    rw [listing, main, split, List.flatMap_append, List.flatMap_cons, own]
    simp [x, y]
  have left : isOpen? false y = some false := by
    rw [isOpen?_append, isOpen?_append, isOpen?_blocks, Option.bind_some, isOpen?_exitCode,
      Option.bind_some, isOpen?_unwindCode]
  rw [eq]
  exact mem_blocks_of_start _ left

/-- Only blocks of the body have landing pads. -/
lemma exists_of_landing {id : BlockId} (mem : .landing id ∈ .entry :: labels k.listing) :
    ∃ b ∈ k.blocks, b.id = id ∧ (b.place.landings b.sites).isEmpty = false := by
  rw [labels_listing, List.mem_cons, List.mem_append, List.mem_append, List.mem_append] at mem
  rcases mem with eq | ((mem | mem) | mem) | mem
  · cases eq
  · cases k.region.isSplit_of_mem_labels mem
  · obtain ⟨b, memb, mem⟩ := List.mem_flatMap.1 mem
    rw [b.labels_listing, List.mem_cons, List.mem_append] at mem
    rcases mem with eq | mem | mem
    · cases eq
    · cases b.region.isSplit_of_mem_labels mem
    · split at mem
      case isTrue => cases mem
      case isFalse some =>
        exact ⟨b, memb, (Label.landing.inj (List.mem_singleton.1 mem)).symm,
          Bool.eq_false_iff.2 some⟩
  · split at mem
    · cases mem
    · cases List.mem_singleton.1 mem
  · split at mem
    · cases mem
    · cases List.mem_singleton.1 mem

/-- The sites of a block stand together among all sites. -/
lemma sites_zip_subset {b : BlockCode c} (mem : b ∈ k.blocks) :
    (c.blockPoints b.id b.block).zip b.sites ⊆ c.sitePoints.zip k.marks := by
  have points : c.sitePoints =
      c.startPoints ++ k.blocks.flatMap fun b => c.blockPoints b.id b.block := by
    rw [Context.sitePoints, ← k.numbered, List.flatMap_map]
  have lengths : ∀ bs : List (BlockCode c),
      (bs.flatMap fun b => c.blockPoints b.id b.block).length =
      (bs.flatMap (·.sites)).length := by
    intro bs
    induction bs with
    | nil => rfl
    | cons b bs ih =>
      rw [List.flatMap_cons, List.flatMap_cons, List.length_append, List.length_append, ih,
        b.lines.length_eq]
      rfl
  have own : (c.blockPoints b.id b.block).length = b.sites.length := b.lines.length_eq
  obtain ⟨before, after, split⟩ := List.append_of_mem mem
  rw [points, marks, split, List.flatMap_append, List.flatMap_append, List.flatMap_cons,
    List.flatMap_cons, List.zip_append k.entryLines.length_eq, List.zip_append (lengths before),
    List.zip_append own]
  intro e mem
  exact List.mem_append_right _ (List.mem_append_right _ (List.mem_append_left _ mem))

/-- What a pad is told of a site of its block. -/
lemma exists_point {b : BlockCode c} (mem : b ∈ k.blocks) {m : Mark} (site : m ∈ b.sites) :
    ∃ point, (point, m.number) ∈ c.sitePoints.zip (k.marks.map (·.number)) ∧
      point.block? = some b.id := by
  have all : ((c.blockPoints b.id b.block).zip b.sites).map Prod.snd = b.sites :=
    List.map_snd_zip (Nat.le_of_eq b.lines.length_eq.symm)
  rw [← all] at site
  obtain ⟨⟨point, m'⟩, paired, rfl⟩ := List.mem_map.1 site
  refine ⟨point, ?_, block?_of_mem_blockPoints (List.of_mem_zip paired).1⟩
  rw [List.zip_map_right]
  exact List.mem_map.2 ⟨_, k.sites_zip_subset mem paired, rfl⟩

end BodyCode

/-- What is registered of some sites, one after the other, is found under their numbers. -/
lemma forall₂_range' {t : List CallSite} (sites : List CallSite) (points : List SitePoint)
    (registered : sites ++ points.map c.callSite <+: t) :
    List.Forall₂ (fun point number => t[number]? = some (c.callSite point)) points
      (List.range' sites.length points.length) := by
  induction points generalizing sites with
  | nil => exact .nil
  | cons point points ih =>
    rw [List.length_cons, List.range'_succ]
    have later : (sites ++ [c.callSite point]) ++ points.map c.callSite <+: t := by
      rw [List.append_assoc]
      exact registered
    have others := ih _ later
    rw [List.length_append] at others
    refine .cons ?_ others
    obtain ⟨rest, rfl⟩ := registered
    rw [List.append_assoc, List.getElem?_append_right (Nat.le_refl _), Nat.sub_self]
    rfl

/-- A function agrees with each table that goes on from the call sites registered with it. -/
lemma function_agrees (bound : c.body.blocks.length ≤ UInt32.size) {f : Function Label}
    {pools pools' : Pools} (given : (function c).run pools = .ok (f, pools')) :
    pools'.sites.sites = pools.sites.sites ++ c.sitePoints.map c.callSite ∧
    ∀ t : CallSites, pools'.sites.sites <+: t.sites →
      FunctionAgrees c f t (List.range' pools.sites.sites.length c.sitePoints.length) := by
  obtain ⟨k, blocks, nodup, numbers, sites⟩ := function_spec bound given
  refine ⟨sites, fun t grows => ?_⟩
  rw [sites] at grows
  obtain ⟨length, registered⟩ := List.forall₂_iff_zip.1 (forall₂_range' _ _ grows)
  have listed : ∀ {point number}, (point, number) ∈ c.sitePoints.zip (k.marks.map (·.number)) →
      t.Lists number (c.handledAt point) := by
    intro point number mem
    rw [numbers] at mem
    exact CallSites.lists_of_getElem? (registered mem)
  rw [← numbers] at length ⊢
  refine ⟨?sites, ?outside, ?pads⟩
  case sites =>
    refine List.forall₂_iff_zip.2 ⟨length, fun {point number} mem => ⟨listed mem, ?_⟩⟩
    rw [List.zip_map_right] at mem
    obtain ⟨⟨_, m⟩, paired, eq⟩ := List.mem_map.1 mem
    obtain ⟨rfl, rfl⟩ := Prod.mk.inj eq
    obtain ⟨b, memb, within⟩ := k.exists_block blocks (k.infix_listing (List.of_mem_zip paired).2)
    have ofMark := (List.forall₂_iff_zip.1 k.marks_spec).2 paired
    exact ⟨b, memb, _, within, ofMark.mapSources k.resolve⟩
  case outside =>
    intro point number mem outside
    rw [← handledAt_of_not_protected outside]
    exact listed mem
  case pads =>
    intro pad mem id label
    rw [blocks] at mem
    obtain ⟨d, memd, rfl⟩ := List.mem_map.1 mem
    have started : .landing id ∈ .entry :: labels k.listing := by
      rw [← labels_blocks ⟨.entry, []⟩, ← label]
      exact List.mem_map_of_mem memd
    obtain ⟨b, memb, rfl, some⟩ := k.exists_of_landing started
    have code : b.pad = .start (.landing b.id) :: ofLines
        (padLines b.id b.block (b.place.landings b.sites) b.temporary) := by
      rw [BlockCode.pad, padCode, some]
      exact if_neg Bool.false_ne_true
    -- labels differ, so this is the code of the pad
    have own := k.pad_mem memb code
    rw [← labels_blocks ⟨.entry, []⟩] at nodup
    obtain rfl := List.inj_on_of_nodup_map nodup memd own label
    refine ⟨b.block, _, b.found, ⟨_, _, _, rfl, fun r i selected => target?_switch _ selected⟩, ?_⟩
    intro e mem
    obtain ⟨e', mem', rfl⟩ := List.mem_map.1 mem
    obtain ⟨⟨number, source⟩, landing, rfl⟩ := List.mem_map.1 mem'
    rw [b.landings_eq] at landing
    split at landing
    · obtain ⟨m, site, eq⟩ := List.mem_map.1 landing
      obtain ⟨rfl, rfl⟩ := Prod.mk.inj eq
      obtain ⟨point, paired, block⟩ := k.exists_point memb site
      refine ⟨point, m.number, rfl, paired, block, ?_⟩
      rw [← handledAt_of_block? block b.found]
      exact listed paired
    · cases landing

/-- Some numbers are given out, each of them once and without a gap, and the call sites that have
been registered before keep theirs. -/
structure GivesOut (pools : Pools) (numbers : List Nat) (pools' : Pools) : Prop where
  range : numbers = List.range' pools.sites.sites.length numbers.length
  count : pools'.sites.sites.length = pools.sites.sites.length + numbers.length
  kept : pools.sites.sites <+: pools'.sites.sites

/-- No call sites need be given out. -/
lemma GivesOut.none (pools : Pools) : GivesOut pools [] pools := ⟨rfl, rfl, List.prefix_rfl⟩

/-- Call sites are given out one after the other. -/
lemma GivesOut.append {pools pools' pools'' : Pools} {ns ns' : List Nat}
    (first : GivesOut pools ns pools') (second : GivesOut pools' ns' pools'') :
    GivesOut pools (ns ++ ns') pools'' := by
  refine ⟨?_, ?_, first.kept.trans second.kept⟩
  · have rest := second.range
    rw [first.count] at rest
    rw [List.length_append, ← List.range'_append_1, ← first.range, ← rest]
  · rw [second.count, first.count, List.length_append, Nat.add_assoc]

section Methods

variable {b : Backend} {owner : ClassDef} {m : MethodDef} {pools pools' : Pools}

/-- What a method is lowered to agrees with the table of call sites, if that goes on from its pools.
-/
lemma method_agrees {entry : Option (Entry Label)}
    (bound : ∀ body ∈ m.body, body.blocks.length ≤ UInt32.size)
    (given : (method b owner m).run pools = .ok (entry, pools')) :
    ∃ numbers, GivesOut pools numbers pools' ∧ ∀ t : CallSites,
      pools'.sites.sites <+: t.sites → MethodAgrees b t (owner, m) (entry, numbers) := by
  cases method_spec given with
  | native => exact ⟨[], .none _, fun _ _ => rfl⟩
  | abstract => exact ⟨[], .none _, fun _ _ => rfl⟩
  | @function body _ _ _ _ found lowered =>
    obtain ⟨sites, agrees⟩ :=
      function_agrees (c := .ofBody b owner m body) (bound body found) lowered
    refine ⟨_, ⟨?_, ?_, ?_⟩, fun t grows => ⟨body, found, agrees t grows⟩⟩
    · rw [List.length_range']
    · rw [sites, List.length_append, List.length_map, List.length_range']
    · rw [sites]
      exact List.prefix_append ..

/-- Landing pads and the table of call sites agree, for all methods that are lowered one after the
other: the call sites are numbered without gaps, each under its position in the final table, which
has the handlers of each site, and each landing pad hands an exception to the handler of its block
that has been selected for it. -/
theorem landing_pads_agree {methods : List (ClassDef × MethodDef)}
    {entries : List (Option (Entry Label))}
    (bound : ∀ e ∈ methods, ∀ body ∈ e.2.body, body.blocks.length ≤ UInt32.size)
    (lowered : (methods.mapM fun e => method b e.1 e.2).run pools = .ok (entries, pools')) :
    ∃ results : List (Option (Entry Label) × List Nat), results.map (·.1) = entries ∧
      GivesOut pools (results.flatMap (·.2)) pools' ∧
      List.Forall₂ (MethodAgrees b pools'.sites) methods results := by
  -- the table may go on behind the methods, so that the first of them agrees with it
  have all : ∃ results : List (Option (Entry Label) × List Nat), results.map (·.1) = entries ∧
      GivesOut pools (results.flatMap (·.2)) pools' ∧ ∀ t : CallSites,
        pools'.sites.sites <+: t.sites → List.Forall₂ (MethodAgrees b t) methods results := by
    induction methods generalizing pools entries with
    | nil =>
      cases lowered
      exact ⟨[], rfl, .none _, fun _ _ => .nil⟩
    | cons e methods ih =>
      rw [List.mapM_cons] at lowered
      obtain ⟨⟨entry, pools₁⟩, first, lowered⟩ := Except.exists_of_bind_eq_ok lowered
      obtain ⟨⟨others, pools₂⟩, rest, eq⟩ := Except.exists_of_bind_eq_ok lowered
      cases eq
      obtain ⟨boundFirst, boundOthers⟩ := List.forall_mem_cons.1 bound
      obtain ⟨numbers, gives, agrees⟩ := method_agrees boundFirst first
      obtain ⟨results, entriesEq, gives', agrees'⟩ := ih boundOthers rest
      refine ⟨(entry, numbers) :: results, congrArg (entry :: ·) entriesEq, gives.append gives', ?_⟩
      intro t grows
      exact .cons (agrees t (gives'.kept.trans grows)) (agrees' t grows)
  obtain ⟨results, entriesEq, gives, agrees⟩ := all
  exact ⟨results, entriesEq, gives, agrees _ List.prefix_rfl⟩

end Methods

/-- A method without code and one whose function has a landing pad. -/
def clockMethods : List (ClassDef × MethodDef) :=
  [(clock, { waitMethod with isNative := true, body := none }), (clock, waitMethod)]

/-- The blocks that a function has landing pads for. -/
def padBlocks : Entry Label → List BlockId
  | .define f => f.blocks.filterMap fun b =>
    match b.label with
    | .landing id => some id
    | _ => none
  | _ => []

/-- A block has a landing pad only in a function. -/
lemma exists_pad {e : Entry Label} {id : BlockId} (mem : id ∈ padBlocks e) :
    ∃ f, e = .define f ∧ ∃ pad ∈ f.blocks, pad.label = .landing id := by
  cases e with
  | define f =>
    obtain ⟨pad, memb, eq⟩ := List.mem_filterMap.1 mem
    refine ⟨f, rfl, pad, memb, ?_⟩
    split at eq
    case _ label => rw [label, Option.some.inj eq]
    case _ => cases eq
  | blank | comment | sourceName | dataLayout | targetTriple | typeDef | external | declare
  | data =>
    cases mem

/-- The only call is handled in its block, whose landing pad is told that its number is zero. -/
theorem clock_pad_agrees :
    ∃ b entry f pools, Backend.ofProgram clockProgram .default = .ok b ∧
      (clockMethods.mapM fun e => method b e.1 e.2).run .empty =
        .ok ([entry, some (.define f)], pools) ∧
      ∃ pad ∈ f.blocks, pad.label = .landing ⟨1⟩ ∧ ∃ incomings,
        IsPad ⟨1⟩ waiting.blocks[1] incomings pad.lines ∧
        ∀ e ∈ incomings, e.1 = .int 0 ∧ pools.sites.Lists 0 [none] := by
  have computed : ((Backend.ofProgram clockProgram .default).toOption.bind fun b =>
      ((clockMethods.mapM fun e => method b e.1 e.2).run .empty).toOption.map fun r =>
        (r.1.map (·.elim [] padBlocks), r.2.sites.sites.length)) = some ([[], [⟨1⟩]], 1) := by
    cbv
  obtain ⟨b, ⟨entries, pools⟩, built, lowered, values⟩ :=
    Except.exists_of_toOption_bind_map computed
  obtain ⟨pads, count⟩ := Prod.mk.inj values
  have bound : ∀ e ∈ clockMethods, ∀ body ∈ e.2.body, body.blocks.length ≤ UInt32.size := by decide
  obtain ⟨results, rfl, gives, agrees⟩ := landing_pads_agree bound lowered
  -- only one number has been given out
  have numbers : results.flatMap (·.2) = [0] := by
    have one : (results.flatMap (·.2)).length = 1 :=
      (Nat.zero_add _).symm.trans (gives.count.symm.trans count)
    rw [gives.range, one]
    rfl
  cases agrees with
  | @cons _ first _ _ _ agrees =>
    cases agrees with
    | @cons _ second _ _ agrees none =>
      cases none
      obtain ⟨entry, ns⟩ := second
      have padded : entry.elim [] padBlocks = [⟨1⟩] := (List.cons.inj (List.cons.inj pads).2).1
      cases entry with
      | none => cases padded
      | some entry =>
        have mem : ⟨1⟩ ∈ padBlocks entry := by
          change padBlocks entry = _ at padded
          rw [padded]
          exact List.mem_singleton_self _
        obtain ⟨f, rfl, pad, mem, label⟩ := exists_pad mem
        obtain ⟨body, eq, agrees⟩ := agrees
        obtain rfl : waiting = body := Option.some.inj eq
        obtain ⟨block, incomings, found, isPad, told⟩ := agrees.pads pad mem ⟨1⟩ label
        obtain rfl : waiting.blocks[1] = block := Option.some.inj found
        refine ⟨b, first.1, f, pools, built, lowered, pad, mem, label, incomings, isPad,
          fun e mem => ?_⟩
        obtain ⟨point, number, value, paired, _, lists⟩ := told e mem
        have given : number ∈ [0] := by
          rw [← numbers]
          simp [(List.of_mem_zip paired).2]
        obtain rfl := List.mem_singleton.1 given
        exact ⟨value, lists⟩

end Lowering

end ObjectBackend
