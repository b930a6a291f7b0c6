import ObjectBackend.Proofs.Lowering.References
import ObjectBackend.Proofs.Target.StackTop

/-!
# The discipline of the stack of frames

A function with a frame puts it on the stack before anything else and takes it off right before it
returns, whichever way it takes; a function without one leaves the stack alone. So it returns with
the stack that it has found (`stack_discipline`).
-/

namespace ObjectBackend.Lowering

open Target Listing

section Listing

variable {x : Listing} {b d : DraftBlock} {l : DraftLine}

/-- No function returns from within a region. -/
lemma Region.ret_not_mem {ℓ ℓ' : Label} {n n' : Nat} {out : List (Label × Label)}
    (region : Region ℓ n x ℓ' n' out) (o : Option Target.Operand) :
    .line (.leave (.ret o)) ∉ x := by
  induction region with
  | nil => exact List.not_mem_nil
  | line ℓ n plain =>
    intro mem
    obtain rfl := Item.line.inj (List.mem_singleton.1 mem)
    cases plain
  | append _ _ first second =>
    intro mem
    rcases List.mem_append.1 mem with mem | mem
    · exact first mem
    · exact second mem
  | @test ℓ tested n n' t x out flag skipped result targets _ inside =>
    intro mem
    simp only [skippable, List.cons_append, List.nil_append, List.mem_cons, List.mem_append,
      reduceCtorEq, false_or, or_false, Item.line.injEq, Line.leave.injEq, List.not_mem_nil] at mem
    rcases mem with rfl | mem
    · exact absurd targets.length_eq (by simp [Term.targets])
    · exact inside mem
  | site ℓ first n thrown other =>
    intro mem
    simp at mem

/-- The lines of the blocks of a listing are those of the listing. -/
lemma mem_of_mem_blocks (mem : d ∈ blocks b x) (line : l ∈ d.lines) :
    l ∈ b.lines ∨ .line l ∈ x := by
  induction x generalizing b with
  | nil =>
    obtain rfl := List.mem_singleton.1 mem
    exact .inl line
  | cons i x ih =>
    cases i with
    | line m =>
      rcases ih (b := b.push m) mem with here | later
      · rcases List.mem_append.1 here with here | new
        · exact .inl here
        · exact .inr (List.mem_singleton.1 new ▸ List.mem_cons_self ..)
      · exact .inr (List.mem_cons_of_mem _ later)
    | start m =>
      rcases List.mem_cons.1 mem with rfl | mem
      · exact .inl line
      · rcases ih (b := ⟨m, []⟩) mem with none | later
        · cases none
        · exact .inr (List.mem_cons_of_mem _ later)

/-- A block at the end of a listing. -/
lemma blocks_append_start (b : DraftBlock) (x : Listing) (ℓ : Label) (lines : List DraftLine) :
    blocks b (x ++ .start ℓ :: ofLines lines) = blocks b x ++ [⟨ℓ, lines⟩] := by
  have alone : blocks ⟨ℓ, []⟩ (ofLines lines) = [⟨ℓ, lines⟩] := by
    rw [blocks, closed_ofLines, last_ofLines]
    rfl
  rw [blocks_append, ← alone, blocks, blocks, List.append_assoc]
  rfl

end Listing

section Shape

variable {σ τ : Type}

/-- Lines that leave the stack of frames alone, and with a frame on it do not return. -/
def Stays (size? : Option Nat) (lines : List (Line Label σ)) : Prop :=
  Line.Tidy [] lines ∧ (size?.isSome = true → ∀ o, .leave (.ret o) ∉ lines)

/-- Lines that take the frame off the stack and return. -/
def Returns (size? : Option Nat) (lines : List (Line Label σ)) : Prop :=
  ∃ phis o, lines = phis ++ popLines size? ++ [.leave (.ret o)] ∧ Line.Tidy [] phis ∧
    ∀ l ∈ phis, l.isLeave = false

/-- The lines that take the frame off the stack are no phis. -/
lemma mapSources_popLines (g : σ → τ) (size? : Option Nat) :
    (popLines size?).map (Line.mapSources g) = popLines size? := by
  rw [popLines, popLines]
  split <;> rfl

/-- The sources of phis do not matter to whether lines stay in their frame. -/
lemma Stays.mapSources (g : σ → τ) {size? : Option Nat} {lines : List (Line Label σ)}
    (stays : Stays size? lines) : Stays size? (lines.map (Line.mapSources g)) := by
  refine ⟨stays.1.mapSources g, fun framed o mem => ?_⟩
  obtain ⟨l, mem, eq⟩ := List.mem_map.1 mem
  cases l with
  | leave t =>
    obtain rfl := Line.leave.inj eq
    exact stays.2 framed o mem
  | _ => cases eq

/-- The sources of phis do not matter to whether lines return. -/
lemma Returns.mapSources (g : σ → τ) {size? : Option Nat} {lines : List (Line Label σ)}
    (returns : Returns size? lines) : Returns size? (lines.map (Line.mapSources g)) := by
  obtain ⟨phis, o, rfl, tidy, stay⟩ := returns
  refine ⟨phis.map (Line.mapSources g), o, ?_, tidy.mapSources g, fun l mem => ?_⟩
  · rw [List.map_append, List.map_append, mapSources_popLines]
    rfl
  · obtain ⟨l', mem', rfl⟩ := List.mem_map.1 mem
    rw [isLeave_mapSources]
    exact stay l' mem'

/-- A function that makes its frame first, if it has one, and does nothing else to the stack before
it returns. -/
structure StackCode (size? : Option Nat) (f : Function Label) : Prop where
  entry : ∃ rest, f.lines? .entry = some (frameCode size? 0 ++ rest) ∧ Stays size? rest
  others : ∀ l lines, f.lines? l = some lines → l ≠ .entry →
    Stays size? lines ∨ Returns size? lines
  targets : ∀ l lines t target, f.lines? l = some lines → .leave t ∈ lines → target ∈ t.targets →
    target ≠ .entry

end Shape

section Code

variable {c : Context} {size? : Option Nat}

/-- Phis leave the stack alone. -/
lemma tidy_phis {id : BlockId} {phis : List Phi} {lines : List DraftLine}
    (arePhis : List.Forall₂ (IsPhi c id) phis lines) : Line.Tidy [] lines := by
  induction arePhis with
  | nil => trivial
  | cons first _ ih =>
    obtain ⟨type, _, _, rfl⟩ := first
    exact ⟨var_ne_callerFrame, ih⟩

/-- A landing pad leaves the stack alone. -/
lemma tidy_padCode (id : BlockId) (b : BasicBlock) (landings : List (Nat × Label))
    (temporary : Nat) : Listing.Tidy [] (padCode id b landings temporary) := by
  rw [padCode]
  split
  · trivial
  · exact ⟨by rintro ⟨⟩, ⟨temporary_ne_callerFrame, rfl⟩, ⟨temporary_ne_callerFrame, rfl⟩,
      trivial, trivial⟩

namespace BlockCode

variable (k : BlockCode c)

/-- The code of a body leaves the stack alone but for its frame. -/
lemma tidy_listing : Listing.Tidy [] k.listing := by
  have leave : Listing.Tidy [] [.line (.leave k.term)] := ⟨trivial, trivial⟩
  have phis : Listing.Tidy [] (ofLines k.phis) := .ofLines (tidy_phis k.arePhis)
  exact ((phis.append k.tidy).append leave).append (tidy_padCode _ _ _ _)

/-- A method with a frame does not return from the code of a block. -/
lemma ret_not_mem (framed : c.frameSize?.isSome = true) (o : Option Target.Operand) :
    .line (.leave (.ret o)) ∉ k.listing := by
  intro mem
  rcases List.mem_cons.1 mem with eq | mem
  · cases eq
  rcases List.mem_append.1 mem with mem | mem
  · rcases List.mem_append.1 mem with mem | mem
    · rcases List.mem_append.1 mem with mem | mem
      · obtain ⟨l, mem, eq⟩ := List.mem_map.1 mem
        have stay := (phis_graph k.arePhis .entry).1 l mem
        rw [Item.line.inj eq] at stay
        cases stay
      · exact k.region.ret_not_mem o mem
    · have eq := Line.leave.inj (Item.line.inj (List.mem_singleton.1 mem))
      rw [k.returns o eq.symm] at framed
      cases framed
  · rw [pad, padCode] at mem
    split at mem
    · cases mem
    · simp [ofLines, padLines] at mem

end BlockCode

/-- The shared exit takes the frame off the stack and returns. -/
lemma returns_exitCode (b : DraftBlock) (x : Listing) (exits : List (Option Value × Label)) :
    ∃ ends, blocks b (x ++ exitCode c exits) = blocks b x ++ ends ∧
      ∀ d ∈ ends, Returns c.frameSize? d.lines := by
  rw [exitCode]
  split
  · refine ⟨[], ?_, List.forall_mem_nil _⟩
    rw [List.append_nil, List.append_nil]
  · split
    · refine ⟨_, blocks_append_start _ _ _ _, List.forall_mem_singleton.2 ?_⟩
      exact ⟨[], none, rfl, trivial, List.forall_mem_nil _⟩
    · refine ⟨_, blocks_append_start _ _ _ _, List.forall_mem_singleton.2 ?_⟩
      exact ⟨_, _, rfl, ⟨by rintro ⟨⟩, trivial⟩, List.forall_mem_singleton.2 rfl⟩

/-- The exit for exceptions takes the frame off the stack and returns. -/
lemma returns_unwindCode (b : DraftBlock) (x : Listing) (unwinds : Bool) :
    ∃ ends, blocks b (x ++ unwindCode c unwinds) = blocks b x ++ ends ∧
      ∀ d ∈ ends, Returns c.frameSize? d.lines := by
  rw [unwindCode]
  split
  · refine ⟨_, blocks_append_start _ _ _ _, List.forall_mem_singleton.2 ?_⟩
    exact ⟨[], _, rfl, trivial, List.forall_mem_nil _⟩
  · refine ⟨[], ?_, List.forall_mem_nil _⟩
    rw [List.append_nil, List.append_nil]

namespace BodyCode

variable (k : BodyCode c)

/-- Behind the frame the code leaves the stack alone, up to the shared blocks at the end. -/
lemma main_eq : ∃ z, k.main = ofLines (frameCode c.frameSize? 0) ++ z ∧ Listing.Tidy [] z := by
  obtain ⟨y, eq, tidy, _⟩ := k.frame
  have jump : Listing.Tidy [] [.line (.leave (.br (.block .entry)))] := ⟨trivial, trivial⟩
  have blocks : ∀ bs : List (BlockCode c), Listing.Tidy [] (bs.flatMap (·.listing)) := by
    intro bs
    induction bs with
    | nil => trivial
    | cons b bs ih =>
      rw [List.flatMap_cons]
      exact b.tidy_listing.append ih
  refine ⟨y ++ [.line (.leave (.br (.block .entry)))] ++ k.blocks.flatMap (·.listing), ?_,
    (tidy.append jump).append (blocks k.blocks)⟩
  rw [main, eq, List.append_assoc, List.append_assoc, List.append_assoc]

/-- With a frame, only the shared exits return. -/
lemma ret_not_mem_main (framed : c.frameSize?.isSome = true) (o : Option Target.Operand) :
    .line (.leave (.ret o)) ∉ k.main := by
  intro mem
  rcases List.mem_append.1 mem with mem | mem
  · rcases List.mem_append.1 mem with mem | mem
    · exact k.region.ret_not_mem o mem
    · cases List.mem_singleton.1 mem
  · obtain ⟨b, _, mem⟩ := List.mem_flatMap.1 mem
    exact b.ret_not_mem framed o mem

/-- The blocks of the code. -/
lemma blocks_listing : ∃ rest others,
    Listing.blocks ⟨.entry, []⟩ k.listing = ⟨.entry, frameCode c.frameSize? 0 ++ rest⟩ :: others ∧
      Stays c.frameSize? rest ∧
      ∀ d ∈ others, Stays c.frameSize? d.lines ∨ Returns c.frameSize? d.lines := by
  obtain ⟨z, eq, tidy⟩ := k.main_eq
  obtain ⟨rest, others, first, tidyRest, tidyOthers⟩ :=
    tidy.blocks ⟨.entry, frameCode c.frameSize? 0⟩
  have main : Listing.blocks ⟨.entry, []⟩ k.main =
      ⟨.entry, frameCode c.frameSize? 0 ++ rest⟩ :: others := by
    rw [eq, blocks_append, closed_ofLines, last_ofLines]
    exact first
  have stay : ∀ d ∈ Listing.blocks ⟨.entry, []⟩ k.main, c.frameSize?.isSome = true →
      ∀ o, .leave (.ret o) ∉ d.lines := by
    intro d mem framed o mem'
    rcases mem_of_mem_blocks mem mem' with none | mem'
    · cases none
    · exact k.ret_not_mem_main framed o mem'
  rw [main] at stay
  obtain ⟨stayFirst, stayOthers⟩ := List.forall_mem_cons.1 stay
  obtain ⟨exits, eqExit, returnsExit⟩ := returns_exitCode (c := c) ⟨.entry, []⟩ k.main k.exits
  obtain ⟨unwinds, eqUnwind, returnsUnwind⟩ :=
    returns_unwindCode (c := c) ⟨.entry, []⟩ (k.main ++ exitCode c k.exits) (!k.marks.isEmpty)
  refine ⟨rest, others ++ exits ++ unwinds, ?_, ?_, ?_⟩
  · rw [listing, eqUnwind, eqExit, main]
    rfl
  · exact ⟨tidyRest, fun framed o mem => stayFirst framed o (List.mem_append_right _ mem)⟩
  · intro d mem
    rcases List.mem_append.1 mem with mem | mem
    · rcases List.mem_append.1 mem with mem | mem
      · exact .inl ⟨tidyOthers d mem, stayOthers d mem⟩
      · exact .inr (returnsExit d mem)
    · exact .inr (returnsUnwind d mem)

/-- The function of a body makes its frame first and returns by taking it off the stack. -/
lemma stackCode {name : String} (checked : c.body.check name = .ok ()) {f : Function Label}
    (blocks : f.blocks = k.functionBlocks) (nodup : (.entry :: labels k.listing).Nodup) :
    StackCode c.frameSize? f := by
  obtain ⟨rest, others, eq, stays, each⟩ := k.blocks_listing
  have all : f.blocks =
      ⟨.entry, frameCode c.frameSize? 0 ++ rest.map (Line.mapSources k.resolve)⟩ ::
      others.map (Block.mapSources k.resolve) := by
    rw [blocks, functionBlocks, eq, List.map_cons, Block.mapSources, List.map_append,
      mapSources_frameCode]
  refine ⟨⟨rest.map (Line.mapSources k.resolve), ?_, stays.mapSources _⟩, ?others, ?targets⟩
  · rw [Function.lines?, all, List.find?_cons_of_pos (by simp)]
    rfl
  case others =>
    intro l lines found other
    obtain ⟨b, mem, rfl, rfl⟩ := Function.mem_blocks_of_lines? found
    rw [all, List.mem_cons] at mem
    rcases mem with rfl | mem
    · exact absurd rfl other
    · obtain ⟨d, memd, rfl⟩ := List.mem_map.1 mem
      exact (each d memd).imp (Stays.mapSources _) (Returns.mapSources _)
  case targets =>
    intro l lines t target found left named
    obtain ⟨b, mem, rfl, rfl⟩ := Function.mem_blocks_of_lines? found
    have edge : (b.label, target) ∈ edges .entry k.listing := by
      rw [← edges_functionBlocks, ← blocks]
      refine List.mem_flatMap.2 ⟨b, mem, List.mem_flatMap.2 ⟨.leave t, left, ?_⟩⟩
      exact List.mem_map_of_mem named
    rintro rfl
    exact (List.nodup_cons.1 nodup).1 (k.mem_labels checked edge)

end BodyCode

end Code

section Paths

/-- The lines on a path through a function, from the start of a block to a return. -/
inductive ReturnPath (f : Function Label) : Label → List (Line Label Label) → Prop where
  | ret {l : Label} {lines : List (Line Label Label)} {o : Option Target.Operand} :
    f.lines? l = some (lines ++ [.leave (.ret o)]) → ReturnPath f l (lines ++ [.leave (.ret o)])
  | edge {l target : Label} {lines rest : List (Line Label Label)} {t : Term Label} :
    f.lines? l = some (lines ++ [.leave t]) → target ∈ t.targets → ReturnPath f target rest →
    ReturnPath f l (lines ++ [.leave t] ++ rest)

/-- The line that puts the frame on the stack. -/
def pushLine : Line Label Label := .run (.store (.ptr (.register .frame)) (.ofRuntime .stackTop))

/-- The line that takes the frame off the stack. -/
def popLine : Line Label Label :=
  .run (.store (.ptr (.register .callerFrame)) (.ofRuntime .stackTop))

namespace StackCode

variable {f : Function Label} {size? : Option Nat} {size : Nat}
  {lines rest : List (Line Label Label)} {l : Label}

/-- Behind the first block, the frame is taken off the stack right before the return. -/
lemma of_returnPath (code : StackCode (some size) f) (path : ReturnPath f l lines)
    (other : l ≠ .entry) : ∃ middle o, lines = middle ++ [popLine, .leave (.ret o)] ∧
      ∀ l ∈ middle, l.storesTop = false := by
  induction path with
  | @ret l lines o found =>
    rcases code.others _ _ found other with stays | ⟨phis, o', eq, tidy, _⟩
    · exact absurd (List.mem_append_right _ (List.mem_singleton_self _)) (stays.2 rfl o)
    · refine ⟨phis, o', ?_, tidy.storesTop⟩
      rw [eq, List.append_assoc]
      rfl
  | @edge l target lines rest t found goes _ ih =>
    obtain ⟨middle, o, eq, quiet⟩ := ih (code.targets _ _ t target found
      (List.mem_append_right _ (List.mem_singleton_self _)) goes)
    rcases code.others _ _ found other with stays | ⟨phis, o', same, _⟩
    · refine ⟨lines ++ [.leave t] ++ middle, o, ?_, ?_⟩
      · rw [eq, List.append_assoc, List.append_assoc, List.append_assoc]
      · exact List.forall_mem_append.2 ⟨stays.1.storesTop, quiet⟩
    · -- a block that returns leads nowhere
      obtain ⟨_, eq⟩ := List.append_inj' same rfl
      rw [Line.leave.inj (List.cons.inj eq).1] at goes
      cases goes

/-- On a path through the whole function, the frame is made first and taken off last. -/
lemma of_returnPath_entry (code : StackCode (some size) f) (path : ReturnPath f .entry lines) :
    ∃ middle o, lines = frameLines size 0 ++ middle ++ [popLine, .leave (.ret o)] ∧
      ∀ l ∈ middle, l.storesTop = false := by
  obtain ⟨rest, first, stays⟩ := code.entry
  cases path with
  | @ret _ lines o found =>
    have eq : lines ++ [.leave (.ret o)] = frameLines size 0 ++ rest :=
      Option.some.inj (found.symm.trans first)
    have mem : .leave (.ret o) ∈ frameLines size 0 ++ rest :=
      eq ▸ List.mem_append_right _ (List.mem_singleton_self _)
    rcases List.mem_append.1 mem with mem | mem
    · simp [frameLines] at mem
    · exact absurd mem (stays.2 rfl o)
  | @edge _ target lines rest' t found goes path =>
    have eq : lines ++ [.leave t] = frameLines size 0 ++ rest :=
      Option.some.inj (found.symm.trans first)
    obtain ⟨middle, o, rfl, quiet⟩ := code.of_returnPath path (code.targets _ _ t target found
      (List.mem_append_right _ (List.mem_singleton_self _)) goes)
    refine ⟨rest ++ middle, o, ?_, List.forall_mem_append.2 ⟨stays.1.storesTop, quiet⟩⟩
    rw [eq, List.append_assoc, List.append_assoc, List.append_assoc]

/-- A function without a frame leaves the stack alone. -/
lemma of_frameless (code : StackCode none f) (found : f.lines? l = some lines) :
    ∀ l ∈ lines, l.storesTop = false := by
  by_cases entry : l = .entry
  · obtain ⟨rest, first, stays⟩ := code.entry
    rw [entry, first] at found
    obtain rfl := Option.some.inj found
    exact stays.1.storesTop
  · rcases code.others _ _ found entry with stays | ⟨phis, o, rfl, tidy, _⟩
    · exact stays.1.storesTop
    · rw [List.append_assoc]
      exact List.forall_mem_append.2 ⟨tidy.storesTop, List.forall_mem_singleton.2 rfl⟩

end StackCode

/-- The lines that make the frame save the top that is found, before they put the frame on it. -/
lemma sound_frameLines {size : Nat} {rest : List (Line Label Label)}
    (sound : ∀ ps, Line.Sound true ⟨ps, true, false⟩ rest) :
    Line.Sound true ⟨[], false, true⟩ (frameLines size 0 ++ rest) := by
  refine .cons rfl (.tidy ⟨by rintro ⟨⟩, rfl⟩) (.cons rfl (.tidy ⟨by rintro ⟨⟩, rfl⟩) ?_)
  refine .cons rfl (.tidy (List.mem_cons_self ..)) (.cons rfl .save ?_)
  refine .cons rfl (.tidy ⟨by rintro ⟨⟩, rfl⟩) (.cons rfl (.tidy (List.mem_cons_self ..)) ?_)
  exact .cons rfl (.push _) (sound _)

namespace StackCode

variable {f : Function Label} {size? : Option Nat}

/-- So the stack can be followed through the function. -/
lemma keepsStack (code : StackCode size? f) : f.KeepsStack size?.isSome where
  entry := by
    intro lines found
    obtain ⟨rest, first, stays⟩ := code.entry
    obtain rfl := Option.some.inj (found.symm.trans first)
    cases size? with
    | none => exact stays.1.sound rfl (by rintro ⟨⟩)
    | some size =>
      exact sound_frameLines fun ps =>
        (stays.1.mono (List.nil_subset ps)).sound rfl fun _ => stays.2 rfl
  others := by
    intro l lines found other
    rcases code.others l lines found other with stays | ⟨phis, o, rfl, tidy, stay⟩
    · cases size? with
      | none => exact stays.1.sound rfl (by rintro ⟨⟩)
      | some size => exact stays.1.sound rfl fun _ => stays.2 rfl
    · rw [List.append_assoc]
      refine tidy.sound_append stay fun ps => ?_
      cases size? with
      | none => exact .leave rfl fun _ _ => rfl
      | some size => exact .cons rfl .pop (.leave rfl fun _ _ => rfl)
  targets := code.targets

end StackCode

end Paths

/-- What a method does to the stack of frames. If it has a frame, then on each path to a return the
lines that make the frame come first, the last of them puts it on the stack, and the line right
before the return takes it off; no other line stores to the top of the stack, and all calls are in
between. If it has none, no line does. So, if the functions that it calls leave the top as they find
it, the method returns with the top that it has found, normally or with an exception pending. -/
theorem stack_discipline {b : Backend} {owner : ClassDef} {m : MethodDef} {body : Body}
    {name : String} {f : Function Label} {pools pools' : Pools} (checked : body.check name = .ok ())
    (bound : body.blocks.length ≤ UInt32.size)
    (lowered : (function (.ofBody b owner m body)).run pools = .ok (f, pools')) :
    let c := Context.ofBody b owner m body
    (∀ size, c.frameSize? = some size → ∀ lines, ReturnPath f .entry lines →
      ∃ middle o, lines = frameLines size 0 ++ middle ++ [popLine, .leave (.ret o)] ∧
        (∀ l ∈ middle, l.storesTop = false) ∧
        lines.filter (fun l => l.isCall || l.storesTop) =
          pushLine :: (middle.filter Line.isCall ++ [popLine])) ∧
    (c.frameSize? = none → ∀ block ∈ f.blocks, ∀ l ∈ block.lines, l.storesTop = false) ∧
    ∀ host, KeepsTop host → ∀ r m σ o, f.Runs host (.start r m) σ →
      f.line? σ = some (.leave (.ret o)) → σ.memory topCell = m topCell := by
  intro c
  obtain ⟨k, blocks, nodup, _⟩ := function_spec (c := c) bound lowered
  have code := k.stackCode checked blocks nodup
  refine ⟨?framed, ?frameless, ?returns⟩
  case framed =>
    intro size framed lines path
    rw [framed] at code
    obtain ⟨middle, o, rfl, quiet⟩ := code.of_returnPath_entry path
    refine ⟨middle, o, rfl, quiet, ?_⟩
    have inner : middle.filter (fun l => l.isCall || l.storesTop) = middle.filter Line.isCall :=
      List.filter_congr fun l mem => by rw [quiet l mem, Bool.or_false]
    rw [List.filter_append, List.filter_append, inner]
    rfl
  case frameless =>
    intro none block mem
    rw [none] at code
    have labels : (f.blocks.map Block.label).Nodup := by
      rw [blocks, k.label_functionBlocks]
      exact nodup
    exact code.of_frameless (Function.lines?_of_mem labels mem)
  case returns =>
    intro host keeps r m σ o runs at'
    exact code.keepsStack.returns keeps runs at'

/-- The end of a block. -/
def endOf? (f : Function Label) (l : Label) : Option (Line Label Label) :=
  (f.lines? l).bind List.getLast?

/-- The last line at a label is that of the block. -/
lemma exists_of_endOf? {f : Function Label} {l : Label} {last : Line Label Label}
    (ends : endOf? f l = some last) : ∃ lines, f.lines? l = some (lines ++ [last]) := by
  obtain ⟨all, found, ends⟩ := Option.bind_eq_some_iff.1 ends
  obtain ⟨lines, rfl⟩ := List.getLast?_eq_some_iff.1 ends
  exact ⟨lines, found⟩

/-- The method that calls another one has a frame for its object, and takes it off the stack when an
exception comes from the call. -/
theorem echo_unwinds_frame :
    ∃ b f pools lines, Backend.ofProgram clockProgram .default = .ok b ∧
      (function (.ofBody b clock echoMethod echo)).run .empty = .ok (f, pools) ∧
      ReturnPath f .entry lines ∧
      ∃ middle o, lines = frameLines 1 0 ++ middle ++ [popLine, .leave (.ret o)] ∧
        ∀ l ∈ middle, l.storesTop = false := by
  have computed : ((Backend.ofProgram clockProgram .default).toOption.bind fun b =>
      ((function (.ofBody b clock echoMethod echo)).run .empty).toOption.map fun r =>
        ((Context.ofBody b clock echoMethod echo).frameSize?, endOf? r.1 .entry,
          endOf? r.1 (.block ⟨0⟩), endOf? r.1 .unwind)) =
        some (some 1, some (.leave (.br (.block ⟨0⟩))),
          some (.leave (.condBr (.register (.temporary 5)) .unwind (.split (.block ⟨0⟩) 0))),
          some (.leave (.ret (some ⟨.ptr, .null⟩)))) := by
    cbv
  obtain ⟨b, ⟨f, pools⟩, built, lowered, values⟩ := Except.exists_of_toOption_bind_map computed
  simp only [Prod.mk.injEq] at values
  obtain ⟨framed, first, second, third⟩ := values
  have checked : echo.check "echo" = .ok () := by rfl
  obtain ⟨paths, _⟩ := stack_discipline checked (by decide) lowered
  obtain ⟨_, first⟩ := exists_of_endOf? first
  obtain ⟨_, second⟩ := exists_of_endOf? second
  obtain ⟨_, third⟩ := exists_of_endOf? third
  have path := ReturnPath.edge first (List.mem_singleton_self _)
    (.edge second (List.mem_cons_self ..) (.ret third))
  obtain ⟨middle, o, eq, quiet, _⟩ := paths 1 framed _ path
  exact ⟨b, f, pools, _, built, lowered, path, middle, o, eq, quiet⟩

end ObjectBackend.Lowering
