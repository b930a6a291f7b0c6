import ObjectBackend.Proofs.Lowering.Blocks

/-!
# The edges of the code of a block

What the code of a block has in common with other blocks: the labels that start in it, the edges
that lead out of it (`outward_listing`), and where the values of its phis come from
(`joins_listing`). The parts that the block is split into are its own matter (`contained`).
-/

namespace ObjectBackend.Lowering

open Target Listing

section Pad

variable {id : BlockId} {b : BasicBlock} {landings : List (Nat × Label)} {temporary : Nat}

/-- The edges that lead out of a landing pad, if there is one. -/
def padEdges (id : BlockId) (b : BasicBlock) (landings : List (Nat × Label)) :
    List (Label × Label) :=
  if landings.isEmpty then []
  else (.landing id, .unwind) :: b.tryCatches.map fun h => (.landing id, .block h.handler)

/-- The edges of the code of a landing pad are those that lead out of it. -/
lemma edges_padCode (ℓ : Label) :
    edges ℓ (padCode id b landings temporary) = padEdges id b landings := by
  rw [padCode, padEdges]
  split
  · rfl
  · have handlers : (b.tryCatches.zipIdx.map fun entry => (Label.landing id,
        Label.block entry.1.handler)) =
          b.tryCatches.map fun h => (.landing id, .block h.handler) := by
      have first : b.tryCatches.map (fun h => (Label.landing id, Label.block h.handler)) =
          (b.tryCatches.zipIdx.map Prod.fst).map fun h => (.landing id, .block h.handler) := by
        rw [List.zipIdx_map_fst]
      rw [first, List.map_map]
      rfl
    simp only [ofLines, padLines, List.map_cons, List.map_nil, edges, lineEdges, Term.targets,
      List.nil_append, List.append_nil, List.map_map]
    rw [← handlers]
    rfl

/-- The code of a landing pad joins the call sites that land there, if there are some. -/
lemma joins_padCode (ℓ : Label) : joins ℓ (padCode id b landings temporary) =
    if landings.isEmpty then []
    else [(.landing id, landings.map fun entry => .label entry.2)] := by
  rw [padCode]
  split
  · rfl
  · simp only [ofLines, padLines, List.map_cons, List.map_nil, joins, lineJoins, List.map_map]
    rfl

/-- The code of a landing pad leaves no block open. -/
lemma isOpen?_padCode : isOpen? false (padCode id b landings temporary) = some false := by
  rw [padCode]
  split <;> rfl

end Pad

namespace BlockCode

variable {c : Context} (k : BlockCode c)

/-- The edges that lead out of the code of a block. -/
def outEdges : List (Label × Label) :=
  k.marks.map (fun m => (m.source, k.place.target)) ++ k.term.targets.map (k.ending, ·) ++
    padEdges k.id k.block (k.place.landings k.sites)

/-- Call sites of a protected block go to its landing pad, and others to the exit for exceptions. -/
lemma target_eq :
    k.place.target = if k.block.isProtected then .landing k.id else .unwind := by
  rw [place, Place.target, Place.ofBlock]
  cases k.block.isProtected with
  | true => rfl
  | false => rfl

/-- Call sites land at their block only if it is protected. -/
lemma landings_eq : k.place.landings k.sites =
    if k.block.isProtected then k.sites.map fun m => (m.number, m.source) else [] := by
  rw [Place.landings, place, Place.ofBlock]
  cases k.block.isProtected with
  | true => rfl
  | false => rfl

/-- Call sites do not go to a part of a block. -/
lemma isSplit_target : k.place.target.isSplit = false := by
  rw [k.target_eq]
  split <;> rfl

/-- Terminators do not go to a part of a block. -/
lemma isSplit_of_mem_targets {l : Label} (mem : l ∈ k.term.targets) : l.isSplit = false := by
  rw [k.targets, List.mem_append, List.mem_append, List.mem_map, List.mem_map, List.mem_map] at mem
  rcases mem with (⟨_, _, rfl⟩ | ⟨_, _, rfl⟩) | ⟨_, _, rfl⟩
  · rfl
  · rfl
  · exact k.isSplit_target

/-- The code of a block ends in the part that its terminator stands in. -/
lemma endLabel_content : endLabel (.block k.id) k.content = k.ending := by
  rw [content, endLabel_append, endLabel_append, endLabel_ofLines, k.region.endLabel_eq]
  rfl

/-- Phis have no edges, and each of them stands for itself. -/
lemma phis_graph {phis : List Phi} {lines : List DraftLine} {id : BlockId}
    (arePhis : List.Forall₂ (IsPhi c id) phis lines) (ℓ : Label) :
    (∀ l ∈ lines, l.isLeave = false) ∧ edges ℓ (ofLines lines) = [] ∧
      joins ℓ (ofLines lines) = phis.map fun phi => (ℓ, phiSources c id phi) := by
  induction arePhis with
  | nil => exact ⟨List.forall_mem_nil _, rfl, rfl⟩
  | cons first _ ih =>
    obtain ⟨type, _, _, rfl⟩ := first
    obtain ⟨stay, noEdges, joined⟩ := ih
    refine ⟨List.forall_mem_cons.2 ⟨rfl, stay⟩, noEdges, ?_⟩
    change (ℓ, (phiIncomings c id _).map Prod.snd) :: joins ℓ (ofLines _) = _
    rw [map_phiIncomings, joined]
    rfl

/-- The edges of a block to the outside are those of its call sites, its terminator and its landing
pad. -/
lemma outward_listing (ℓ : Label) : outward ℓ k.listing = k.outEdges := by
  change outward (.block k.id) (k.content ++ k.pad) = _
  have pad : outward k.ending k.pad = padEdges k.id k.block (k.place.landings k.sites) := by
    rw [outward, BlockCode.pad, edges_padCode, List.filter_eq_self, padEdges]
    split
    · exact List.forall_mem_nil _
    · refine List.forall_mem_cons.2 ⟨rfl, fun e mem => ?_⟩
      obtain ⟨_, _, rfl⟩ := List.mem_map.1 mem
      rfl
  have leave : outward k.ending [.line (.leave k.term)] = k.term.targets.map (k.ending, ·) := by
    rw [outward, edges, edges, List.append_nil, lineEdges, List.filter_eq_self]
    intro e mem
    obtain ⟨target, named, rfl⟩ := List.mem_map.1 mem
    rw [k.isSplit_of_mem_targets named]
    rfl
  have phis : outward (.block k.id) (ofLines k.phis) = [] := by
    rw [outward, (phis_graph k.arePhis _).2.1]
    rfl
  rw [outward_append, k.endLabel_content, pad, content, outward_append, outward_append, phis,
    endLabel_append, endLabel_ofLines, k.region.endLabel_eq, k.region.outward_eq, leave]
  rfl

/-- The labels of a block are its own, those of its parts and that of its landing pad, if it has
one. -/
lemma labels_listing : labels k.listing = .block k.id :: (labels k.inner ++
    if (k.place.landings k.sites).isEmpty then [] else [.landing k.id]) := by
  change .block k.id :: labels (k.content ++ k.pad) = _
  rw [labels_append, k.labels_content, pad, labels_padCode]

/-- Each label of a block is its own, that of a part or that of its landing pad. -/
lemma mem_labels_listing {l : Label} (mem : l ∈ labels k.listing) :
    l = .block k.id ∨ l.isSplit = true ∨ l = .landing k.id := by
  rw [k.labels_listing, List.mem_cons, List.mem_append] at mem
  rcases mem with eq | mem | mem
  · exact .inl eq
  · exact .inr (.inl (k.region.isSplit_of_mem_labels mem))
  · split at mem
    · cases mem
    · exact .inr (.inr (List.mem_singleton.1 mem))

/-- The code of a block leaves no block open. -/
lemma isOpen?_listing : isOpen? false k.listing = some false := by
  change isOpen? true (k.content ++ k.pad) = _
  rw [isOpen?_append, content, isOpen?_append, isOpen?_append,
    isOpen?_ofLines (phis_graph k.arePhis .entry).1, Option.bind_some, k.region.isOpen?_eq,
    Option.bind_some]
  exact isOpen?_padCode

/-- The phis that are not within the region of the block: its own and that of its landing pad. -/
lemma joins_listing {ℓ : Label} {j : Label × List (Source Label)} (mem : j ∈ joins ℓ k.listing) :
    (j.1 = .block k.id ∧ ∃ phi ∈ k.block.phis, j.2 = phiSources c k.id phi) ∨
      j ∈ joins (.block k.id) k.inner ∨
      (j.1 = .landing k.id ∧
        j.2 = (k.place.landings k.sites).map fun entry => .label entry.2) := by
  change j ∈ joins (.block k.id) (k.content ++ k.pad) at mem
  rw [joins_append, content, joins_append, joins_append, (phis_graph k.arePhis _).2.2,
    endLabel_ofLines, pad, joins_padCode, List.mem_append, List.mem_append, List.mem_append] at mem
  rcases mem with ((mem | mem) | mem) | mem
  · obtain ⟨phi, own, rfl⟩ := List.mem_map.1 mem
    exact .inl ⟨rfl, phi, own, rfl⟩
  · exact .inr (.inl mem)
  · cases mem
  · split at mem
    · cases mem
    · rw [List.mem_singleton.1 mem]
      exact .inr (.inr ⟨rfl, rfl⟩)

/-- The parts that a block is split into are its own. -/
lemma contained (ℓ : Label) : Contained ℓ k.first k.listing k.last := by
  have start : Contained ℓ k.first [.start (.block k.id)] k.first :=
    .of_not_split (by simp [labels, Label.isSplit]) (by simp [edges]) (by simp [joins])
  have phis : Contained (.block k.id) k.first (ofLines k.phis) k.first := by
    obtain ⟨_, noEdges, joined⟩ := phis_graph k.arePhis (.block k.id)
    refine .of_not_split (by simp [labels_ofLines]) (by simp [noEdges]) ?_
    rw [joined]
    intro j mem
    obtain ⟨_, _, rfl⟩ := List.mem_map.1 mem
    rfl
  have leave : Contained k.ending k.last [.line (.leave k.term)] k.last := by
    refine .of_not_split (by simp [labels]) ?_ (by simp [joins, lineJoins])
    rw [edges, edges, List.append_nil, lineEdges]
    intro e mem
    obtain ⟨target, named, rfl⟩ := List.mem_map.1 mem
    exact k.isSplit_of_mem_targets named
  have pad : Contained k.ending k.last k.pad k.last := by
    refine .of_not_split ?_ ?_ ?_
    · rw [BlockCode.pad, labels_padCode]
      split <;> simp [Label.isSplit]
    · rw [BlockCode.pad, edges_padCode, padEdges]
      split <;> simp [Label.isSplit]
    · rw [BlockCode.pad, joins_padCode]
      split <;> simp [Label.isSplit]
  have inner : Contained (.block k.id) k.first (ofLines k.phis ++ k.inner) k.last :=
    phis.append (by rw [endLabel_ofLines]; exact k.region.contained)
  have content : Contained (.block k.id) k.first k.content k.last := by
    refine inner.append ?_
    rw [endLabel_append, endLabel_ofLines, k.region.endLabel_eq]
    exact leave
  refine start.append (content.append ?_)
  rw [k.endLabel_content]
  exact pad

end BlockCode

end ObjectBackend.Lowering
