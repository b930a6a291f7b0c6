import ObjectBackend.Proofs.Lowering.Entering

/-!
# Reachability

Ways through the blocks of a function mirror ways through the blocks of the body that it is lowered
from. Code for instructions is gone through to its end and to each of its call sites
(`Region.leads`), so whatever is reached in the body is reached in the function; and the code of a
block is entered at its beginning only, so nothing else is (`BodyCode.reaches_of_mem_labels`).
-/

namespace ObjectBackend

open Target

/-- Some edges lead from one label to another. -/
abbrev Leads (es : List (Label × Label)) : Label → Label → Prop :=
  Relation.ReflTransGen fun l l' => (l, l') ∈ es

/-- What edges lead to, more edges do. -/
lemma Leads.mono {es es' : List (Label × Label)} (sub : es ⊆ es') {l l' : Label}
    (leads : Leads es l l') : Leads es' l l' :=
  Relation.ReflTransGen.mono (fun _ _ edge => sub edge) _ _ leads

/-- A block is reached from the entry of its function. -/
def Target.Function.Reaches (f : Function Label) : Label → Prop := Leads f.edges .entry

/-- A block is a source of edges to a label just if there is an edge. -/
lemma mem_sourcesTo {l target : Label} {es : List (Label × Label)} :
    l ∈ sourcesTo target es ↔ (l, target) ∈ es := by
  rw [sourcesTo, List.mem_map]
  constructor
  · rintro ⟨⟨source, target⟩, mem, rfl⟩
    obtain ⟨mem, eq⟩ := List.mem_filter.1 mem
    exact of_decide_eq_true eq ▸ mem
  · exact fun mem => ⟨_, List.mem_filter.2 ⟨mem, decide_eq_true rfl⟩, rfl⟩

namespace Lowering

open Listing

variable {c : Context}

namespace Context

/-- A block of the body is followed by another: a target of its terminator or a handler of its
exceptions, if there are any. -/
def Goes (c : Context) (source target : BlockId) : Prop :=
  ∃ b, c.body.block? source = some b ∧ (target ∈ b.terminator.targets ∨
    c.hasLanding b = true ∧ target ∈ b.tryCatches.map (·.handler))

/-- A block of the body is reached from the first one. -/
def Reaches (c : Context) : BlockId → Prop := Relation.ReflTransGen c.Goes .entry

end Context

/-- Edges start in a block of their listing. -/
lemma source_eq_or_mem {ℓ : Label} {x : Listing} {e : Label × Label} (mem : e ∈ edges ℓ x) :
    e.1 = ℓ ∨ e.1 ∈ labels x := by
  induction x generalizing ℓ with
  | nil => cases mem
  | cons i x ih =>
    cases i with
    | start l => exact .inr (List.mem_cons.2 (ih mem))
    | line l =>
      rcases List.mem_append.1 mem with mem | mem
      · cases l with
        | leave t =>
          obtain ⟨_, _, rfl⟩ := List.mem_map.1 mem
          exact .inl rfl
        | _ => cases mem
      · exact ih mem

/-- A region is gone through to its end, and to where exceptions leave it. -/
lemma Region.leads {ℓ ℓ' : Label} {n n' : Nat} {x : Listing} {out : List (Label × Label)}
    (region : Region ℓ n x ℓ' n' out) :
    Leads (edges ℓ x) ℓ ℓ' ∧ ∀ e ∈ out, Leads (edges ℓ x) ℓ e.1 := by
  induction region with
  | nil | line => exact ⟨.refl, List.forall_mem_nil _⟩
  | @append ℓ ℓ' _ _ _ _ x y _ _ first _ ih ih' =>
    rw [edges_append, first.endLabel_eq]
    obtain ⟨ends, thrown⟩ := ih
    obtain ⟨ends', thrown'⟩ := ih'
    have through := ends.mono (List.subset_append_left (edges ℓ x) (edges ℓ' y))
    refine ⟨through.trans (ends'.mono (List.subset_append_right _ _)), fun e mem => ?_⟩
    rcases List.mem_append.1 mem with mem | mem
    · exact (thrown e mem).mono (List.subset_append_left _ _)
    · exact through.trans ((thrown' e mem).mono (List.subset_append_right _ _))
  | @test ℓ tested n n' t x out flag skipped result perm inner ih =>
    rw [edges_skippable inner.endLabel_eq]
    have goes (l : Label) (mem : l ∈ t.targets) :
        Leads (t.targets.map (ℓ, ·) ++ edges (.split ℓ (n + 1)) x ++ [(tested, .split ℓ n)]) ℓ l :=
      .single (List.mem_append_left _ (List.mem_append_left _ (List.mem_map_of_mem mem)))
    refine ⟨goes _ (perm.mem_iff.2 (mem_pair.2 (.inl rfl))), fun e mem => ?_⟩
    refine (goes _ (perm.mem_iff.2 (mem_pair.2 (.inr rfl)))).trans ((ih.2 e mem).mono ?_)
    exact fun _ mem => List.mem_append_left _ (List.mem_append_right _ mem)
  | site ℓ first n thrown other =>
    refine ⟨.single (List.mem_cons_of_mem _ (List.mem_singleton_self _)), fun e mem => ?_⟩
    rw [List.mem_singleton.1 mem]

namespace BlockCode

variable (b : BlockCode c)

/-- The code of a block is gone through to its end, and to each of its call sites. -/
lemma leads (ℓ : Label) : Leads (edges ℓ b.listing) (.block b.id) b.ending ∧
    ∀ m ∈ b.sites, Leads (edges ℓ b.listing) (.block b.id) m.source := by
  have sub : edges (.block b.id) b.inner ⊆ edges ℓ b.listing := by
    intro e mem
    change e ∈ edges (.block b.id) (b.content ++ b.pad)
    rw [edges_append, content, edges_append, edges_append, endLabel_ofLines]
    exact List.mem_append_left _ (List.mem_append_left _ (List.mem_append_right _ mem))
  obtain ⟨ends, thrown⟩ := b.region.leads
  refine ⟨ends.mono sub, fun m mem => ?_⟩
  rcases List.mem_append.1 mem with mem | mem
  · exact (thrown _ (List.mem_map_of_mem mem)).mono sub
  · rw [b.sources.2 m mem]
    exact ends.mono sub

/-- A block with a landing pad has a call site, and the landing pad is entered from there. -/
lemma exists_site (landing : c.hasLanding b.block = true) :
    ∃ m ∈ b.sites, (m.source, .landing b.id) ∈ b.outEdges := by
  have some : b.place.landings b.sites ≠ [] := by
    intro none
    have isEmpty := b.isEmpty_landings
    rw [none, landing] at isEmpty
    cases isEmpty
  rw [b.landings_eq] at some
  split at some
  case isFalse => exact absurd rfl some
  case isTrue guarded =>
    obtain ⟨m, mem⟩ := List.exists_mem_of_ne_nil _ (mt List.map_eq_nil_iff.2 some)
    refine ⟨m, mem, mem_sourcesTo.1 ?_⟩
    rw [b.sourcesTo_landing, if_pos rfl, b.landings_eq, if_pos guarded, List.map_map]
    exact List.mem_map_of_mem mem

/-- Where the beginning of another block is entered from. -/
lemma mem_outEdges_block {l : Label} {id : BlockId} : (l, .block id) ∈ b.outEdges ↔
    l = b.ending ∧ id ∈ b.block.terminator.targets ∨
      l = .landing b.id ∧ c.hasLanding b.block = true ∧
        id ∈ b.block.tryCatches.map (·.handler) := by
  have counted {ids : List BlockId} : ids.count id ≠ 0 ↔ id ∈ ids := by
    rw [← Nat.pos_iff_ne_zero, List.count_pos_iff]
  rw [← mem_sourcesTo, b.sourcesTo_block, List.mem_append, List.mem_replicate, List.mem_replicate,
    counted, and_comm, and_comm (b := l = .landing b.id)]
  refine or_congr Iff.rfl (and_congr Iff.rfl ?_)
  cases c.hasLanding b.block with
  | true => rw [if_pos rfl, counted, eq_self_iff_true, true_and]
  | false => simp

/-- A block ends in a part of its own. -/
lemma ending_ne_landing (id : BlockId) : b.ending ≠ .landing id := by
  intro eq
  have ends := b.region.endLabel_eq
  rcases endLabel_eq_or_mem (.block b.id) b.inner with here | mem
  · rw [ends, eq] at here
    cases here
  · rw [ends, eq] at mem
    cases b.region.isSplit_of_mem_labels mem

end BlockCode

namespace BodyCode

variable {k : BodyCode c} {b b' : BlockCode c}

/-- The code of a block has the same edges wherever it stands. -/
lemma edges_subset (mem : b ∈ k.blocks) (ℓ : Label) :
    edges ℓ b.listing ⊆ edges .entry k.listing := by
  obtain ⟨before, after, split⟩ := List.append_of_mem mem
  intro e mem
  simp only [listing, main, split, List.flatMap_append, List.flatMap_cons, edges_append,
    List.mem_append]
  exact .inl (.inl (.inr (.inr (.inl mem))))

/-- The edges out of the blocks are edges of the listing. -/
lemma outEdges_subset : k.outEdges ⊆ edges .entry k.listing := by
  rw [← k.outward_listing]
  exact List.filter_sublist.subset

/-- The edges out of a block are edges of the listing. -/
lemma outEdges_subset_of_mem (mem : b ∈ k.blocks) : b.outEdges ⊆ edges .entry k.listing :=
  fun _ edge => k.outEdges_subset
    (List.mem_append_right _ (List.mem_flatMap.2 ⟨b, mem, edge⟩))

/-- The code before the first block of the body is gone through to its end. -/
lemma leads_startEnd : Leads (edges .entry k.listing) .entry (startEnd c) := by
  refine k.region.leads.1.mono fun e mem => ?_
  simp only [listing, main, edges_append, List.mem_append]
  exact .inl (.inl (.inl (.inl mem)))

/-- The first block of the body is reached from the entry of the function. -/
lemma leads_entry : Leads (edges .entry k.listing) .entry (.block .entry) :=
  k.leads_startEnd.tail (k.outEdges_subset (List.mem_append_left _ (List.mem_append_right _
    (List.mem_singleton_self _))))

/-- What follows a block of the body is reached from the code of the block. -/
lemma leads_of_goes (mem : b ∈ k.blocks) {id : BlockId} (goes : c.Goes b.id id) :
    Leads (edges .entry k.listing) (.block b.id) (.block id) := by
  obtain ⟨block, found, target⟩ := goes
  obtain rfl := Option.some.inj (b.found.symm.trans found)
  obtain ⟨ends, thrown⟩ := b.leads .entry
  have sub := edges_subset mem .entry
  rcases target with target | ⟨landing, handler⟩
  · refine (ends.mono sub).tail (outEdges_subset_of_mem mem ?_)
    exact b.mem_outEdges_block.2 (.inl ⟨rfl, target⟩)
  · obtain ⟨m, site, lands⟩ := b.exists_site landing
    refine (((thrown m site).mono sub).tail (outEdges_subset_of_mem mem lands)).tail
      (outEdges_subset_of_mem mem ?_)
    exact b.mem_outEdges_block.2 (.inr ⟨rfl, landing, handler⟩)

/-- What is reached in the body is reached in the function. -/
lemma leads_of_reaches {id : BlockId} (reaches : c.Reaches id) :
    Leads (edges .entry k.listing) .entry (.block id) := by
  induction reaches with
  | refl => exact k.leads_entry
  | tail _ goes ih =>
    obtain ⟨block, found, target⟩ := goes
    obtain ⟨b, mem, rfl, _⟩ := k.exists_blockCode found
    exact ih.trans (leads_of_goes mem ⟨block, found, target⟩)

/-- An edge from the code of a block stays within it, or leads out of it. -/
lemma mem_edges_blocks {ks : List (BlockCode c)} {ℓ : Label} {e : Label × Label}
    (mem : e ∈ edges ℓ (ks.flatMap (·.listing))) :
    ∃ b ∈ ks, e.1 ∈ labels b.listing ∧ (e.2 ∈ labels b.listing ∨ e ∈ b.outEdges) := by
  induction ks generalizing ℓ with
  | nil => cases mem
  | cons b ks ih =>
    rw [List.flatMap_cons, edges_append, List.mem_append] at mem
    rcases mem with mem | mem
    · refine ⟨b, List.mem_cons_self .., List.mem_cons.2 (source_eq_or_mem mem), ?_⟩
      by_cases split : e.2.isSplit = true
      · exact .inl ((b.contained ℓ).targets e mem split)
      · rw [← b.outward_listing ℓ, outward, List.mem_filter]
        exact .inr ⟨mem, by simpa using split⟩
    · obtain ⟨b', mem', leads⟩ := ih mem
      exact ⟨b', List.mem_cons_of_mem _ mem', leads⟩

/-- Each edge is one of those before the blocks of the body, or one from the code of a block. -/
lemma mem_edges {e : Label × Label} (mem : e ∈ edges .entry k.listing) :
    (e.2 ∈ labels k.entry ∨ e.2 = .unwind ∨ e.2 = .block .entry) ∨
      ∃ b ∈ k.blocks, e.1 ∈ labels b.listing ∧ (e.2 ∈ labels b.listing ∨ e ∈ b.outEdges) := by
  rw [listing, main, edges_append, edges_append, (graph_exitCode _ _).1, (graph_unwindCode _ _).1,
    List.append_nil, List.append_nil, edges_append, edges_append, List.mem_append,
    List.mem_append] at mem
  rcases mem with (mem | mem) | mem
  · refine .inl ?_
    by_cases split : e.2.isSplit = true
    · exact .inl (k.region.contained.targets e mem split)
    · have out : e ∈ outward .entry k.entry := List.mem_filter.2 ⟨mem, by simpa using split⟩
      rw [k.region.outward_eq] at out
      obtain ⟨_, _, rfl⟩ := List.mem_map.1 out
      exact .inr (.inl rfl)
  · rw [List.mem_singleton.1 mem]
    exact .inl (.inr (.inr rfl))
  · exact .inr (mem_edges_blocks mem)

/-- What is reached in the function belongs to what is reached in the body. -/
lemma reaches_of_leads (nodup : (.entry :: labels k.listing).Nodup) {l : Label}
    (leads : Leads (edges .entry k.listing) .entry l) (mem : b ∈ k.blocks)
    (own : l ∈ labels b.listing) : c.Reaches b.id := by
  obtain ⟨first, nodup⟩ := List.nodup_cons.1 nodup
  have entryNot : ∀ l ∈ labels k.entry, ∀ b ∈ k.blocks, l ∉ labels b.listing := by
    intro l before b mem own
    rw [labels_listing, List.append_assoc, List.append_assoc] at nodup
    exact (List.nodup_append.1 nodup).2.2 l before l
      (List.mem_append_left _ (List.mem_flatMap.2 ⟨b, mem, own⟩)) rfl
  induction leads generalizing b with
  | refl => exact absurd (k.labels_subset mem own) first
  | @tail source target _ edge ih =>
    -- an edge stays within the code of a block, or goes to a successor of it or to its pad
    rcases k.mem_edges edge with (before | unwind | entry) | ⟨b', mem', here, stays | leaves⟩
    · exact absurd own (entryNot target before b mem)
    · obtain rfl : target = .unwind := unwind
      rcases b.mem_labels_listing own with other | other | other <;> cases other
    · obtain rfl : target = .block .entry := entry
      rcases b.mem_labels_listing own with eq | other | other
      · rw [← Label.block.inj eq]
        exact .refl
      · cases other
      · cases other
    · rw [eq_of_mem_labels nodup mem mem' own stays]
      exact ih mem' here
    · have reaches := ih mem' here
      rcases b.mem_labels_listing own with rfl | split | rfl
      · exact reaches.tail ⟨b'.block, b'.found,
          (b'.mem_outEdges_block.1 leaves).imp And.right And.right⟩
      · rw [← b'.outward_listing .entry] at leaves
        have other := (List.mem_filter.1 leaves).2
        rw [split] at other
        cases other
      · have landing := mem_sourcesTo.2 leaves
        rw [b'.sourcesTo_landing] at landing
        split at landing
        case isTrue eq => exact eq ▸ reaches
        case isFalse => cases landing

end BodyCode

end Lowering

end ObjectBackend
