import Mathlib.Data.List.Nodup
import ObjectBackend.Proofs.Lowering.Listing

/-!
# Regions

The grammar of the code between the start of a block and its terminator (`Region`). Blocks are left
within it in two ways only: to skip a test, which rejoins behind it, and at a call site, where an
exception leads out of the region. So a region has one end, and what is true of all such code is
shown by one induction over the grammar.

`Contained` is what the phis of a region depend on: new parts of blocks are entered only from within
the listing that starts them, and their phis have a value for each edge. Unlike the grammar it goes
over to listings that leave their blocks for good, hence to whole functions.
-/

namespace ObjectBackend

open Target

/-- Whether a line neither leaves its block nor depends on how the block is entered. -/
def Target.Line.isPlain {ℓ σ : Type} : Line ℓ σ → Bool
  | .phi .. | .leave _ => false
  | _ => true

namespace Lowering

open Listing

/-- Code that is left for a test and goes on behind it. The number of the part behind the test comes
before the numbers of the parts within it. -/
def skippable (ℓ tested : Label) (n : Nat) (t : Term Label) (x : Listing)
    (flag skipped result : Value) : Listing :=
  [.line (.leave t), .start (.split ℓ (n + 1))] ++ x ++
    [.line (.leave (.br (.split ℓ n))), .start (.split ℓ n),
      .line (.phi flag .i1 [(skipped, .label ℓ), (result, .label tested)])]

/-- Code from one label to another, whose new labels have numbers from one bound to another, with
the edges by which exceptions leave it. -/
inductive Region : Label → Nat → Listing → Label → Nat → List (Label × Label) → Prop where
  | nil (ℓ : Label) (n : Nat) :
    Region ℓ n [] ℓ n []
  | line (ℓ : Label) (n : Nat) {l : DraftLine} :
    l.isPlain = true →
    Region ℓ n [.line l] ℓ n []
  | append {ℓ ℓ' ℓ'' : Label} {n n' n'' : Nat} {x y : Listing} {out out' : List (Label × Label)} :
    Region ℓ n x ℓ' n' out →
    Region ℓ' n' y ℓ'' n'' out' →
    Region ℓ n (x ++ y) ℓ'' n'' (out ++ out')
  | test {ℓ tested : Label} {n n' : Nat} {t : Term Label} {x : Listing}
      {out : List (Label × Label)} (flag skipped result : Value) :
    t.targets.Perm [.split ℓ n, .split ℓ (n + 1)] →
    Region (.split ℓ (n + 1)) (n + 2) x tested n' out →
    Region ℓ n (skippable ℓ tested n t x flag skipped result) (.split ℓ n) n' out
  | site (ℓ first : Label) (n : Nat) (thrown : Value) {target : Label} :
    target.isSplit = false →
    Region ℓ n [.line (.leave (.condBr thrown target (.split first n))), .start (.split first n)]
      (.split first n) (n + 1) [(ℓ, target)]

/-- The parts that a listing splits blocks into are numbered from one bound to another, and all that
is known about them stands in the listing. -/
structure Contained (ℓ : Label) (n : Nat) (x : Listing) (n' : Nat) : Prop where
  le : n ≤ n'
  numbered : ∀ first k, .split first k ∈ labels x → n ≤ k ∧ k < n'
  nodup : ((labels x).filter Label.isSplit).Nodup
  targets : ∀ e ∈ edges ℓ x, e.2.isSplit = true → e.2 ∈ labels x
  joins : ∀ j ∈ joins ℓ x, j.1.isSplit = true →
    j.1 ∈ labels x ∧ j.2.Perm ((sourcesTo j.1 (edges ℓ x)).map .label)

/-- What a list of two items has is one of them. -/
lemma mem_pair {α : Type} {a b c : α} : a ∈ [b, c] ↔ a = b ∨ a = c := by simp

section Skippable

variable {ℓ tested : Label} {n : Nat} {t : Term Label} {x : Listing} {flag skipped result : Value}

/-- The labels of code that can be skipped. -/
lemma labels_skippable : labels (skippable ℓ tested n t x flag skipped result) =
    .split ℓ (n + 1) :: labels x ++ [.split ℓ n] := by
  rw [skippable, labels_append, labels_append]
  rfl

/-- The block that code that can be skipped ends in. -/
lemma endLabel_skippable :
    endLabel ℓ (skippable ℓ tested n t x flag skipped result) = .split ℓ n := by
  rw [skippable, endLabel_append]
  rfl

/-- The edges of code that can be skipped: those of its condition, those of the code, and one behind
it. -/
lemma edges_skippable (ends : endLabel (.split ℓ (n + 1)) x = tested) :
    edges ℓ (skippable ℓ tested n t x flag skipped result) =
      t.targets.map (ℓ, ·) ++ edges (.split ℓ (n + 1)) x ++ [(tested, .split ℓ n)] := by
  rw [skippable, edges_append, edges_append, endLabel_append]
  change (_ ++ []) ++ edges (.split ℓ (n + 1)) x ++ edges (endLabel (.split ℓ (n + 1)) x) _ = _
  rw [ends, List.append_nil]
  rfl

/-- Code that can be skipped joins what it joins and its own two ends. -/
lemma joins_skippable : joins ℓ (skippable ℓ tested n t x flag skipped result) =
    joins (.split ℓ (n + 1)) x ++ [(.split ℓ n, [.label ℓ, .label tested])] := by
  rw [skippable, joins_append, joins_append, endLabel_append]
  rfl

/-- The blocks that code that can be skipped leaves behind. -/
lemma closed_skippable (b : DraftBlock) : closed b (skippable ℓ tested n t x flag skipped result) =
    b.push (.leave t) :: closed ⟨.split ℓ (n + 1), []⟩ x ++
      [(last ⟨.split ℓ (n + 1), []⟩ x).push (.leave (.br (.split ℓ n)))] := by
  rw [skippable, closed_append, closed_append, last_append]
  rfl

/-- The block behind code that can be skipped starts with its phi. -/
lemma last_skippable (b : DraftBlock) : last b (skippable ℓ tested n t x flag skipped result) =
    ⟨.split ℓ n, [.phi flag .i1 [(skipped, .label ℓ), (result, .label tested)]]⟩ := by
  rw [skippable, last_append]
  rfl

end Skippable

namespace Contained

variable {ℓ : Label} {n n' n'' : Nat} {x y : Listing}

/-- A part that starts in a listing has a number between its bounds. -/
lemma bounds (h : Contained ℓ n x n') {l : Label} (mem : l ∈ labels x) (split : l.isSplit = true) :
    ∃ first k, l = .split first k ∧ n ≤ k ∧ k < n' := by
  cases l with
  | split first k => exact ⟨first, k, rfl, h.numbered first k mem⟩
  | _ => cases split

/-- Listings that follow each other start different parts. -/
lemma not_mem_right (h : Contained ℓ n x n') {ℓ' : Label} (h' : Contained ℓ' n' y n'') {l : Label}
    (mem : l ∈ labels x) (split : l.isSplit = true) : l ∉ labels y := by
  intro mem'
  obtain ⟨first, k, rfl, _, lt⟩ := h.bounds mem split
  have := (h'.numbered first k mem').1
  omega

/-- Contained listings may be put one after the other. -/
lemma append (h : Contained ℓ n x n') (h' : Contained (endLabel ℓ x) n' y n'') :
    Contained ℓ n (x ++ y) n'' where
  le := Nat.le_trans h.le h'.le
  numbered := by
    intro first k mem
    rw [labels_append, List.mem_append] at mem
    have le := h.le
    have le' := h'.le
    rcases mem with mem | mem
    · have := h.numbered first k mem
      omega
    · have := h'.numbered first k mem
      omega
  nodup := by
    rw [labels_append, List.filter_append]
    refine List.Nodup.append h.nodup h'.nodup fun l mem mem' => ?_
    obtain ⟨mem, split⟩ := List.mem_filter.1 mem
    exact h.not_mem_right h' mem split (List.mem_filter.1 mem').1
  targets := by
    intro e mem split
    rw [edges_append, List.mem_append] at mem
    rw [labels_append, List.mem_append]
    rcases mem with mem | mem
    · exact .inl (h.targets e mem split)
    · exact .inr (h'.targets e mem split)
  joins := by
    intro j mem split
    rw [joins_append, List.mem_append] at mem
    rw [labels_append, edges_append, sourcesTo_append, List.mem_append]
    -- the edges of the other listing lead elsewhere
    rcases mem with mem | mem
    · obtain ⟨started, perm⟩ := h.joins j mem split
      have none : sourcesTo j.1 (edges (endLabel ℓ x) y) = [] := sourcesTo_eq_nil fun e mem' eq =>
        h.not_mem_right h' started split (eq ▸ h'.targets e mem' (eq ▸ split))
      rw [none, List.append_nil]
      exact ⟨.inl started, perm⟩
    · obtain ⟨started, perm⟩ := h'.joins j mem split
      have none : sourcesTo j.1 (edges ℓ x) = [] := sourcesTo_eq_nil fun e mem' eq =>
        h.not_mem_right h' (h.targets e mem' (eq ▸ split)) (eq ▸ split) (eq ▸ started)
      rw [none, List.nil_append]
      exact ⟨.inr started, perm⟩

/-- A test that can be skipped is entered from before it, and what is behind it from before it and
from its end. -/
lemma skippable {tested : Label} {t : Term Label}
    (h : Contained (.split ℓ (n + 1)) (n + 2) x n') (ends : endLabel (.split ℓ (n + 1)) x = tested)
    (perm : t.targets.Perm [.split ℓ n, .split ℓ (n + 1)]) (flag skipped result : Value) :
    Contained ℓ n (skippable ℓ tested n t x flag skipped result) n' := by
  have le := h.le
  -- no part within the test is one of the two that are made for it
  have fresh : ∀ k, k < n + 2 → .split ℓ k ∉ labels x := fun k lt mem => by
    have := (h.numbered ℓ k mem).1
    omega
  refine ⟨by omega, ?numbered, ?nodup, ?targets, ?joins⟩
  case numbered =>
    intro first k mem
    rw [labels_skippable, List.mem_append, List.mem_cons, List.mem_singleton] at mem
    rcases mem with (eq | mem) | eq
    · obtain ⟨rfl, rfl⟩ := Label.split.inj eq
      omega
    · have := h.numbered first k mem
      omega
    · obtain ⟨rfl, rfl⟩ := Label.split.inj eq
      omega
  case nodup =>
    rw [labels_skippable, List.filter_append, List.filter_cons_of_pos rfl]
    refine List.Nodup.append (List.nodup_cons.2 ⟨?_, h.nodup⟩)
      ((List.nodup_singleton _).filter _) ?_
    · exact fun mem => fresh (n + 1) (by omega) (List.mem_filter.1 mem).1
    · intro l mem mem'
      obtain rfl : l = .split ℓ n := List.mem_singleton.1 (List.mem_filter.1 mem').1
      rcases List.mem_cons.1 mem with eq | mem
      · have := (Label.split.inj eq).2
        omega
      · exact fresh n (by omega) (List.mem_filter.1 mem).1
  case targets =>
    intro e mem split
    rw [edges_skippable ends, List.mem_append, List.mem_append, List.mem_singleton] at mem
    rw [labels_skippable]
    rcases mem with (mem | mem) | rfl
    · obtain ⟨target, named, rfl⟩ := List.mem_map.1 mem
      rcases mem_pair.1 (perm.mem_iff.1 named) with rfl | rfl
      · exact List.mem_append_right _ (List.mem_singleton_self _)
      · exact List.mem_append_left _ (List.mem_cons_self ..)
    · exact List.mem_append_left _ (List.mem_cons_of_mem _ (h.targets e mem split))
    · exact List.mem_append_right _ (List.mem_singleton_self _)
  case joins =>
    intro j mem split
    rw [joins_skippable, List.mem_append, List.mem_singleton] at mem
    rw [labels_skippable, edges_skippable ends, sourcesTo_append, sourcesTo_append]
    rcases mem with mem | rfl
    · -- a phi within the test: neither of the two new parts is its block
      obtain ⟨started, inside⟩ := h.joins j mem split
      have other : ∀ k, k < n + 2 → Label.split ℓ k ≠ j.1 := fun k lt eq =>
        fresh k lt (eq ▸ started)
      have before : sourcesTo j.1 (t.targets.map (ℓ, ·)) = [] := by
        refine sourcesTo_eq_nil fun e mem' => ?_
        obtain ⟨target, named, rfl⟩ := List.mem_map.1 mem'
        rcases mem_pair.1 (perm.mem_iff.1 named) with rfl | rfl
        · exact other n (by omega)
        · exact other (n + 1) (by omega)
      have after : sourcesTo j.1 [(tested, Label.split ℓ n)] = [] := by
        refine sourcesTo_eq_nil fun e mem' => ?_
        rw [List.mem_singleton.1 mem']
        exact other n (by omega)
      rw [before, after, List.nil_append, List.append_nil]
      exact ⟨List.mem_append_left _ (List.mem_cons_of_mem _ started), inside⟩
    · -- the phi behind the test
      have inside : sourcesTo (.split ℓ n) (edges (.split ℓ (n + 1)) x) = [] :=
        sourcesTo_eq_nil fun e mem' eq =>
          fresh n (by omega) (eq ▸ h.targets e mem' (by rw [eq]; rfl))
      have once : [Label.split ℓ n, .split ℓ (n + 1)].count (.split ℓ n) = 1 := by
        rw [List.count_cons_self, List.count_eq_zero_of_not_mem (by simp)]
      have after : sourcesTo (.split ℓ n) [(tested, Label.split ℓ n)] = [tested] :=
        sourcesTo_map_self (.split ℓ n) [tested]
      rw [sourcesTo_map_const, perm.count_eq, once, inside, List.append_nil, after]
      exact ⟨List.mem_append_right _ (List.mem_singleton_self _), .refl _⟩

/-- A listing that splits no block and has no edge to a part of one. -/
lemma of_not_split (labels_not : ∀ l ∈ labels x, l.isSplit = false)
    (edges_not : ∀ e ∈ edges ℓ x, e.2.isSplit = false)
    (joins_not : ∀ j ∈ Listing.joins ℓ x, j.1.isSplit = false) : Contained ℓ n x n where
  le := Nat.le_refl n
  numbered := fun first k mem => absurd (labels_not _ mem) (by simp [Label.isSplit])
  nodup := by
    rw [List.filter_eq_nil_iff.2 fun l mem => by rw [labels_not l mem]; exact Bool.false_ne_true]
    exact List.nodup_nil
  targets := fun e mem split => absurd split (by rw [edges_not e mem]; exact Bool.false_ne_true)
  joins := fun j mem split => absurd split (by rw [joins_not j mem]; exact Bool.false_ne_true)

end Contained

/-- The edges of a listing to blocks that are not started by splitting one. -/
def outward (ℓ : Label) (x : Listing) : List (Label × Label) :=
  (edges ℓ x).filter fun e => !e.2.isSplit

/-- The edges of two listings to the outside, one after the other. -/
lemma outward_append (ℓ : Label) (x y : Listing) :
    outward ℓ (x ++ y) = outward ℓ x ++ outward (endLabel ℓ x) y := by
  rw [outward, edges_append, List.filter_append, outward, outward]

/-- Where such a block is entered from. -/
lemma sourcesTo_outward {ℓ target : Label} {x : Listing} (other : target.isSplit = false) :
    sourcesTo target (outward ℓ x) = sourcesTo target (edges ℓ x) := by
  rw [sourcesTo, outward, List.filter_filter, sourcesTo]
  congr 2
  funext e
  by_cases eq : e.2 = target
  · simp [eq, other]
  · simp [eq]

namespace Region

variable {ℓ ℓ' : Label} {n n' : Nat} {x : Listing} {out : List (Label × Label)}

/-- A region ends in the block that it is said to end in. -/
lemma endLabel_eq (region : Region ℓ n x ℓ' n' out) : endLabel ℓ x = ℓ' := by
  induction region with
  | nil | line _ _ _ | site _ _ _ _ _ => rfl
  | append _ _ ih ih' => rw [endLabel_append, ih, ih']
  | test _ _ _ _ _ _ => exact endLabel_skippable

/-- A region leaves its last block open. -/
lemma isOpen?_eq (region : Region ℓ n x ℓ' n' out) : isOpen? true x = some true := by
  induction region with
  | nil => rfl
  | @line _ _ l plain =>
    cases l with
    | leave t => cases plain
    | _ => rfl
  | append _ _ ih ih' => rw [isOpen?_append, ih, Option.bind_some, ih']
  | test _ _ _ _ _ ih =>
    rw [skippable, isOpen?_append, isOpen?_append]
    change ((isOpen? true _).bind _) = _
    rw [ih]
    rfl
  | site _ _ _ _ _ => rfl

/-- Only parts of blocks start in a region. -/
lemma isSplit_of_mem_labels (region : Region ℓ n x ℓ' n' out) {l : Label} (mem : l ∈ labels x) :
    l.isSplit = true := by
  induction region with
  | nil | line _ _ _ => cases mem
  | append _ _ ih ih' =>
    rw [labels_append, List.mem_append] at mem
    exact mem.elim ih ih'
  | test _ _ _ _ _ ih =>
    rw [labels_skippable, List.mem_append, List.mem_cons, List.mem_singleton] at mem
    rcases mem with (rfl | mem) | rfl
    · rfl
    · exact ih mem
    · rfl
  | site _ _ _ _ _ =>
    rw [List.mem_singleton.1 mem]
    rfl

/-- A plain line has no edges and is no phi. -/
lemma edges_line {l : DraftLine} (plain : l.isPlain = true) :
    lineEdges ℓ l = [] ∧ lineJoins ℓ l = [] := by
  cases l with
  | leave t => cases plain
  | phi r t is => cases plain
  | _ => exact ⟨rfl, rfl⟩

/-- The phis of a region stand in the parts that it splits its block into. -/
lemma isSplit_of_mem_joins (region : Region ℓ n x ℓ' n' out) {j : Label × List (Source Label)}
    (mem : j ∈ joins ℓ x) : j.1.isSplit = true := by
  induction region with
  | nil | site _ _ _ _ _ => cases mem
  | line ℓ n plain =>
    rw [joins, (edges_line plain).2] at mem
    cases mem
  | append r _ ih ih' =>
    rw [joins_append, r.endLabel_eq, List.mem_append] at mem
    exact mem.elim ih ih'
  | test _ _ _ _ _ ih =>
    rw [joins_skippable, List.mem_append, List.mem_singleton] at mem
    rcases mem with mem | rfl
    · exact ih mem
    · rfl

/-- Only exceptions leave a region. -/
lemma outward_eq (region : Region ℓ n x ℓ' n' out) : outward ℓ x = out := by
  induction region with
  | nil => rfl
  | line ℓ n plain =>
    rw [outward, edges, (edges_line plain).1]
    rfl
  | append r _ ih ih' => rw [outward_append, ih, r.endLabel_eq, ih']
  | @test ℓ tested n n' t x out flag skipped result perm r ih =>
    have before : (t.targets.map (ℓ, ·)).filter (fun e => !e.2.isSplit) = [] := by
      refine List.filter_eq_nil_iff.2 fun e mem => ?_
      obtain ⟨target, named, rfl⟩ := List.mem_map.1 mem
      rcases mem_pair.1 (perm.mem_iff.1 named) with rfl | rfl <;> exact Bool.false_ne_true
    rw [outward, edges_skippable r.endLabel_eq, List.filter_append, List.filter_append, before,
      List.nil_append, ← outward, ih]
    exact List.append_nil out
  | @site ℓ first n thrown target other =>
    change List.filter _ [(ℓ, target), (ℓ, .split first n)] = _
    rw [List.filter_cons_of_pos (by rw [other]; rfl)]
    rfl

/-- The new parts of a region are entered from within it, and its phis have a value for each edge.
-/
lemma contained (region : Region ℓ n x ℓ' n' out) : Contained ℓ n x n' := by
  induction region with
  | nil => exact .of_not_split (by simp [labels]) (by simp [edges]) (by simp [joins])
  | line ℓ n plain =>
    obtain ⟨noEdges, noJoins⟩ := edges_line (ℓ := ℓ) plain
    exact .of_not_split (by simp [labels]) (by simp [edges, noEdges]) (by simp [joins, noJoins])
  | append r _ ih ih' => exact ih.append (by rw [r.endLabel_eq]; exact ih')
  | test flag skipped result perm r ih => exact ih.skippable r.endLabel_eq perm flag skipped result
  | site ℓ first n thrown other =>
    refine ⟨by omega, ?_, ?_, ?_, ?_⟩
    · intro first' k mem
      obtain ⟨rfl, rfl⟩ : first' = first ∧ k = n := by simpa [labels] using mem
      omega
    · exact (List.nodup_singleton _).filter _
    · intro e mem split
      simp only [edges, lineEdges, Term.targets, List.map_cons, List.map_nil, List.append_nil,
        List.mem_cons, List.not_mem_nil, or_false] at mem
      rcases mem with rfl | rfl
      · rw [other] at split
        cases split
      · exact List.mem_singleton_self _
    · simp [joins, lineJoins]

end Region

end Lowering

end ObjectBackend
