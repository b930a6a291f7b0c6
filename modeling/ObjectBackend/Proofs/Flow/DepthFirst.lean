import ObjectBackend.Proofs.Flow.PostOrder
import ObjectBackend.Proofs.Simulation

/-!
# The order of depth-first walks

What a walk leaves are just the nodes that it comes to over links. It leaves a node behind those
that it has links to, except for those that were entered before it and lead back to it
(`Walk.left_ordered`). So the reverse post-order is an order of all nodes, those that node 0 leads
to come first, and each of these stands before the nodes it has links to unless they lead back to it
(`reversePostOrder_orders`).

The walks are also described as a loop that keeps the nodes that have been entered, but not left, on
a stack (`Descent.step?`).
-/

namespace List

variable {α : Type} [DecidableEq α] {R : α → α → Prop} {xs : List α} {x y : α}

/-- In a list whose earlier elements are related to the later ones, an element that is not related
to another one stands behind it. -/
lemma idxOf_lt_idxOf_of_pairwise (pairwise : xs.Pairwise R) (memx : x ∈ xs) (memy : y ∈ xs)
    (ne : x ≠ y) (unrelated : ¬ R y x) : xs.idxOf x < xs.idxOf y := by
  by_contra le
  have lt : xs.idxOf y < xs.idxOf x :=
    Nat.lt_of_le_of_ne (Nat.not_lt.1 le) fun eq => ne ((idxOf_inj memy).1 eq).symm
  have related := pairwise_iff_getElem.1 pairwise _ _ (idxOf_lt_length_iff.2 memy)
    (idxOf_lt_length_iff.2 memx) lt
  rw [getElem_idxOf, getElem_idxOf] at related
  exact unrelated related

omit [DecidableEq α] in
/-- The first one of the elements behind a position is at this position. -/
lemma of_cons_eq_drop {i : Nat} {ys : List α} (eq : x :: ys = xs.drop i) :
    xs[i]? = some x ∧ ys = xs.drop (i + 1) := by
  constructor
  · rw [← Nat.add_zero i, ← getElem?_drop, ← eq]
    rfl
  · rw [← drop_drop, ← eq]
    rfl

end List

namespace ObjectBackend

open scoped List

variable {successors : Nat → List Nat} {fresh nodes : List Nat} {count x y : Nat}

namespace Walk

/-- One of the first `count` nodes leads to another one over links between them. -/
abbrev Leads (successors : Nat → List Nat) (count : Nat) : Nat → Nat → Prop :=
  Relation.ReflTransGen fun a b => b ∈ successors a ∧ b < count

section Equations

variable {node : Nat}

/-- A visit of a node that is fresh leaves what it leads to, then the node, then what the others
lead to. -/
lemma left_visit_of_mem (mem : node ∈ fresh) :
    (visit successors fresh (node :: nodes)).left =
      (visit successors (fresh.erase node) (successors node)).left ++ [node] ++
        (visit successors (visit successors (fresh.erase node) (successors node)).rest
          nodes).left := by
  rw [visit, dif_pos mem]
  exact List.append_cons ..

/-- What a visit of a fresh node spares is what the others spare after it. -/
lemma rest_visit_of_mem (mem : node ∈ fresh) :
    (visit successors fresh (node :: nodes)).rest =
      (visit successors (visit successors (fresh.erase node) (successors node)).rest
        nodes).rest := by
  rw [visit, dif_pos mem]

/-- A node that has been entered leaves nothing. -/
lemma left_visit_of_notMem (stale : node ∉ fresh) :
    (visit successors fresh (node :: nodes)).left = (visit successors fresh nodes).left := by
  rw [visit, dif_neg stale]

/-- A node that has been entered takes nothing from what is fresh. -/
lemma rest_visit_of_notMem (stale : node ∉ fresh) :
    (visit successors fresh (node :: nodes)).rest = (visit successors fresh nodes).rest := by
  rw [visit, dif_neg stale]

end Equations

/-- One of the nodes that are to be entered leads to a node that has been left. -/
lemma exists_leads (below : ∀ x ∈ fresh, x < count)
    (mem : x ∈ (visit successors fresh nodes).left) :
    ∃ node ∈ nodes, node < count ∧ Leads successors count node x := by
  fun_induction visit successors fresh nodes with
  | case1 => cases mem
  | case2 fresh node nodes mem' shorter inner fewer others ihInner ihOthers =>
    have lt := below node mem'
    have below' : ∀ x ∈ fresh.erase node, x < count := fun x mem =>
      below x (List.mem_of_mem_erase mem)
    rcases List.mem_append.1 mem with mem | mem
    · obtain ⟨next, link, small, leads⟩ := ihInner below' mem
      exact ⟨node, List.mem_cons_self .., lt, .head ⟨link, small⟩ leads⟩
    · rcases List.mem_cons.1 mem with rfl | mem
      · exact ⟨x, List.mem_cons_self .., lt, .refl⟩
      · obtain ⟨next, mem, rest⟩ := ihOthers (fun x mem => below' x (mem_of_mem_rest mem)) mem
        exact ⟨next, List.mem_cons_of_mem _ mem, rest⟩
  | case3 fresh node nodes stale others ih =>
    obtain ⟨next, mem, rest⟩ := ih below mem
    exact ⟨next, List.mem_cons_of_mem _ mem, rest⟩

/-- A node that has been left has no links to nodes that are still fresh. -/
lemma links_notMem_rest (nodup : fresh.Nodup) (mem : x ∈ (visit successors fresh nodes).left)
    (link : y ∈ successors x) : y ∉ (visit successors fresh nodes).rest := by
  fun_induction visit successors fresh nodes with
  | case1 => cases mem
  | case2 fresh node nodes mem' shorter inner fewer others ihInner ihOthers =>
    have nodup' := nodup.erase node
    intro rest
    have rest' : y ∈ inner.rest := mem_of_mem_rest rest
    rcases List.mem_append.1 mem with mem | mem
    · exact ihInner nodup' mem rest'
    · rcases List.mem_cons.1 mem with rfl | mem
      · exact notMem_rest nodup' (mem_left (mem_of_mem_rest rest') link) rest'
      · exact ihOthers (nodup_rest nodup') mem rest
  | case3 fresh node nodes stale others ih => exact ih nodup mem

/-- If a node is left before one that it has a link to, that one leads to it. -/
lemma left_ordered (below : ∀ x ∈ fresh, x < count) (nodup : fresh.Nodup) :
    (visit successors fresh nodes).left.Pairwise fun a b =>
      b ∈ successors a → Leads successors count b a := by
  fun_induction visit successors fresh nodes with
  | case1 => exact .nil
  | case2 fresh node nodes mem shorter inner fewer others ihInner ihOthers =>
    have nodup' := nodup.erase node
    have below' : ∀ x ∈ fresh.erase node, x < count := fun x mem =>
      below x (List.mem_of_mem_erase mem)
    have later : ∀ b ∈ others.left, b ∈ inner.rest := fun b mem => mem_of_mem_left mem
    have others_ordered :=
      ihOthers (fun x mem => below' x (mem_of_mem_rest mem)) (nodup_rest nodup')
    refine List.pairwise_append.2 ⟨ihInner below' nodup',
      List.pairwise_cons.2 ⟨fun b memb link => ?_, others_ordered⟩, fun a mema b memb link => ?_⟩
    · -- the links of the node have been walked to before it is left
      have fresh' := later b memb
      exact absurd fresh' (notMem_rest nodup' (mem_left (mem_of_mem_rest fresh') link))
    · rcases List.mem_cons.1 memb with rfl | memb
      · obtain ⟨next, link, small, leads⟩ := exists_leads below' mema
        exact .head ⟨link, small⟩ leads
      · exact absurd (later b memb) (links_notMem_rest nodup' mema link)
  | case3 fresh node nodes stale others ih => exact ih below nodup

/-- A walk that is to enter some node leaves all nodes that it leads to, if all are fresh. -/
lemma mem_left_of_leads (lt : x < count) (mem : x ∈ nodes) (leads : Leads successors count x y) :
    y ∈ (visit successors (List.range count) nodes).left := by
  induction leads with
  | refl => exact mem_left (List.mem_range.2 lt) mem
  | tail _ link ih =>
    obtain ⟨link, small⟩ := link
    exact (mem_left_or_mem_rest (List.mem_range.2 small)).resolve_right
      (links_notMem_rest List.nodup_range ih link)

end Walk

/-- The nodes that the walk from node 0 leaves are those it leads to. -/
lemma mem_reached_iff : x ∈ (Walk.visit successors (List.range count) [0]).left ↔
    x < count ∧ Walk.Leads successors count 0 x := by
  constructor
  · intro mem
    obtain ⟨node, mem', _, leads⟩ := Walk.exists_leads (fun x => List.mem_range.1) mem
    obtain rfl := List.mem_singleton.1 mem'
    exact ⟨List.mem_range.1 (Walk.mem_of_mem_left mem), leads⟩
  · rintro ⟨lt, leads⟩
    exact Walk.mem_left_of_leads (Nat.zero_lt_of_lt lt) (List.mem_singleton_self 0) leads

/-- A node that stands before one that node 0 leads to is itself one of them, and the other one has
no link to it unless it leads back. -/
lemma reversePostOrder_pairwise (successors : Nat → List Nat) (count : Nat) :
    (reversePostOrder successors count).Pairwise fun a b => Walk.Leads successors count 0 b →
      Walk.Leads successors count 0 a ∧ (a ∈ successors b → Walk.Leads successors count a b) := by
  have unreached : ∀ x ∈ (Walk.visit successors (Walk.visit successors (List.range count) [0]).rest
      (List.range count)).left, ¬ Walk.Leads successors count 0 x := fun x mem leads =>
    have fresh := Walk.mem_of_mem_left mem
    Walk.notMem_rest List.nodup_range
      (mem_reached_iff.2 ⟨List.mem_range.1 (Walk.mem_of_mem_rest fresh), leads⟩) fresh
  refine List.pairwise_append.2 ⟨List.pairwise_reverse.2 ?_, ?_, ?_⟩
  · refine (Walk.left_ordered (fun x => List.mem_range.1) List.nodup_range).imp_of_mem ?_
    exact fun {a b} mema memb back _ => ⟨(mem_reached_iff.1 memb).2, back⟩
  · exact List.pairwise_of_forall_mem_list fun a _ b memb leads => absurd leads (unreached b memb)
  · exact fun a _ b memb leads => absurd leads (unreached b memb)

/-- The nodes that have been left: on the walk from node 0, and on the later ones. -/
structure Departed where
  post : List Nat
  unreached : List Nat

/-- Nodes that are left on a walk from a root. -/
def Departed.add (l : Departed) (root : Nat) (nodes : List Nat) : Departed :=
  if root = 0 then { l with post := l.post ++ nodes }
  else { l with unreached := l.unreached ++ nodes }

/-- What is left in two rounds is left in one. -/
lemma Departed.add_add (l : Departed) (root : Nat) (nodes nodes' : List Nat) :
    (l.add root nodes).add root nodes' = l.add root (nodes ++ nodes') := by
  unfold add
  split <;> simp

/-- A state of depth-first walks from several roots. -/
structure Descent where
  /-- The roots that have not been looked at. -/
  roots : List Nat
  /-- The root of the present walk. -/
  root : Nat
  /-- The nodes that have not been entered. -/
  fresh : List Nat
  /-- The nodes that have been entered, but not left, the last one first. With each of them goes the
  position of the successor that is looked at next. -/
  stack : List (Nat × Nat)
  left : Departed

namespace Descent

/-- One turn of the loop. With an empty stack, the next root is entered if it is fresh. Otherwise
the node on top of the stack is left if it has no more successors, and its next successor is
entered if it is fresh. -/
def step? (successors : Nat → List Nat) : Descent → Option Descent
  | ⟨[], _, _, [], _⟩ => none
  | ⟨next :: roots, root, fresh, [], left⟩ =>
    if next ∈ fresh then some ⟨roots, next, fresh.erase next, [(next, 0)], left⟩
    else some ⟨roots, root, fresh, [], left⟩
  | ⟨roots, root, fresh, (node, position) :: stack, left⟩ =>
    match (successors node)[position]? with
    | none => some ⟨roots, root, fresh, stack, left.add root [node]⟩
    | some next =>
      let stack := (node, position + 1) :: stack
      if next ∈ fresh then some ⟨roots, root, fresh.erase next, (next, 0) :: stack, left⟩
      else some ⟨roots, root, fresh, stack, left⟩

/-- The state before the first turn. -/
def start (count : Nat) : Descent := ⟨List.range count, 0, List.range count, [], ⟨[], []⟩⟩

variable {roots : List Nat} {root node position : Nat} {stack : List (Nat × Nat)} {left : Departed}

/-- The loop leaves the node on top of the stack when it has walked to its further successors. -/
lemma steps_visit (rest : nodes = (successors node).drop position) :
    Steps (step? successors) ⟨roots, root, fresh, (node, position) :: stack, left⟩
      ⟨roots, root, (Walk.visit successors fresh nodes).rest, stack,
        left.add root ((Walk.visit successors fresh nodes).left ++ [node])⟩ := by
  induction fresh, nodes using Walk.visit.induct successors
    generalizing node position stack left with
  | case1 fresh =>
    have none : (successors node)[position]? = none :=
      List.getElem?_eq_none_iff.2 (List.drop_eq_nil_iff.1 rest.symm)
    rw [Walk.visit]
    exact .single (by rw [step?, none]; rfl)
  | case2 fresh next nodes mem _ inner _ ihInner ihOthers =>
    obtain ⟨at', rest'⟩ := List.of_cons_eq_drop rest
    have enter : step? successors ⟨roots, root, fresh, (node, position) :: stack, left⟩ =
        some ⟨roots, root, fresh.erase next, (next, 0) :: (node, position + 1) :: stack, left⟩ := by
      rw [step?, at']
      exact if_pos mem
    have after : Steps (step? successors)
        ⟨roots, root, inner.rest, (node, position + 1) :: stack,
          left.add root (inner.left ++ [next])⟩ _ := ihOthers rest'
    rw [Departed.add_add] at after
    rw [Walk.rest_visit_of_mem mem, Walk.left_visit_of_mem mem, List.append_assoc]
    exact .head enter ((ihInner List.drop_zero.symm).trans after)
  | case3 fresh next nodes stale ih =>
    obtain ⟨at', rest'⟩ := List.of_cons_eq_drop rest
    have pass : step? successors ⟨roots, root, fresh, (node, position) :: stack, left⟩ =
        some ⟨roots, root, fresh, (node, position + 1) :: stack, left⟩ := by
      rw [step?, at']
      exact if_neg stale
    rw [Walk.rest_visit_of_notMem stale, Walk.left_visit_of_notMem stale]
    exact .head pass (ih rest')

/-- The loop walks from a root that is fresh. -/
lemma steps_root (mem : node ∈ fresh) :
    Steps (step? successors) ⟨node :: roots, root, fresh, [], left⟩
      ⟨roots, node, (Walk.visit successors (fresh.erase node) (successors node)).rest, [],
        left.add node
          ((Walk.visit successors (fresh.erase node) (successors node)).left ++ [node])⟩ :=
  .head (if_pos mem) (steps_visit List.drop_zero.symm)

/-- The loop walks from all roots behind the first one. -/
lemma exists_steps_roots (root : Nat) (fresh : List Nat) (left : Departed) (positive : 0 ∉ roots) :
    ∃ root' fresh', Steps (step? successors) ⟨roots, root, fresh, [], left⟩
      ⟨[], root', fresh', [],
        { left with unreached := left.unreached ++ (Walk.visit successors fresh roots).left }⟩ := by
  induction roots generalizing root fresh left with
  | nil => exact ⟨root, fresh, by rw [Walk.visit, List.append_nil]⟩
  | cons next roots ih =>
    obtain ⟨nonzero, positive'⟩ := not_or.1 (List.mem_cons.not.1 positive)
    by_cases mem : next ∈ fresh
    · let inner := Walk.visit successors (fresh.erase next) (successors next)
      obtain ⟨root', fresh', rest⟩ :=
        ih next inner.rest (left.add next (inner.left ++ [next])) positive'
      refine ⟨root', fresh', (steps_root mem).trans ?_⟩
      rw [Departed.add, if_neg (Ne.symm nonzero)] at rest ⊢
      rwa [Walk.left_visit_of_mem mem, ← List.append_assoc left.unreached (_ ++ [next])]
    · obtain ⟨root', fresh', rest⟩ := ih root fresh left positive'
      rw [Walk.left_visit_of_notMem mem]
      exact ⟨root', fresh', .head (if_neg mem) rest⟩

/-- The reverse post-order, by the walk from the successors of node 0 and those from later nodes. -/
lemma reversePostOrder_succ (successors : Nat → List Nat) (count : Nat) :
    reversePostOrder successors (count + 1) =
      let inner := Walk.visit successors ((List.range (count + 1)).erase 0) (successors 0)
      (inner.left ++ [0]).reverse ++
        (Walk.visit successors inner.rest ((List.range count).map Nat.succ)).left := by
  let inner := Walk.visit successors ((List.range (count + 1)).erase 0) (successors 0)
  have mem : 0 ∈ List.range (count + 1) := List.mem_range.2 (Nat.succ_pos count)
  have stale : 0 ∉ inner.rest := fun mem =>
    (List.nodup_range.mem_erase_iff.1 (Walk.mem_of_mem_rest mem)).1 rfl
  have left : (Walk.visit successors (List.range (count + 1)) [0]).left = inner.left ++ [0] := by
    rw [Walk.left_visit_of_mem mem, Walk.visit, List.append_nil]
  have rest : (Walk.visit successors (List.range (count + 1)) [0]).rest = inner.rest := by
    rw [Walk.rest_visit_of_mem mem, Walk.visit]
  have others : (Walk.visit successors inner.rest (0 :: (List.range count).map Nat.succ)).left =
      (Walk.visit successors inner.rest ((List.range count).map Nat.succ)).left :=
    Walk.left_visit_of_notMem stale
  rw [← List.range_succ_eq_map] at others
  rw [reversePostOrder, left, rest, others]

/-- The loop comes to an end, with the reverse post-order. -/
lemma exists_steps_end (successors : Nat → List Nat) (count : Nat) :
    ∃ final, Steps (step? successors) (start count) final ∧ final.step? successors = none ∧
      final.left.post.reverse ++ final.left.unreached = reversePostOrder successors count := by
  cases count with
  | zero => exact ⟨start 0, .refl, rfl, by simp [start, reversePostOrder, Walk.visit]⟩
  | succ count =>
    let roots := (List.range count).map Nat.succ
    have start_eq : start (count + 1) =
        ⟨0 :: roots, 0, List.range (count + 1), [], ⟨[], []⟩⟩ := by
      rw [← List.range_succ_eq_map]
      rfl
    let inner := Walk.visit successors ((List.range (count + 1)).erase 0) (successors 0)
    have first : Steps (step? successors) ⟨0 :: roots, 0, List.range (count + 1), [], ⟨[], []⟩⟩
        ⟨roots, 0, inner.rest, [], ⟨inner.left ++ [0], []⟩⟩ :=
      steps_root (List.mem_range.2 (Nat.succ_pos count))
    have positive : 0 ∉ roots := by simp [roots]
    obtain ⟨root', fresh', others⟩ :=
      exists_steps_roots 0 inner.rest ⟨inner.left ++ [0], []⟩ positive
    rw [start_eq, reversePostOrder_succ]
    exact ⟨_, first.trans others, rfl, rfl⟩

end Descent

/-- The reverse post-order of a graph, whatever its links are, is an order of its nodes. The nodes
that node 0 leads to come first; such a node stands before those it has links to, unless they lead
back to it. A loop that keeps a stack comes to an end with this order. -/
theorem reversePostOrder_orders (successors : Nat → List Nat) (count : Nat) :
    (reversePostOrder successors count).Perm (List.range count) ∧
      (∀ u < count, ∀ v < count,
        Walk.Leads successors count 0 u → ¬ Walk.Leads successors count 0 v →
          (reversePostOrder successors count).idxOf u <
            (reversePostOrder successors count).idxOf v) ∧
      (∀ u < count, ∀ v < count,
        Walk.Leads successors count 0 u → v ∈ successors u → ¬ Walk.Leads successors count v u →
          (reversePostOrder successors count).idxOf u <
            (reversePostOrder successors count).idxOf v) ∧
      ∃ final, Steps (Descent.step? successors) (.start count) final ∧
        final.step? successors = none ∧
        final.left.post.reverse ++ final.left.unreached = reversePostOrder successors count := by
  have mem : ∀ x < count, x ∈ reversePostOrder successors count := fun x => mem_reversePostOrder.2
  have pairwise := reversePostOrder_pairwise successors count
  refine ⟨reversePostOrder_perm successors count, fun u ltu v ltv leads none => ?_,
    fun u ltu v ltv leads link none => ?_, Descent.exists_steps_end successors count⟩
  · refine List.idxOf_lt_idxOf_of_pairwise pairwise (mem u ltu) (mem v ltv) ?_ ?_
    · rintro rfl
      exact none leads
    · exact fun before => none (before leads).1
  · refine List.idxOf_lt_idxOf_of_pairwise pairwise (mem u ltu) (mem v ltv) ?_ ?_
    · rintro rfl
      exact none .refl
    · exact fun before => none ((before leads).2 link)

end ObjectBackend
