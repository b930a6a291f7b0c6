import Mathlib.Data.List.Nodup
import ObjectBackend.Flow.PostOrder

/-!
# Depth-first orders

A walk loses no node and leaves none twice, and it enters every fresh node that it is told to. Hence
the reverse post-order has each node once (`reversePostOrder_perm`).
-/

namespace ObjectBackend

open scoped List

variable {successors : Nat → List Nat} {fresh nodes : List Nat} {x count : Nat}

namespace Walk

/-- The nodes that have been left and those still fresh are the nodes that were fresh. -/
lemma left_append_rest_perm (successors : Nat → List Nat) (fresh nodes : List Nat) :
    ((visit successors fresh nodes).left ++ (visit successors fresh nodes).rest).Perm fresh := by
  fun_induction visit successors fresh nodes with
  | case1 fresh => exact .refl _
  | case2 fresh node nodes mem shorter below fewer others ihBelow ihOthers =>
    calc below.left ++ node :: others.left ++ others.rest
      _ = below.left ++ node :: (others.left ++ others.rest) := by simp
      _ ~ below.left ++ node :: below.rest := (ihOthers.cons node).append_left _
      _ ~ node :: (below.left ++ below.rest) := List.perm_middle
      _ ~ node :: fresh.erase node := ihBelow.cons node
      _ ~ fresh := (List.perm_cons_erase mem).symm
  | case3 fresh node nodes stale others ih => exact ih

/-- A fresh node is left or stays fresh. -/
lemma mem_left_or_mem_rest (mem : x ∈ fresh) :
    x ∈ (visit successors fresh nodes).left ∨ x ∈ (visit successors fresh nodes).rest :=
  List.mem_append.1 ((left_append_rest_perm ..).mem_iff.2 mem)

/-- A fresh node that is to be entered is left. -/
lemma mem_left (fresh_mem : x ∈ fresh) (mem : x ∈ nodes) :
    x ∈ (visit successors fresh nodes).left := by
  fun_induction visit successors fresh nodes with
  | case1 => cases mem
  | case2 fresh node nodes mem' shorter below fewer others ihBelow ihOthers =>
    by_cases eq : x = node
    · exact List.mem_append_right _ (List.mem_cons.2 (.inl eq))
    · have mem := (List.mem_cons.1 mem).resolve_left eq
      rcases mem_left_or_mem_rest ((List.mem_erase_of_ne eq).2 fresh_mem) with left | rest
      · exact List.mem_append_left _ left
      · exact List.mem_append_right _ (List.mem_cons_of_mem _ (ihOthers rest mem))
  | case3 fresh node nodes stale others ih =>
    have ne : x ≠ node := fun eq => stale (eq ▸ fresh_mem)
    exact ih fresh_mem ((List.mem_cons.1 mem).resolve_left ne)

/-- What a walk leaves has been fresh. -/
lemma mem_of_mem_left (mem : x ∈ (visit successors fresh nodes).left) : x ∈ fresh :=
  (left_append_rest_perm ..).subset (List.mem_append_left _ mem)

/-- What stays fresh has been fresh. -/
lemma mem_of_mem_rest (mem : x ∈ (visit successors fresh nodes).rest) : x ∈ fresh :=
  (left_append_rest_perm ..).subset (List.mem_append_right _ mem)

/-- No node stays fresh twice. -/
lemma nodup_rest (nodup : fresh.Nodup) : (visit successors fresh nodes).rest.Nodup :=
  ((left_append_rest_perm ..).nodup_iff.2 nodup).of_append_right

/-- What a walk leaves is not fresh any more. -/
lemma notMem_rest (nodup : fresh.Nodup) (mem : x ∈ (visit successors fresh nodes).left) :
    x ∉ (visit successors fresh nodes).rest :=
  List.disjoint_of_nodup_append ((left_append_rest_perm ..).nodup_iff.2 nodup) mem

end Walk

/-- The reverse post-order has every node once. -/
lemma reversePostOrder_perm (successors : Nat → List Nat) (count : Nat) :
    (reversePostOrder successors count).Perm (List.range count) := by
  let reached := Walk.visit successors (List.range count) [0]
  let others := Walk.visit successors reached.rest (List.range count)
  have nodup : reached.rest.Nodup := Walk.nodup_rest List.nodup_range
  have none : others.rest = [] := List.eq_nil_iff_forall_not_mem.2 fun x mem =>
    have fresh := Walk.mem_of_mem_rest mem
    Walk.notMem_rest nodup (Walk.mem_left fresh (Walk.mem_of_mem_rest fresh)) mem
  have left : others.left.Perm reached.rest := by
    have perm := Walk.left_append_rest_perm successors reached.rest (List.range count)
    rwa [show (Walk.visit ..).rest = [] from none, List.append_nil] at perm
  calc reached.left.reverse ++ others.left
    _ ~ reached.left ++ reached.rest := (List.reverse_perm _).append left
    _ ~ List.range count := Walk.left_append_rest_perm ..

/-- The nodes of the reverse post-order are those below the count. -/
lemma mem_reversePostOrder : x ∈ reversePostOrder successors count ↔ x < count :=
  (reversePostOrder_perm ..).mem_iff.trans List.mem_range

end ObjectBackend
