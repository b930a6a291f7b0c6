/-!
# Depth-first orders

Orders in which the nodes of a graph are left by a depth-first walk. The graph is given by the
successors of each node; only the nodes of a list of fresh ones are entered, each at most once, so
the walk ends. `reversePostOrder` puts a node before those it leads to, unless they lead back.
-/

namespace ObjectBackend

/-- Where a walk has been: the nodes it left, in this order, and those still fresh. -/
structure Walk (fresh : List Nat) where
  rest : List Nat
  left : List Nat
  rest_le : rest.length ≤ fresh.length

namespace Walk

/-- Enter the nodes of a list one after the other, as far as they are fresh; a node is left after
all its successors have been entered. -/
def visit (successors : Nat → List Nat) (fresh : List Nat) : List Nat → Walk fresh
  | [] => { rest := fresh, left := [], rest_le := Nat.le_refl _ }
  | node :: nodes =>
    if mem : node ∈ fresh then
      have shorter : (fresh.erase node).length < fresh.length := by
        have := List.length_pos_of_mem mem
        rw [List.length_erase_of_mem mem]
        omega
      let below := visit successors (fresh.erase node) (successors node)
      have fewer : below.rest.length < fresh.length := Nat.lt_of_le_of_lt below.rest_le shorter
      let others := visit successors below.rest nodes
      { rest := others.rest
        left := below.left ++ node :: others.left
        rest_le := Nat.le_trans others.rest_le (Nat.le_of_lt fewer) }
    else
      let others := visit successors fresh nodes
      { rest := others.rest, left := others.left, rest_le := others.rest_le }
termination_by nodes => (fresh.length, nodes.length)
decreasing_by
  · exact Prod.Lex.left _ _ shorter
  · exact Prod.Lex.left _ _ fewer
  · exact Prod.Lex.right _ (Nat.lt_succ_self _)

end Walk

/-- The first `count` nodes of a graph: those that node 0 leads to in reverse post-order, then the
others as walks from them leave them. -/
def reversePostOrder (successors : Nat → List Nat) (count : Nat) : List Nat :=
  let reached := Walk.visit successors (List.range count) [0]
  let others := Walk.visit successors reached.rest (List.range count)
  reached.left.reverse ++ others.left

end ObjectBackend
