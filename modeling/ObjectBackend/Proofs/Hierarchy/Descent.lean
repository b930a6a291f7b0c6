import ObjectBackend.Proofs.Hierarchy.LineEnds

/-!
# Lines of descent

The names on the parent chain of a class, the root first. Lines of descent tell classes apart
(`eq_of_descent_eq`). The line of a class with a grounded parent goes on from the parent's by one
name (`Grounded.descent_eq`), and a class is an ancestor of a grounded one just if its line begins
the other's (`isPrefix_descent_iff`). So what begins the line of a grounded class goes on to it
through a class of the next generation (`Grounded.exists_linked`).
-/

namespace ObjectBackend.Program

variable {p : Program} {c d : ClassDef}

/-- The names on the parent chain of a class, the root first. -/
def descent (p : Program) (name : String) : List String :=
  (p.ancestors name).reverse.map (·.name)

/-- The line of descent that a parent link stands for. No parent stands for the empty line. -/
def above (p : Program) : Option String → List String
  | none => []
  | some parent => p.descent parent

/-- The line of descent of a class ends with its name. -/
lemma getLast?_descent (mem : c ∈ p.classes) : (p.descent c.name).getLast? = some c.name := by
  rw [descent, List.map_reverse, List.getLast?_reverse, ancestors,
    Pool.chain_of_find? (lookup?_of_mem mem)]
  rfl

/-- Classes with one line of descent are the same class. -/
lemma eq_of_descent_eq (memc : c ∈ p.classes) (memd : d ∈ p.classes)
    (eq : p.descent c.name = p.descent d.name) : c = d := by
  have last := getLast?_descent memc
  rw [eq, getLast?_descent memd] at last
  exact eq_of_name_eq memc memd (Option.some.inj last).symm

/-- The line of descent of a class is not empty. -/
lemma descent_ne_nil (mem : c ∈ p.classes) : p.descent c.name ≠ [] := by
  intro empty
  have last := getLast?_descent mem
  rw [empty] at last
  cases last

/-- A class is an ancestor of a grounded one just if its line of descent begins the other's. -/
lemma isPrefix_descent_iff (memd : d ∈ p.classes) (grounded : Grounded p c) :
    p.descent d.name <+: p.descent c.name ↔ d ∈ p.ancestors c.name := by
  constructor
  · intro beginning
    have mem : d.name ∈ p.descent d.name := by
      rw [descent, List.mem_map]
      exact ⟨d, List.mem_reverse.2 (mem_ancestors_self memd), rfl⟩
    have mem' := beginning.subset mem
    rw [descent, List.mem_map] at mem'
    obtain ⟨e, up, eq⟩ := mem'
    rw [List.mem_reverse] at up
    obtain rfl := eq_of_name_eq (mem_of_mem_ancestors up) memd eq
    exact up
  · intro up
    rw [descent, descent]
    exact (List.reverse_prefix.2 (grounded.ancestors_suffix up)).map _

namespace Grounded

/-- A grounded class is declared. -/
lemma mem_classes (grounded : Grounded p c) : c ∈ p.classes :=
  concreteClasses_subset grounded.mem_concreteClasses

/-- The check of a chain finds a class just if it is grounded. -/
lemma isGrounded_iff (mem : c ∈ p.concreteClasses) :
    p.isGrounded c.name = true ↔ Grounded p c := by
  constructor
  · exact .of_isGrounded (concreteClasses_subset mem)
  · exact fun grounded => (Program.isGrounded_iff mem).2 grounded.rooted

/-- A class whose parent is grounded is grounded. -/
lemma of_parent (mem : c ∈ p.concreteClasses) (parent : c.parentName = some d.name)
    (grounded : Grounded p d) : Grounded p c := by
  obtain ⟨r, line, root⟩ := grounded.rooted
  have link : p.IsSuperclass c d :=
    ⟨⟨d.name, parent, lookup?_of_mem grounded.mem_classes⟩,
      (Program.mem_concreteClasses.1 grounded.mem_concreteClasses).2⟩
  exact (isGrounded_iff mem).1 ((Program.isGrounded_iff mem).2 ⟨r, .head link line, root⟩)

/-- The line of descent of a grounded class goes on by its name from the line that its parent link
stands for. -/
lemma descent_eq (grounded : Grounded p c) :
    p.descent c.name = p.above c.parentName ++ [c.name] := by
  cases grounded with
  | root mem noParent =>
    rw [descent, ancestors_of_root (concreteClasses_subset mem) noParent, noParent]
    rfl
  | child mem parent split grounded =>
    rw [descent, split, parent, List.reverse_cons, List.map_append]
    rfl

/-- What begins the line of descent of a grounded class, and is the line of a parent link, goes on
to it through a grounded class with this link. -/
lemma exists_linked (grounded : Grounded p c) (link : Option String)
    (declared : ∀ n ∈ link, ∃ d ∈ p.classes, d.name = n)
    (begins : p.above link <+: p.descent c.name) (ne : p.above link ≠ p.descent c.name) :
    ∃ d, Grounded p d ∧ d.parentName = link ∧ p.above link ++ [d.name] <+: p.descent c.name := by
  induction grounded with
  | @root c mem noParent =>
    have whole := (Grounded.root mem noParent).descent_eq
    rw [noParent] at whole
    rw [whole] at begins ne ⊢
    rcases List.prefix_concat_iff.1 begins with same | empty
    · exact absurd same ne
    · have noLink : link = none := by
        cases link with
        | none => rfl
        | some n =>
          obtain ⟨d, mem, rfl⟩ := declared n rfl
          exact absurd (List.prefix_nil.1 empty) (descent_ne_nil mem)
      subst noLink
      exact ⟨c, .root mem noParent, noParent, List.prefix_rfl⟩
  | @child c d mem parent split grounded ih =>
    have child := Grounded.child mem parent split grounded
    have whole := child.descent_eq
    rw [parent] at whole
    rw [whole] at begins ne ⊢
    rcases List.prefix_concat_iff.1 begins with same | begins
    · exact absurd same ne
    -- the prefix ends at the parent, or further up
    by_cases here : p.above link = p.descent d.name
    · have toParent : link = some d.name := by
        cases link with
        | none => exact absurd here.symm (descent_ne_nil grounded.mem_classes)
        | some n =>
          obtain ⟨e, mem, rfl⟩ := declared n rfl
          rw [eq_of_descent_eq mem grounded.mem_classes here]
      subst toParent
      exact ⟨c, child, parent, List.prefix_rfl⟩
    · obtain ⟨e, grounded, linked, begins⟩ := ih begins here
      exact ⟨e, grounded, linked, begins.trans (List.prefix_append ..)⟩

end Grounded

end ObjectBackend.Program
