import ObjectBackend.Objects.TagWalk
import ObjectBackend.Proofs.Hierarchy.ParentChain

/-!
# Grounded classes

A class is grounded if its parent chain leads through classes to a root. On such a chain nothing is
met twice, so the chain of a class is the class before the chain of its parent
(`ancestors_eq_cons`). `Grounded` says so as an inductive predicate, from the roots down, and facts
about grounded classes are proved by induction on it; in particular the chain of every ancestor is
the end of the chain (`Grounded.ancestors_suffix`).
-/

namespace ObjectBackend.Program

variable {p : Program} {c d : ClassDef}

/-- Whether a parent chain leads through classes to a root. -/
def isGrounded (p : Program) (name : String) : Bool :=
  (p.ancestors name).all (!·.isInterface) && (p.ancestors name).getLast?.any (·.isRoot)

/-- The concrete classes are the classes that are no interfaces. -/
lemma mem_concreteClasses :
    c ∈ p.concreteClasses ↔ c ∈ p.classes ∧ c.isInterface = false := by
  simp [concreteClasses]

/-- The concrete classes are classes of the program. -/
lemma concreteClasses_subset : p.concreteClasses ⊆ p.classes := List.filter_sublist.subset

/-- A class that is no interface has another name than any interface. -/
lemma name_ne_of_isInterface (memc : c ∈ p.concreteClasses) (memd : d ∈ p.classes)
    (isInterface : d.isInterface = true) : c.name ≠ d.name := by
  intro eq
  obtain ⟨declared, isClass⟩ := mem_concreteClasses.1 memc
  obtain rfl := eq_of_name_eq declared memd eq
  rw [isInterface] at isClass
  cases isClass

/-- A root is its only ancestor. -/
lemma ancestors_of_root (mem : c ∈ p.classes) (root : c.parentName = none) :
    p.ancestors c.name = [c] := by
  rw [ancestors, Pool.chain_of_find? (lookup?_of_mem mem), root]
  rfl

/-- No ancestor of a grounded class is an interface. -/
lemma mem_concreteClasses_of_isGrounded (grounded : p.isGrounded c.name = true)
    (mem : d ∈ p.ancestors c.name) : d ∈ p.concreteClasses := by
  simp only [isGrounded, Bool.and_eq_true, List.all_eq_true, Bool.not_eq_true'] at grounded
  exact mem_concreteClasses.2 ⟨mem_of_mem_ancestors mem, grounded.1 d mem⟩

/-- The chain of a grounded class is the class before the chain of its parent, which is grounded. -/
lemma ancestors_eq_cons {q : String} (mem : c ∈ p.classes)
    (grounded : p.isGrounded c.name = true) (parent : c.parentName = some q) :
    ∃ d, p.lookup? q = some d ∧ p.ancestors c.name = c :: p.ancestors q ∧
      p.isGrounded q = true := by
  have split : p.ancestors c.name = c :: Pool.chain (Pool.without p.classes c.name) q := by
    rw [ancestors, Pool.chain_of_find? (lookup?_of_mem mem), parent]
    rfl
  rw [isGrounded, split, Bool.and_eq_true, List.all_cons, Bool.and_eq_true,
    Option.any_eq_true] at grounded
  obtain ⟨⟨_, classes⟩, r, last, root⟩ := grounded
  cases rest : Pool.chain (Pool.without p.classes c.name) q with
  | nil =>
    rw [rest] at last
    obtain rfl : c = r := by simpa using last
    rw [ClassDef.isRoot, parent] at root
    cases root
  | cons e es =>
    rw [rest, List.getLast?_cons_cons, ← rest] at last
    have whole : Pool.chain (Pool.without p.classes c.name) q = p.ancestors q :=
      Pool.chain_without_of_root last (by simpa [ClassDef.isRoot] using root)
    cases found : p.lookup? q with
    | none =>
      rw [rest, ancestors, Pool.chain_of_not_found found] at whole
      cases whole
    | some d =>
      rw [whole] at split classes last
      refine ⟨d, rfl, split, ?_⟩
      rw [isGrounded, classes, last]
      exact root

/-- A class above which there are only classes, up to a root, none of them met twice. -/
inductive Grounded (p : Program) : ClassDef → Prop where
  | root {c : ClassDef} :
    c ∈ p.concreteClasses →
    c.parentName = none →
    Grounded p c
  | child {c d : ClassDef} :
    c ∈ p.concreteClasses →
    c.parentName = some d.name →
    p.ancestors c.name = c :: p.ancestors d.name →
    Grounded p d →
    Grounded p c

/-- A grounded class is concrete. -/
lemma Grounded.mem_concreteClasses (grounded : Grounded p c) : c ∈ p.concreteClasses := by
  cases grounded with
  | root mem => exact mem
  | child mem => exact mem

/-- The check of a chain finds the grounded classes. -/
lemma Grounded.of_isGrounded (mem : c ∈ p.classes) (grounded : p.isGrounded c.name = true) :
    Grounded p c := by
  generalize length : (p.ancestors c.name).length = n
  induction n using Nat.strongRecOn generalizing c with
  | ind n ih =>
    have concrete := mem_concreteClasses_of_isGrounded grounded (mem_ancestors_self mem)
    cases parent : c.parentName with
    | none => exact .root concrete parent
    | some q =>
      obtain ⟨d, found, split, grounded'⟩ := ancestors_eq_cons mem grounded parent
      obtain ⟨memd, rfl⟩ := lookup?_eq_some_iff.1 found
      have shorter : (p.ancestors d.name).length < n := by
        rw [← length, split]
        exact Nat.lt_succ_self _
      exact .child concrete parent split (ih _ shorter memd grounded' rfl)

/-- The ancestors of a grounded class are grounded. -/
lemma Grounded.of_mem_ancestors (grounded : Grounded p c) (up : d ∈ p.ancestors c.name) :
    Grounded p d := by
  induction grounded with
  | @root c mem noParent =>
    rw [ancestors_of_root (concreteClasses_subset mem) noParent] at up
    obtain rfl := List.mem_singleton.1 up
    exact .root mem noParent
  | child mem parent split grounded ih =>
    rw [split] at up
    cases up with
    | head => exact .child mem parent split grounded
    | tail _ up => exact ih up

/-- The chain of an ancestor of a grounded class is the end of its chain. -/
lemma Grounded.ancestors_suffix (grounded : Grounded p c) (up : d ∈ p.ancestors c.name) :
    p.ancestors d.name <:+ p.ancestors c.name := by
  induction grounded with
  | @root c mem noParent =>
    rw [ancestors_of_root (concreteClasses_subset mem) noParent] at up
    obtain rfl := List.mem_singleton.1 up
    exact List.suffix_rfl
  | child _ _ split _ ih =>
    rw [split] at up
    cases up with
    | head => exact List.suffix_rfl
    | tail _ up =>
      rw [split]
      exact (ih up).trans (List.suffix_cons _ _)

/-- A class is not above its parent. -/
lemma Grounded.not_mem_ancestors (grounded : Grounded p d)
    (up : p.ancestors c.name = c :: p.ancestors d.name) : c ∉ p.ancestors d.name := by
  intro mem
  have le := (grounded.ancestors_suffix mem).length_le
  rw [up, List.length_cons] at le
  exact Nat.not_succ_le_self _ le

end ObjectBackend.Program
