import Mathlib.Data.List.Basic
import Mathlib.Logic.Relation
import ObjectBackend.Proofs.Hierarchy.Names
import ObjectBackend.Source.Hierarchy

/-!
# Parent chains

What `Program.ancestors` holds, for any parent links: just the classes that parent links lead to
from the named one (`Program.mem_ancestors`). The walk draws from a pool that loses every class it
meets, so each fact is first proved of `Pool.chain` over any pool, by induction on the walk.

A chain that ends at a root has met nothing twice, so it does not matter to it which classes were
drawn before (`Pool.chain_without_of_root`).
-/

namespace ObjectBackend

namespace Pool

variable {pool : List ClassDef} {c d : ClassDef} {m n : String}

/-- Without a name, nothing is found by it. -/
lemma find?_without_self : find? (without pool n) n = none := by
  simp [find?, without]

/-- Leaving out a name does not matter to others. -/
lemma find?_without_of_ne (ne : m ≠ n) : find? (without pool n) m = find? pool m := by
  induction pool with
  | nil => rfl
  | cons d ds ih =>
    by_cases eq : d.name = n
    · have other : d.name ≠ m := fun h => ne (h.symm.trans eq)
      rw [without_cons_of_eq ds eq, ih]
      simp [find?, other]
    · rw [without_cons_of_ne ds eq]
      by_cases hit : d.name = m
      · simp [find?, hit]
      · simpa [find?, hit] using ih

/-- What is found after leaving out a name is found before. -/
lemma find?_of_without (found : find? (without pool n) m = some c) : find? pool m = some c := by
  by_cases eq : m = n
  · subst eq
    rw [find?_without_self] at found
    cases found
  · rwa [find?_without_of_ne eq] at found

/-- Two names may be left out in either order. -/
lemma without_comm : without (without pool m) n = without (without pool n) m := by
  simp only [without, List.filter_filter, Bool.and_comm]

/-- A chain begins with the class it starts from. -/
lemma chain_of_find? (found : find? pool n = some c) :
    chain pool n = c :: c.parentName.elim [] (chain (without pool n)) := by
  rw [chain]
  split
  case h_1 none => rw [none] at found; cases found
  case h_2 d some =>
    obtain rfl : d = c := Option.some.inj (some.symm.trans found)
    cases d.parentName <;> rfl

/-- There is no chain from a name that is not found. -/
lemma chain_of_not_found (none : find? pool n = none) : chain pool n = [] := by
  rw [chain]
  split
  case h_1 => rfl
  case h_2 d some => rw [none] at some; cases some

/-- The parent of a class is the one its parent name finds. -/
def IsParent (pool : List ClassDef) (c d : ClassDef) : Prop :=
  ∃ parent, c.parentName = some parent ∧ find? pool parent = some d

/-- The classes on a chain are linked to its start. -/
lemma exists_of_mem_chain (mem : d ∈ chain pool n) :
    ∃ c, find? pool n = some c ∧ Relation.ReflTransGen (IsParent pool) c d := by
  fun_induction chain pool n with
  | case1 => cases mem
  | case2 pool n c found root =>
    obtain rfl := List.mem_singleton.1 mem
    exact ⟨d, found, .refl⟩
  | case3 pool n c found parent eq ih =>
    refine ⟨c, found, ?_⟩
    cases mem with
    | head => exact .refl
    | tail _ mem =>
      obtain ⟨e, found', steps⟩ := ih mem
      refine .head ⟨parent, eq, find?_of_without found'⟩ (Relation.ReflTransGen.mono ?_ _ _ steps)
      rintro a b ⟨name, link, found''⟩
      exact ⟨name, link, find?_of_without found''⟩

/-- A chain is closed under parent links. -/
lemma mem_chain_of_isParent {e : ClassDef} (mem : d ∈ chain pool n) (link : IsParent pool d e) :
    e ∈ chain pool n := by
  obtain ⟨m, parent, found⟩ := link
  fun_induction chain pool n generalizing d with
  | case1 => cases mem
  | case2 pool n c found' root =>
    obtain rfl := List.mem_singleton.1 mem
    rw [root] at parent
    cases parent
  | case3 pool n c found' q eq ih =>
    by_cases back : m = n
    · subst back
      obtain rfl : c = e := Option.some.inj (found'.symm.trans found)
      exact List.mem_cons_self ..
    · have found'' : find? (without pool n) m = some e := by rwa [find?_without_of_ne back]
      cases mem with
      | head =>
        obtain rfl : q = m := Option.some.inj (eq.symm.trans parent)
        rw [chain_of_find? found'']
        exact List.mem_cons_of_mem _ (List.mem_cons_self ..)
      | tail _ mem => exact List.mem_cons_of_mem _ (ih mem parent found'')

/-- Leaving out a name does not shorten a chain that still ends at a root. -/
lemma chain_without_of_root {r : ClassDef} (last : (chain (without pool n) m).getLast? = some r)
    (root : r.parentName = none) : chain (without pool n) m = chain pool m := by
  fun_induction chain pool m with
  | case1 pool m none =>
    refine chain_of_not_found ?_
    cases found : find? (without pool n) m with
    | none => rfl
    | some c => rw [find?_of_without found] at none; cases none
  | case2 pool m c found noParent =>
    cases found' : find? (without pool n) m with
    | none => rw [chain_of_not_found found'] at last; cases last
    | some d =>
      obtain rfl : d = c := Option.some.inj ((find?_of_without found').symm.trans found)
      rw [chain_of_find? found', noParent]
      rfl
  | case3 pool m c found q parent ih =>
    cases found' : find? (without pool n) m with
    | none => rw [chain_of_not_found found'] at last; cases last
    | some d =>
      obtain rfl : d = c := Option.some.inj ((find?_of_without found').symm.trans found)
      rw [chain_of_find? found', parent] at last ⊢
      change (d :: chain (without (without pool n) m) q).getLast? = some r at last
      change d :: chain (without (without pool n) m) q = _
      rw [without_comm] at last ⊢
      congr 1
      refine ih ?_
      -- the chain does not end here, since the class has a parent
      cases rest : chain (without (without pool m) n) q with
      | nil =>
        rw [rest] at last
        obtain rfl : d = r := by simpa using last
        rw [root] at parent
        cases parent
      | cons e es =>
        rw [rest, List.getLast?_cons_cons] at last
        exact last

end Pool

namespace Program

variable {p : Program} {c d : ClassDef} {n : String}

/-- The parent of a class is the declared class that its parent name looks up. -/
def IsParent (p : Program) (c d : ClassDef) : Prop :=
  ∃ parent, c.parentName = some parent ∧ p.lookup? parent = some d

/-- The ancestors of a name are the classes that parent links lead to from the class it looks up. -/
lemma mem_ancestors :
    d ∈ p.ancestors n ↔
      ∃ c, p.lookup? n = some c ∧ Relation.ReflTransGen p.IsParent c d := by
  constructor
  · exact Pool.exists_of_mem_chain
  · rintro ⟨c, found, steps⟩
    induction steps with
    | refl =>
      rw [ancestors, Pool.chain_of_find? found]
      exact List.mem_cons_self ..
    | tail _ link ih => exact Pool.mem_chain_of_isParent ih link

/-- Ancestors are declared. -/
lemma mem_of_mem_ancestors (mem : d ∈ p.ancestors n) : d ∈ p.classes := by
  obtain ⟨c, found, steps⟩ := mem_ancestors.1 mem
  cases steps with
  | refl => exact (lookup?_eq_some_iff.1 found).1
  | tail _ link =>
    obtain ⟨_, _, found⟩ := link
    exact (lookup?_eq_some_iff.1 found).1

/-- A class is among its ancestors. -/
lemma mem_ancestors_self (mem : c ∈ p.classes) : c ∈ p.ancestors c.name :=
  mem_ancestors.2 ⟨c, lookup?_of_mem mem, .refl⟩

/-- The ancestors of an ancestor are ancestors. -/
lemma ancestors_trans {e : ClassDef} (memd : d ∈ p.ancestors n) (meme : e ∈ p.ancestors d.name) :
    e ∈ p.ancestors n := by
  obtain ⟨c, found, steps⟩ := mem_ancestors.1 memd
  obtain ⟨d', found', steps'⟩ := mem_ancestors.1 meme
  obtain rfl : d' = d :=
    Option.some.inj (found'.symm.trans (lookup?_of_mem (mem_of_mem_ancestors memd)))
  exact mem_ancestors.2 ⟨c, found, steps.trans steps'⟩

end Program

end ObjectBackend
