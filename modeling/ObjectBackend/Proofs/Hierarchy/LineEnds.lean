import Mathlib.Data.Set.Finite.Basic
import ObjectBackend.Objects.TypeTag
import ObjectBackend.Proofs.Hierarchy.Grounded

/-!
# How lines of descent end

Following parents from a class, one class at a time, there are three things that can happen: a class
without a parent is met (`Program.Rooted`), a class is met again (`Program.Circles`), or there is no
class to go on with, since the parent is not declared or is an interface (`Program.Breaks`). One of
them happens, since there are finitely many classes (`Program.line_ends`). No class is met again on
a line that breaks, since a class has one parent (`Program.Breaks.not_circles`).

The check for tags finds the classes of the first kind (`Program.isGrounded_iff`).
-/

namespace ObjectBackend

namespace Pool

/-- A chain that has a root ends there. -/
lemma getLast?_chain_of_root {pool : List ClassDef} {n : String} {r : ClassDef}
    (mem : r ∈ chain pool n) (root : r.parentName = none) :
    (chain pool n).getLast? = some r := by
  fun_induction chain pool n with
  | case1 => cases mem
  | case2 pool n c =>
    obtain rfl := List.mem_singleton.1 mem
    rfl
  | case3 pool n c found q parent ih =>
    cases mem with
    | head =>
      rw [root] at parent
      cases parent
    | tail _ mem =>
      have last := ih mem
      cases rest : chain (without pool n) q with
      | nil =>
        rw [rest] at mem
        cases mem
      | cons e es => rwa [List.getLast?_cons_cons, ← rest]

end Pool

section Unique

variable {α : Type} {r : α → α → Prop} {a b d : α}

/-- Where links go on in one way only, a cycle is never left. -/
lemma cycles_of_path (unique : Relator.RightUnique r) (cycle : Relation.TransGen r a a)
    (path : Relation.ReflTransGen r a b) : Relation.TransGen r b b := by
  induction path with
  | refl => exact cycle
  | tail _ link ih =>
    obtain ⟨d, link', back⟩ := Relation.TransGen.head'_iff.1 ih
    obtain rfl := unique link link'
    exact .tail' back link

/-- Where links go on in one way only, a path that ends leads to no cycle. -/
lemma not_cycle_of_end (unique : Relator.RightUnique r) (path : Relation.ReflTransGen r a b)
    (stops : ∀ c, ¬r b c) (path' : Relation.ReflTransGen r a d) : ¬Relation.TransGen r d d := by
  intro cycle
  have here : Relation.TransGen r b b := by
    rcases path.total_of_right_unique unique path' with on | on
    · rcases on.cases_head with rfl | ⟨c, link, _⟩
      · exact cycle
      · exact absurd link (stops c)
    · exact cycles_of_path unique cycle on
  obtain ⟨c, link, _⟩ := Relation.TransGen.head'_iff.1 here
  exact stops c link

end Unique

namespace Program

variable {p : Program} {c d : ClassDef} {fault : HierarchyFault}

/-- The parent of a class is a class. -/
def IsSuperclass (p : Program) (c d : ClassDef) : Prop := p.IsParent c d ∧ d.isInterface = false

/-- Following parents, a class without one is met. -/
def Rooted (p : Program) (c : ClassDef) : Prop :=
  ∃ r, Relation.ReflTransGen p.IsSuperclass c r ∧ r.parentName = none

/-- Following parents, a class is met again. -/
def Circles (p : Program) (c : ClassDef) : Prop :=
  ∃ d, Relation.ReflTransGen p.IsSuperclass c d ∧ Relation.TransGen p.IsSuperclass d d

/-- Why a class that has a parent has no superclass. -/
inductive Lacks (p : Program) (c : ClassDef) : HierarchyFault → Prop where
  | declaration {parent : String} :
    c.parentName = some parent →
    p.lookup? parent = none →
    Lacks p c (.missingParent parent)
  | superclass {parent : String} {d : ClassDef} :
    c.parentName = some parent →
    p.lookup? parent = some d →
    d.isInterface = true →
    Lacks p c (.interfaceParent parent)

/-- Following parents, a class is met that has no superclass though it has a parent. -/
def Breaks (p : Program) (c : ClassDef) (fault : HierarchyFault) : Prop :=
  ∃ d, Relation.ReflTransGen p.IsSuperclass c d ∧ p.Lacks d fault

/-- A class has one parent. -/
lemma isParent_unique (p : Program) : Relator.RightUnique p.IsParent := by
  rintro c d e ⟨_, parent, found⟩ ⟨_, parent', found'⟩
  obtain rfl := Option.some.inj (parent.symm.trans parent')
  exact Option.some.inj (found.symm.trans found')

/-- A class has one superclass. -/
lemma isSuperclass_unique (p : Program) : Relator.RightUnique p.IsSuperclass :=
  fun _ _ _ first second => p.isParent_unique first.1 second.1

/-- A superclass is concrete. -/
lemma IsSuperclass.mem_concreteClasses (link : p.IsSuperclass c d) : d ∈ p.concreteClasses := by
  obtain ⟨⟨_, _, found⟩, isClass⟩ := link
  exact Program.mem_concreteClasses.2 ⟨(lookup?_eq_some_iff.1 found).1, isClass⟩

/-- A root has no parent. -/
lemma not_isParent_of_root (root : c.parentName = none) : ¬p.IsParent c d := by
  rintro ⟨_, parent, _⟩
  rw [root] at parent
  cases parent

/-- A class that lacks its parent has no superclass. -/
lemma Lacks.not_isSuperclass (lacks : p.Lacks c fault) : ¬p.IsSuperclass c d := by
  rintro ⟨⟨_, parent', found'⟩, isClass⟩
  cases lacks with
  | declaration parent none =>
    obtain rfl := Option.some.inj (parent.symm.trans parent')
    rw [none] at found'
    cases found'
  | superclass parent found isInterface =>
    obtain rfl := Option.some.inj (parent.symm.trans parent')
    obtain rfl := Option.some.inj (found.symm.trans found')
    rw [isClass] at isInterface
    cases isInterface

/-- A line that breaks goes in no circle. -/
lemma Breaks.not_circles (breaks : p.Breaks c fault) : ¬p.Circles c := by
  obtain ⟨e, path, lacks⟩ := breaks
  rintro ⟨d, path', cycle⟩
  exact not_cycle_of_end p.isSuperclass_unique path (fun _ => lacks.not_isSuperclass) path' cycle

/-- A class that has a parent has a superclass, or something is wrong with the parent. -/
lemma isSuperclass_or_lacks (parent : c.parentName ≠ none) :
    (∃ d, p.IsSuperclass c d) ∨ ∃ fault, p.Lacks c fault := by
  obtain ⟨q, link⟩ := Option.ne_none_iff_exists'.1 parent
  cases found : p.lookup? q with
  | none => exact .inr ⟨_, .declaration link found⟩
  | some d =>
    cases isInterface : d.isInterface with
    | false => exact .inl ⟨d, ⟨q, link, found⟩, isInterface⟩
    | true => exact .inr ⟨_, .superclass link found isInterface⟩

/-- Every line of descent ends or comes back to where it has been. -/
lemma line_ends (mem : c ∈ p.concreteClasses) :
    p.Rooted c ∨ p.Circles c ∨ ∃ fault, p.Breaks c fault := by
  by_cases circles : p.Circles c
  · exact .inr (.inl circles)
  -- without a cycle, what is above a class comes before it, and there are finitely many classes
  let Line := {d // d ∈ p.concreteClasses ∧ Relation.ReflTransGen p.IsSuperclass c d}
  let above (e d : Line) : Prop := Relation.TransGen p.IsSuperclass d.1 e.1
  have trans : IsTrans Line above := ⟨fun _ _ _ first second => second.trans first⟩
  have irrefl : Std.Irrefl above := ⟨fun d cycle => circles ⟨d, d.2.2, cycle⟩⟩
  have finite : Finite Line := (p.concreteClasses.finite_toSet.subset fun _ mem => mem.1)
  have founded : WellFounded above := Finite.wellFounded_of_trans_of_irrefl above
  have ends : ∀ d : Line, p.Rooted d.1 ∨ ∃ fault, p.Breaks d.1 fault := by
    intro d
    induction d using founded.induction with
    | h d ih =>
      by_cases root : d.1.parentName = none
      · exact .inl ⟨d, .refl, root⟩
      · rcases isSuperclass_or_lacks root with ⟨e, link⟩ | ⟨fault, lacks⟩
        · refine (ih ⟨e, link.mem_concreteClasses, d.2.2.tail link⟩ (.single link)).imp ?_ ?_
          · rintro ⟨r, path, root⟩
            exact ⟨r, .head link path, root⟩
          · rintro ⟨fault, f, path, lacks⟩
            exact ⟨fault, f, .head link path, lacks⟩
        · exact .inr ⟨fault, d, .refl, lacks⟩
  exact (ends ⟨c, mem, .refl⟩).imp_right .inr

/-- A grounded class is above or at the beginning of a line that ends at a root. -/
lemma Grounded.rooted (grounded : Grounded p c) : p.Rooted c := by
  induction grounded with
  | @root c _ noParent => exact ⟨c, .refl, noParent⟩
  | @child c d _ parent _ grounded ih =>
    obtain ⟨r, path, root⟩ := ih
    obtain ⟨memd, isClass⟩ := Program.mem_concreteClasses.1 grounded.mem_concreteClasses
    exact ⟨r, .head ⟨⟨_, parent, lookup?_of_mem memd⟩, isClass⟩ path, root⟩

/-- Whatever is above a class in a line that ends at a root is a class. -/
lemma Rooted.mem_concreteClasses (mem : c ∈ p.concreteClasses) (rooted : p.Rooted c)
    (path : Relation.ReflTransGen p.IsParent c d) : d ∈ p.concreteClasses := by
  obtain ⟨r, line, root⟩ := rooted
  induction line using Relation.ReflTransGen.head_induction_on with
  | refl =>
    rcases path.cases_head with rfl | ⟨e, link, _⟩
    · exact mem
    · exact absurd link (not_isParent_of_root root)
  | head link _ ih =>
    rcases path.cases_head with rfl | ⟨e, link', path⟩
    · exact mem
    · obtain rfl := p.isParent_unique link.1 link'
      exact ih link.mem_concreteClasses path

/-- The check for tags finds the classes whose lines of descent end at a root. -/
lemma isGrounded_iff (mem : c ∈ p.concreteClasses) : p.isGrounded c.name = true ↔ p.Rooted c := by
  have declared := concreteClasses_subset mem
  constructor
  · intro grounded
    exact (Grounded.of_isGrounded declared grounded).rooted
  · intro rooted
    have above : ∀ d ∈ p.ancestors c.name, Relation.ReflTransGen p.IsParent c d := by
      intro d up
      obtain ⟨c', found, path⟩ := mem_ancestors.1 up
      obtain rfl := Option.some.inj (found.symm.trans (lookup?_of_mem declared))
      exact path
    obtain ⟨r, line, root⟩ := id rooted
    have last : r ∈ p.ancestors c.name :=
      mem_ancestors.2 ⟨c, lookup?_of_mem declared,
        Relation.ReflTransGen.mono (fun _ _ link => link.1) _ _ line⟩
    rw [isGrounded, Bool.and_eq_true, List.all_eq_true, Option.any_eq_true]
    refine ⟨fun d up => ?_, r, Pool.getLast?_chain_of_root last root, ?_⟩
    · rw [(Program.mem_concreteClasses.1 (rooted.mem_concreteClasses mem (above d up))).2]
      rfl
    · rw [ClassDef.isRoot, root]
      rfl

end Program

end ObjectBackend
