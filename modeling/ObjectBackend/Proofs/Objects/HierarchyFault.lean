import ObjectBackend.Proofs.Evaluation
import ObjectBackend.Proofs.Hierarchy.Interfaces
import ObjectBackend.Proofs.Objects.Forest

/-!
# Why a class has no tag

When a program has no tags, a class is named with the reason. That its parent is missing or an
interface is told of this class only. If it has a superclass, a cycle is told, although its line of
descent may break further up. So the reason is right just if the class has a superclass and its
parents come back to one of them, or neither (`TagMap.tells_cause_iff`).
-/

namespace ObjectBackend

namespace Program

variable {p : Program} {b c d e : ClassDef} {fault : HierarchyFault}

/-- Following parents, be they classes or interfaces, one of them is met again. -/
def Revisits (p : Program) (c : ClassDef) : Prop :=
  ∃ d, Relation.ReflTransGen p.IsParent c d ∧ Relation.TransGen p.IsParent d d

/-- The reason for which a class has no tag is the right one: a cycle is told just if a parent is
met again, and otherwise it is told at what the line of descent breaks. -/
structure TellsCause (p : Program) (c : ClassDef) (fault : HierarchyFault) : Prop where
  cycle_iff : (∃ line, fault = .cycle line) ↔ p.Revisits c
  breaks : ¬p.Revisits c → p.Breaks c fault

/-- A class that ends up in a circle is met again. -/
lemma Circles.revisits (circles : p.Circles c) : p.Revisits c := by
  obtain ⟨d, path, cycle⟩ := circles
  refine ⟨d, Relation.ReflTransGen.mono ?_ _ _ path, Relation.TransGen.mono ?_ _ _ cycle⟩
  · exact fun _ _ link => link.1
  · exact fun _ _ link => link.1

/-- Nothing is met again on a way that ends. -/
lemma not_revisits_of_end (path : Relation.ReflTransGen p.IsParent c d)
    (stops : ∀ e, ¬p.IsParent d e) : ¬p.Revisits c := by
  rintro ⟨e, path', cycle⟩
  exact not_cycle_of_end p.isParent_unique path stops path' cycle

/-- If no interface has a parent, then a parent that has one is a class. -/
lemma InterfacesAreRoots.isSuperclass (roots : p.InterfacesAreRoots) (link : p.IsParent c d)
    (link' : p.IsParent d e) : p.IsSuperclass c d := by
  refine ⟨link, ?_⟩
  obtain ⟨_, _, found⟩ := link
  cases isInterface : d.isInterface with
  | false => rfl
  | true =>
    have root := roots d (lookup?_eq_some_iff.1 found).1 isInterface
    exact absurd link' (not_isParent_of_root root)

/-- If no interface has a parent, a way along parents that goes on leads through classes. -/
lemma InterfacesAreRoots.isSuperclass_path (roots : p.InterfacesAreRoots)
    (path : Relation.ReflTransGen p.IsParent c d) (link : p.IsParent d e) :
    Relation.ReflTransGen p.IsSuperclass c d := by
  induction path generalizing e with
  | refl => exact .refl
  | tail _ link' ih => exact (ih link').tail (roots.isSuperclass link' link)

/-- If no interface has a parent, only classes can be met again. -/
lemma InterfacesAreRoots.revisits_iff (roots : p.InterfacesAreRoots) :
    p.Revisits c ↔ p.Circles c := by
  refine ⟨?_, Circles.revisits⟩
  rintro ⟨d, path, cycle⟩
  obtain ⟨e, link, _⟩ := Relation.TransGen.head'_iff.1 cycle
  obtain ⟨b, around, back⟩ := Relation.TransGen.tail'_iff.1 cycle
  refine ⟨d, roots.isSuperclass_path path link, ?_⟩
  exact .tail' (roots.isSuperclass_path around back) (roots.isSuperclass back link)

/-- A class without a superclass is told why it has none. -/
lemma Lacks.hierarchyFault_eq (lacks : p.Lacks c fault) : p.hierarchyFault c = fault := by
  cases lacks with
  | declaration parent none => simp only [hierarchyFault, parent, none]
  | superclass parent found isInterface =>
    simp only [hierarchyFault, parent, found, isInterface, if_true]

/-- A class with a superclass is told that it is on a cycle. -/
lemma IsSuperclass.hierarchyFault_eq (link : p.IsSuperclass c d) :
    p.hierarchyFault c = .cycle ((p.ancestors c.name).map (·.name)) := by
  obtain ⟨⟨_, parent, found⟩, isClass⟩ := link
  simp only [hierarchyFault, parent, found, isClass, Bool.false_eq_true, if_false]

/-- A class without a superclass is no fault of a circle. -/
lemma Lacks.not_cycle {line : List String} (lacks : p.Lacks c fault) : fault ≠ .cycle line := by
  rintro rfl
  cases lacks

/-- What is told of a class that has no tag: a cycle if it has a superclass, and otherwise what is
wrong with its parent. -/
lemma hierarchyFault_cases (broken : ¬p.Rooted c) :
    (∃ d, p.IsSuperclass c d) ∧
        p.hierarchyFault c = .cycle ((p.ancestors c.name).map (·.name)) ∨
      (∀ d, ¬p.IsSuperclass c d) ∧ p.Lacks c (p.hierarchyFault c) := by
  have parent : c.parentName ≠ none := fun root => broken ⟨c, .refl, root⟩
  rcases isSuperclass_or_lacks parent with ⟨d, link⟩ | ⟨fault, lacks⟩
  · exact .inl ⟨⟨d, link⟩, link.hierarchyFault_eq⟩
  · refine .inr ⟨fun d => lacks.not_isSuperclass, ?_⟩
    rw [lacks.hierarchyFault_eq]
    exact lacks

/-- A line of descent without a root comes back to a class just if it does not break. -/
lemma circles_iff (mem : c ∈ p.concreteClasses) (broken : ¬p.Rooted c) :
    p.Circles c ↔ ∀ cause, ¬p.Breaks c cause := by
  constructor
  · exact fun circles cause breaks => breaks.not_circles circles
  · intro none
    rcases p.line_ends mem with rooted | circles | ⟨cause, breaks⟩
    · exact absurd rooted broken
    · exact circles
    · exact absurd breaks (none cause)

/-- A cycle is the right reason just if there is one. -/
lemma tellsCause_cycle_iff {line : List String} :
    p.TellsCause c (.cycle line) ↔ p.Revisits c := by
  have cycle : ∃ line', HierarchyFault.cycle line = .cycle line' := ⟨line, rfl⟩
  constructor
  · exact fun tells => tells.cycle_iff.1 cycle
  · exact fun revisits => ⟨iff_of_true cycle revisits, fun none => absurd revisits none⟩

/-- What is wrong with the parent is the right reason just if there is no cycle. -/
lemma Lacks.tellsCause_iff (lacks : p.Lacks c fault) : p.TellsCause c fault ↔ ¬p.Revisits c := by
  have other : ¬∃ line, fault = .cycle line := fun ⟨_, told⟩ => lacks.not_cycle told
  constructor
  · exact fun tells revisits => other (tells.cycle_iff.2 revisits)
  · exact fun none => ⟨iff_of_false other none, fun _ => ⟨c, .refl, lacks⟩⟩

end Program

namespace TagMap

variable {p : Program} {n : String} {fault : HierarchyFault}

/-- What is told of the class without a tag that is named. It is told to be on a cycle just if it
has a superclass; then its line of descent comes back to a class or breaks further up. Otherwise it
is told at what its line breaks. So the reason is the right one just if the class has a superclass
and its parents come back to one of them, or neither; if no interface has a parent, just if its line
of descent comes back to a class or breaks at its own parent. -/
theorem tells_cause_iff (failed : ofProgram p = .error (n, fault)) :
    ∃ c ∈ p.concreteClasses, c.name = n ∧
      ((∃ line, fault = .cycle line) ↔ ∃ d, p.IsSuperclass c d) ∧
      ((∃ line, fault = .cycle line) → (p.Circles c ↔ ∀ cause, ¬p.Breaks c cause)) ∧
      ((∀ line, fault ≠ .cycle line) → p.Breaks c fault) ∧
      (p.TellsCause c fault ↔ (p.Revisits c ↔ ∃ d, p.IsSuperclass c d)) ∧
      (p.InterfacesAreRoots → (p.TellsCause c fault ↔ p.Circles c ∨ p.Lacks c fault)) := by
  obtain ⟨_, c, _, _, mem, named, rfl, broken, _⟩ := exists_of_ofProgram failed
  refine ⟨c, mem, named, ?_⟩
  rcases Program.hierarchyFault_cases broken with ⟨has, told⟩ | ⟨lacksAll, lacks⟩
  · rw [told, Program.tellsCause_cycle_iff]
    have notLacking : ¬p.Lacks c (.cycle ((p.ancestors c.name).map (·.name))) :=
      fun lacks => lacks.not_cycle rfl
    refine ⟨iff_of_true ⟨_, rfl⟩ has, fun _ => Program.circles_iff mem broken, ?_, ?_, ?_⟩
    · exact fun none => absurd rfl (none _)
    · rw [iff_true_right has]
    · exact fun roots => roots.revisits_iff.trans (or_iff_left notLacking).symm
  · have other : ¬∃ line, p.hierarchyFault c = .cycle line := fun ⟨_, told⟩ => lacks.not_cycle told
    have breaks : p.Breaks c (p.hierarchyFault c) := ⟨c, .refl, lacks⟩
    have noSuperclass : ¬∃ d, p.IsSuperclass c d := fun ⟨d, link⟩ => lacksAll d link
    rw [lacks.tellsCause_iff]
    refine ⟨iff_of_false other noSuperclass, fun told => absurd told other, fun _ => breaks, ?_, ?_⟩
    · rw [iff_false_right noSuperclass]
    · intro roots
      rw [roots.revisits_iff]
      exact iff_of_true breaks.not_circles (.inr lacks)

/-- A class with its parent. -/
def child (name parent : String) : ClassDef := { ClassDef.empty name with parent := some parent }

/-- Two classes, each the parent of the other. -/
def circle : Program :=
  { classes := [child "Hen" "Egg", child "Egg" "Hen"], entryPoint := none, nodup := by decide }

/-- The first one is told to be on a cycle, and it is. -/
theorem hen_told_of_cycle :
    ofProgram circle = .error ("Hen", .cycle ["Hen", "Egg"]) ∧
      circle.TellsCause (child "Hen" "Egg") (.cycle ["Hen", "Egg"]) := by
  have failed : ofProgram circle = .error ("Hen", .cycle ["Hen", "Egg"]) := by cbv
  obtain ⟨c, mem, named, _, _, _, _, right⟩ := tells_cause_iff failed
  have hen : child "Hen" "Egg" ∈ circle.classes := by decide
  obtain rfl := Program.eq_of_name_eq (Program.concreteClasses_subset mem) hen named
  have down : circle.IsSuperclass (child "Hen" "Egg") (child "Egg" "Hen") :=
    ⟨⟨"Egg", by decide, by decide⟩, rfl⟩
  have up : circle.IsSuperclass (child "Egg" "Hen") (child "Hen" "Egg") :=
    ⟨⟨"Hen", by decide, by decide⟩, rfl⟩
  refine ⟨failed, (right (by decide)).2 (.inl ⟨_, .refl, ?_⟩)⟩
  exact .tail (.single down) up

/-- A class whose parent has a parent that is not declared. -/
def fallen : Program :=
  { classes := [child "Leaf" "Twig", child "Twig" "Branch"], entryPoint := none
    nodup := by decide }

/-- The class is told to be on a cycle, though there is none: a declaration is missing. -/
theorem leaf_told_of_cycle :
    ofProgram fallen = .error ("Leaf", .cycle ["Leaf", "Twig"]) ∧
      fallen.Breaks (child "Leaf" "Twig") (.missingParent "Branch") ∧
      ¬fallen.Revisits (child "Leaf" "Twig") ∧
      ¬fallen.TellsCause (child "Leaf" "Twig") (.cycle ["Leaf", "Twig"]) := by
  have link : fallen.IsSuperclass (child "Leaf" "Twig") (child "Twig" "Branch") :=
    ⟨⟨"Twig", by decide, by decide⟩, rfl⟩
  have ends : ¬fallen.Revisits (child "Leaf" "Twig") := by
    refine Program.not_revisits_of_end (.single link.1) fun d up => ?_
    obtain ⟨_, parent, found⟩ := up
    obtain rfl : "Branch" = _ := Option.some.inj parent
    cases found
  refine ⟨by cbv, ⟨_, .single link, .declaration (by decide) (by decide)⟩, ends, ?_⟩
  exact fun tells => ends (tells.cycle_iff.1 ⟨_, rfl⟩)

end TagMap

end ObjectBackend
