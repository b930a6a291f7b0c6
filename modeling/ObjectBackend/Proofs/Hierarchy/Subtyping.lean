import ObjectBackend.Proofs.Hierarchy.Interfaces

/-!
# Subtyping and inheritance

A class inherits along its parent and along the interfaces it lists, and so do those classes in
turn, in any mix (`Program.Inherits`). Subtyping first follows parents and from there interface
lists, but not the parents of the interfaces that it meets. What it says is therefore always true
(`Program.inherits_of_isSubtype`), and it says everything just if the parents of a name's interfaces
are supertypes of the name, too (`Program.isSubtype_inherits_iff`). Where interfaces have no
parents, nothing is missed.
-/

namespace ObjectBackend.Program

variable {p : Program} {c d e : ClassDef} {n sub sup : String}

/-- A class extends its parent and the interfaces it lists. -/
def Extends (p : Program) (c d : ClassDef) : Prop := p.IsParent c d ∨ p.Lists c d

/-- A name inherits from another one if one or more links lead from its class to the other's. -/
def Inherits (p : Program) (sub sup : String) : Prop :=
  ∃ c d, p.lookup? sub = some c ∧ p.lookup? sup = some d ∧ Relation.TransGen p.Extends c d

/-- The parents of a name's interfaces are supertypes of the name. -/
def CoversParents (p : Program) (n : String) : Prop :=
  ∀ d ∈ p.allInterfaces n, ∀ e, p.IsParent d e → p.isSubtype n e.name = true

/-- A parent is a class of the program. -/
lemma mem_of_isParent (link : p.IsParent c d) : d ∈ p.classes := by
  obtain ⟨_, _, found⟩ := link
  exact (lookup?_eq_some_iff.1 found).1

/-- What a class extends is a class of the program. -/
lemma mem_of_extends (link : p.Extends c d) : d ∈ p.classes := by
  cases link with
  | inl link => exact mem_of_isParent link
  | inr lists =>
    obtain ⟨_, _, found⟩ := lists
    exact (lookup?_eq_some_iff.1 found).1

/-- A path that starts at a declared class leads to declared ones. -/
lemma mem_of_path (mem : c ∈ p.classes) (path : Relation.ReflTransGen p.Extends c d) :
    d ∈ p.classes := by
  cases path with
  | refl => exact mem
  | tail _ link => exact mem_of_extends link

/-- Subtyping follows parents, then interface lists. -/
lemma isSubtype_iff_exists :
    p.isSubtype sub sup = true ↔ sub = sup ∨ ∃ c d e, p.lookup? sub = some c ∧
      Relation.ReflTransGen p.IsParent c d ∧ Relation.ReflTransGen p.Lists d e ∧ e.name = sup := by
  rw [isSubtype_iff]
  constructor
  · rintro (same | ⟨d, up, name⟩ | ⟨e, mem, name⟩)
    · exact .inl same
    · obtain ⟨c, found, parents⟩ := mem_ancestors.1 up
      exact .inr ⟨c, d, d, found, parents, .refl, name⟩
    · obtain ⟨d, up, lists⟩ := mem_allInterfaces.1 mem
      obtain ⟨c, found, parents⟩ := mem_ancestors.1 up
      exact .inr ⟨c, d, e, found, parents, lists.to_reflTransGen, name⟩
  · rintro (same | ⟨c, d, e, found, parents, lists, name⟩)
    · exact .inl same
    · have up : d ∈ p.ancestors sub := mem_ancestors.2 ⟨c, found, parents⟩
      rcases Relation.reflTransGen_iff_eq_or_transGen.1 lists with rfl | lists
      · exact .inr (.inl ⟨e, up, name⟩)
      · exact .inr (.inr ⟨e, mem_allInterfaces.2 ⟨d, up, lists⟩, name⟩)

/-- A class to which links lead, of either kind and possibly none, is a supertype or a superclass
of the start. -/
lemma inherits_of_path (found : p.lookup? sub = some c)
    (path : Relation.ReflTransGen p.Extends c d) : sub = d.name ∨ p.Inherits sub d.name := by
  obtain ⟨mem, name⟩ := lookup?_eq_some_iff.1 found
  rcases Relation.reflTransGen_iff_eq_or_transGen.1 path with rfl | path
  · exact .inl name.symm
  · have mem' := mem_of_path mem path.to_reflTransGen
    exact .inr ⟨c, d, found, lookup?_of_mem mem', path⟩

/-- A supertype is the name itself or inherited from. -/
lemma inherits_of_isSubtype (subtype : p.isSubtype sub sup = true) :
    sub = sup ∨ p.Inherits sub sup := by
  rcases isSubtype_iff_exists.1 subtype with same | ⟨c, d, e, found, parents, lists, rfl⟩
  · exact .inl same
  · have parents' : Relation.ReflTransGen p.Extends c d :=
      Relation.ReflTransGen.mono (fun _ _ link => Or.inl link) _ _ parents
    have lists' : Relation.ReflTransGen p.Extends d e :=
      Relation.ReflTransGen.mono (fun _ _ link => Or.inr link) _ _ lists
    exact inherits_of_path found (parents'.trans lists')

/-- What a name inherits from is among its ancestors and interfaces, if these are closed under
parents. -/
lemma mem_of_inherits (covers : p.CoversParents n) (found : p.lookup? n = some c)
    (path : Relation.ReflTransGen p.Extends c d) : d ∈ p.ancestors n ∨ d ∈ p.allInterfaces n := by
  induction path with
  | refl => exact .inl (mem_ancestors.2 ⟨c, found, .refl⟩)
  | @tail d e _ link ih =>
    cases link with
    | inr lists =>
      refine .inr (mem_allInterfaces.2 ?_)
      cases ih with
      | inl up => exact ⟨d, up, .single lists⟩
      | inr mem =>
        obtain ⟨a, up, steps⟩ := mem_allInterfaces.1 mem
        exact ⟨a, up, steps.tail lists⟩
    | inl parent =>
      cases ih with
      | inl up =>
        obtain ⟨c', found', steps⟩ := mem_ancestors.1 up
        exact .inl (mem_ancestors.2 ⟨c', found', steps.tail parent⟩)
      | inr mem =>
        have mem' := mem_of_isParent parent
        rcases isSubtype_iff.1 (covers d mem e parent) with same | ⟨a, up, name⟩ | ⟨a, up, name⟩
        · obtain rfl : c = e :=
            Option.some.inj (found.symm.trans (same ▸ lookup?_of_mem mem'))
          exact .inl (mem_ancestors.2 ⟨c, found, .refl⟩)
        · exact .inl (eq_of_name_eq (mem_of_mem_ancestors up) mem' name ▸ up)
        · exact .inr (eq_of_name_eq (mem_of_mem_allInterfaces up) mem' name ▸ up)

/-- Inheritance is subtyping if the parents of interfaces are covered. -/
lemma isSubtype_of_inherits (covers : p.CoversParents sub) (inherits : p.Inherits sub sup) :
    p.isSubtype sub sup = true := by
  obtain ⟨c, d, found, found', path⟩ := inherits
  have name := (lookup?_eq_some_iff.1 found').2
  apply isSubtype_iff.2
  cases mem_of_inherits covers found path.to_reflTransGen with
  | inl up => exact .inr (.inl ⟨d, up, name⟩)
  | inr mem => exact .inr (.inr ⟨d, mem, name⟩)

/-- The parent of an interface is inherited from. -/
lemma inherits_of_mem_allInterfaces (mem : d ∈ p.allInterfaces n) (parent : p.IsParent d e) :
    n = e.name ∨ p.Inherits n e.name := by
  have subtype : p.isSubtype n d.name = true := isSubtype_iff.2 (.inr (.inr ⟨d, mem, rfl⟩))
  rcases inherits_of_isSubtype subtype with rfl | ⟨c, d', found, found', path⟩
  · have found := lookup?_of_mem (mem_of_mem_allInterfaces mem)
    exact inherits_of_path found (.single (.inl parent))
  · obtain rfl : d = d' :=
      Option.some.inj ((lookup?_of_mem (mem_of_mem_allInterfaces mem)).symm.trans found')
    exact inherits_of_path found (path.to_reflTransGen.tail (.inl parent))

/-- A class is a subtype of its parent. -/
lemma isSubtype_of_isParent (mem : c ∈ p.classes) (parent : p.IsParent c d) :
    p.isSubtype c.name d.name = true := by
  apply isSubtype_iff.2
  exact .inr (.inl ⟨d, mem_ancestors.2 ⟨c, lookup?_of_mem mem, .single parent⟩, rfl⟩)

/-- Inheritance is transitive. -/
lemma Inherits.trans {a b c : String} (first : p.Inherits a b) (second : p.Inherits b c) :
    p.Inherits a c := by
  obtain ⟨x, y, foundx, foundy, path⟩ := first
  obtain ⟨y', z, foundy', foundz, path'⟩ := second
  obtain rfl : y = y' := Option.some.inj (foundy.symm.trans foundy')
  exact ⟨x, z, foundx, foundz, path.trans path'⟩

/-- Subtyping follows parents, and from there interface lists. It is the same as inheritance, for a
name, just if the parents of the name's interfaces are supertypes of it; and it is transitive just
if that holds of every name. -/
theorem isSubtype_inherits_iff (p : Program) :
    (∀ sub sup, p.isSubtype sub sup = true ↔ sub = sup ∨ ∃ c d e, p.lookup? sub = some c ∧
      Relation.ReflTransGen p.IsParent c d ∧ Relation.ReflTransGen p.Lists d e ∧ e.name = sup) ∧
    (∀ sub, (∀ sup, p.isSubtype sub sup = true ↔ sub = sup ∨ p.Inherits sub sup) ↔
      p.CoversParents sub) ∧
    ((∀ a b c, p.isSubtype a b = true → p.isSubtype b c = true → p.isSubtype a c = true) ↔
      ∀ sub, p.CoversParents sub) := by
  have inherited (sub : String) (covers : p.CoversParents sub) (sup : String) :
      p.isSubtype sub sup = true ↔ sub = sup ∨ p.Inherits sub sup := by
    constructor
    · exact inherits_of_isSubtype
    · rintro (same | inherits)
      · exact isSubtype_iff.2 (.inl same)
      · exact isSubtype_of_inherits covers inherits
  refine ⟨fun _ _ => isSubtype_iff_exists, fun sub => ⟨?_, inherited sub⟩, ?_, ?_⟩
  · intro same d mem e parent
    exact (same e.name).2 (inherits_of_mem_allInterfaces mem parent)
  · intro trans sub d mem e parent
    have first : p.isSubtype sub d.name = true := isSubtype_iff.2 (.inr (.inr ⟨d, mem, rfl⟩))
    exact trans _ _ _ first (isSubtype_of_isParent (mem_of_mem_allInterfaces mem) parent)
  · intro covers a b c first second
    rw [inherited _ (covers _)] at first second ⊢
    rcases first with rfl | first
    · exact second
    · rcases second with rfl | second
      · exact .inr first
      · exact .inr (first.trans second)

/-- If what is listed as an interface has no parent, subtyping is inheritance. -/
theorem isSubtype_iff_inherits (roots : ∀ c d, p.Lists c d → d.parentName = none) :
    p.isSubtype sub sup = true ↔ sub = sup ∨ p.Inherits sub sup := by
  refine ((isSubtype_inherits_iff p).2.1 sub).2 ?_ sup
  intro d mem e ⟨parent, link, _⟩
  obtain ⟨c, _, steps⟩ := mem_allInterfaces.1 mem
  obtain ⟨b, _, lists⟩ := Relation.TransGen.tail'_iff.1 steps
  rw [roots b d lists] at link
  cases link

/-- A class implements an interface that has a parent. -/
def harbour : Program :=
  { classes :=
      [{ ClassDef.empty "Boat" with interfaces := ["Vessel"] },
        { ClassDef.empty "Vessel" with parent := some "Craft", isInterface := true },
        { ClassDef.empty "Craft" with isInterface := true }]
    entryPoint := none
    nodup := by decide }

/-- The class inherits from the parent of its interface, but is not taken for a subtype of it, so
that subtyping is not transitive. -/
theorem boat_misses_craft :
    harbour.Inherits "Boat" "Craft" ∧ harbour.isSubtype "Boat" "Craft" = false ∧
      harbour.isSubtype "Boat" "Vessel" = true ∧ harbour.isSubtype "Vessel" "Craft" = true := by
  refine ⟨?_, by cbv, by cbv, by cbv⟩
  have lists : harbour.Extends { ClassDef.empty "Boat" with interfaces := ["Vessel"] }
      { ClassDef.empty "Vessel" with parent := some "Craft", isInterface := true } :=
    .inr ⟨"Vessel", by decide, by decide⟩
  have parent : harbour.Extends
      { ClassDef.empty "Vessel" with parent := some "Craft", isInterface := true }
      { ClassDef.empty "Craft" with isInterface := true } :=
    .inl ⟨"Craft", by decide, by decide⟩
  exact ⟨_, _, by decide, by decide, .tail (.single lists) parent⟩

end ObjectBackend.Program
