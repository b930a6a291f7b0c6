import ObjectBackend.Proofs.Objects.InterfaceSlots

/-!
# Owners of slots

Which declarations own slots, of classes and of interfaces alike. Entering a virtual method gives a
slot to the method itself if it is found to override nothing, and otherwise to the declarations in
interfaces that it is found to override (`hasSlot_iff`). Only virtual methods get slots, and
where a virtual method has none, one that it overrides has. So a slot is found for a name just if a
class or an interface among its supertypes declares the method as virtual (`exists_slot_iff`).
-/

namespace ObjectBackend

/-- The class declares a virtual method with a signature. -/
def ClassDef.HasVirtual (c : ClassDef) (s : Signature) : Prop :=
  ∃ md ∈ c.methods, md.isVirtual = true ∧ md.signature = s

/-- Whether a class declares a virtual method is decided by its methods. -/
instance {c : ClassDef} {s : Signature} : Decidable (c.HasVirtual s) :=
  inferInstanceAs (Decidable (∃ md ∈ c.methods, _ ∧ _))

namespace Program

variable {p : Program} {pool : List ClassDef} {names : List String} {n : String}
  {c d e : ClassDef} {s : Signature} {m : MethodRef}

/-- The ancestors and the interfaces of a name. -/
def supertypes (p : Program) (n : String) : List ClassDef := p.ancestors n ++ p.allInterfaces n

/-- The search for topmost declarations finds declarations that the names lead to. -/
lemma exists_of_mem_topmost (within : pool ⊆ p.classes)
    (mem : n ∈ (Pool.topmost s pool names).classes) :
    ∃ e ∈ pool, e.name = n ∧ p.LeadTo names e ∧ e.declares s = true := by
  induction pool, names using Pool.walk.induct generalizing n with
  | case1 pool =>
    rw [Pool.topmost] at mem
    cases mem
  | case2 pool name names none ih =>
    rw [(Pool.topmost_of_not_found names none).1] at mem
    obtain ⟨e, meme, named, leads, declares⟩ := ih within mem
    exact ⟨e, meme, named, leadTo_cons.2 (.inr leads), declares⟩
  | case3 pool name names c found _ above _ ih ih' =>
    have fewer := List.Subset.trans (Pool.without_subset pool name) within
    have here : p.lookup? name = some c := lookup?_of_find? within found
    rw [(Pool.topmost_of_find? names found).1, List.mem_append, Pool.mem_orElse_iff] at mem
    rcases mem with (mem | ⟨_, declares, rfl⟩) | mem
    · obtain ⟨e, meme, named, leads, declares⟩ := ih fewer mem
      have below := leadTo_supertypeNames.1 leads
      exact ⟨e, Pool.without_subset _ _ meme, named,
        leadTo_cons.2 (.inl ⟨c, here, below.to_reflTransGen⟩), declares⟩
    · exact ⟨c, (Pool.find?_eq_some found).1, rfl, leadTo_cons.2 (.inl ⟨c, here, .refl⟩), declares⟩
    · rw [Pool.rest_topmost] at mem
      have left := Pool.rest_subset (Pool.without pool name) c.supertypeNames
      obtain ⟨e, meme, named, leads, declares⟩ := ih' (List.Subset.trans left fewer) mem
      exact ⟨e, Pool.without_subset _ _ (left meme), named, leadTo_cons.2 (.inr leads), declares⟩

/-- What a method is found to override is declared above its class, by another one. -/
lemma exists_of_mem_topmostDeclarations (mem : m ∈ p.topmostDeclarations c s) :
    ∃ e, p.Below c e ∧ e.name ≠ c.name ∧ e.declares s = true ∧ m = ⟨e.name, s⟩ := by
  obtain ⟨n, found, rfl⟩ := List.mem_map.1 mem
  obtain ⟨e, mem', rfl, leads, declares⟩ := exists_of_mem_topmost (Pool.without_subset _ _) found
  exact ⟨e, leadTo_supertypeNames.1 leads, (Pool.mem_without.1 mem').2, declares, rfl⟩

/-- By the conventions, what is above a class is among its ancestors and interfaces. -/
lemma Below.mem_supertypes (lists : p.ListsInterfaces) (roots : p.InterfacesAreRoots)
    (memc : c ∈ p.classes) (below : p.Below c e) : e ∈ p.supertypes c.name := by
  have covers : p.CoversParents c.name := by
    rintro d mem _ ⟨parent, link, _⟩
    rw [roots d (mem_of_mem_allInterfaces mem) (lists.isInterface mem)] at link
    cases link
  exact List.mem_append.2 (mem_of_inherits covers (lookup?_of_mem memc) below.to_reflTransGen)

/-- The supertypes are classes of the program. -/
lemma mem_of_mem_supertypes (mem : c ∈ p.supertypes n) : c ∈ p.classes := by
  rcases List.mem_append.1 mem with up | mem
  · exact mem_of_mem_ancestors up
  · exact mem_of_mem_allInterfaces mem

/-- If interfaces are listed and are roots, the supertypes of a supertype are supertypes. -/
lemma supertypes_trans (lists : p.ListsInterfaces) (roots : p.InterfacesAreRoots)
    (memd : d ∈ p.supertypes n) (meme : e ∈ p.supertypes d.name) : e ∈ p.supertypes n := by
  refine mem_supertypes_of_isSubtype lists roots (isSubtype_iff.2 (.inr ?_)) meme
  exact (List.mem_append.1 memd).imp (⟨d, ·, rfl⟩) (⟨d, ·, rfl⟩)

end Program

namespace DispatchTables

variable {p : Program} {t t' : DispatchTables} {c k : ClassDef} {m m' : MethodRef} {md : MethodDef}
  {s : Signature} {slot : Slot}

/-- A method gives a slot to a declaration: to itself if it is found to override nothing, otherwise
to those declarations in interfaces that it is found to override. -/
def GivesSlot (p : Program) (c : ClassDef) (md : MethodDef) (m : MethodRef) : Prop :=
  m ∈ p.topmostDeclarations c md.signature ∧ InInterface p m ∨
    p.topmostDeclarations c md.signature = [] ∧ m = c.reference md

/-- The declaration owns a slot. -/
def HasSlot (m : MethodRef) (t : DispatchTables) : Prop := (t.slot? m).isSome = true

/-- One of the virtual methods of a class gives the declaration a slot. -/
def NeededBy (p : Program) (m : MethodRef) (c : ClassDef) : Prop :=
  ∃ md ∈ c.methods.filter (·.isVirtual), GivesSlot p c md m

/-- One more interface slot is given to one more method. -/
lemma hasSlot_append : HasSlot m' { t with slots := t.slots ++ [(m, slot)] } ↔
    HasSlot m' t ∨ m' = m := by
  rw [HasSlot, slot?, List.lookup_append, Option.isSome_or, Bool.or_eq_true, List.lookup_cons]
  refine or_congr Iff.rfl ?_
  split <;> simp_all

/-- Giving a method an interface slot gives slots to no other method. -/
lemma hasSlot_addInterfaceSlot : HasSlot m' (t.addInterfaceSlot m) ↔ HasSlot m' t ∨ m' = m := by
  rw [addInterfaceSlot]
  split
  case isTrue owned =>
    refine (or_iff_left_of_imp ?_).symm
    rintro rfl
    exact owned
  case isFalse => exact hasSlot_append

/-- Giving methods interface slots gives slots to those that belong to interfaces. -/
lemma hasSlot_addInterfaceSlots (ms : List MethodRef) :
    HasSlot m (t.addInterfaceSlots p ms) ↔ HasSlot m t ∨ m ∈ ms ∧ InInterface p m := by
  have added : HasSlot m (t.addInterfaceSlots p ms) ↔
      HasSlot m t ∨ ∃ m' ∈ ms.filter fun m => (p.lookup? m.className).any (·.isInterface), m = m' :=
    List.adds_of_foldl (HasSlot m) fun _ _ _ => hasSlot_addInterfaceSlot
  rw [added]
  simp [any_isInterface_iff]

/-- Entering a method of a class gives slots to what the method gives slots to. -/
lemma hasSlot_addClassMethod {s s' : DispatchTables × VirtualTable}
    (entered : addClassMethod p c s md = .ok s') :
    HasSlot m s'.1 ↔ HasSlot m s.1 ∨ GivesSlot p c md m := by
  rw [addClassMethod] at entered
  split at entered
  case isTrue none =>
    simp only at entered
    split at entered
    case isTrue => cases entered
    case isFalse =>
      cases entered
      rw [hasSlot_append]
      simp [GivesSlot, List.isEmpty_iff.1 none]
  case isFalse some =>
    cases entered
    rw [hasSlot_addInterfaceSlots]
    simp [GivesSlot, mt List.isEmpty_iff.2 some]

/-- Entering a class gives slots to what the class needs slots for. -/
lemma hasSlot_addClass (entered : addClass p t c = .ok t') :
    HasSlot m t' ↔ HasSlot m t ∨ NeededBy p m c := by
  obtain ⟨⟨t₁, table⟩, methods, result⟩ := Except.exists_of_bind_eq_ok entered
  cases result
  exact Except.adds_of_foldlM (fun s => HasSlot m s.1) methods
    fun _ _ _ _ => hasSlot_addClassMethod

/-- Entering an interface gives slots to what the interface needs slots for. -/
lemma hasSlot_addInterface : HasSlot m (t.addInterface p c) ↔ HasSlot m t ∨ NeededBy p m c := by
  refine List.adds_of_foldl (HasSlot m) fun t md _ => ?_
  simp only
  split
  case isTrue none =>
    rw [hasSlot_addInterfaceSlot]
    simp [GivesSlot, List.isEmpty_iff.1 none]
  case isFalse some =>
    rw [hasSlot_addInterfaceSlots]
    simp [GivesSlot, mt List.isEmpty_iff.2 some]

/-- The declarations that own slots are those that virtual methods give one. -/
lemma hasSlot_iff (built : ofProgram p = .ok t) :
    HasSlot m t ↔ ∃ c ∈ p.classes, NeededBy p m c := by
  obtain ⟨t₁, entered, result⟩ := Except.exists_of_bind_eq_ok built
  cases result
  have classes : HasSlot m t₁ ↔ HasSlot m empty ∨ ∃ c ∈ classOrder p, NeededBy p m c :=
    Except.adds_of_foldlM (HasSlot m) entered fun _ _ _ _ => hasSlot_addClass
  have nothing : ¬HasSlot m empty := Bool.false_ne_true
  have added : HasSlot m ((p.sortedClasses.filter (·.isInterface)).foldl (addInterface p) t₁) ↔
      HasSlot m t₁ ∨ ∃ c ∈ p.sortedClasses.filter (·.isInterface), NeededBy p m c :=
    List.adds_of_foldl (HasSlot m) fun _ _ _ => hasSlot_addInterface
  rw [added, classes, or_iff_right nothing]
  simp only [mem_classOrder, Program.mem_concreteClasses, Program.sortedClasses, List.mem_filter,
    List.mem_mergeSort]
  constructor
  · rintro (⟨c, mem, needed⟩ | ⟨c, mem, needed⟩)
    · exact ⟨c, mem.1, needed⟩
    · exact ⟨c, mem.1, needed⟩
  · rintro ⟨c, mem, needed⟩
    cases kind : c.isInterface with
    | false => exact .inl ⟨c, ⟨mem, kind⟩, needed⟩
    | true => exact .inr ⟨c, ⟨mem, kind⟩, needed⟩

/-- A declaration that instances inherit is virtual if some method with its signature is. -/
lemma hasVirtual_of_declares (declares : k.declares md.signature = true)
    (virtual : md.isVirtual = true) : k.HasVirtual md.signature := by
  obtain ⟨md', found, inherited⟩ := (Option.any_eq_true ..).1 declares
  have named : md'.signature = md.signature := by simpa using List.find?_some found
  refine ⟨md', List.mem_of_find?_eq_some found, ?_, named⟩
  simp_all [MethodDef.isVirtual]

/-- Only declarations of virtual methods own slots. -/
lemma hasVirtual_of_hasSlot (built : ofProgram p = .ok t) (memk : k ∈ p.classes)
    (owned : HasSlot ⟨k.name, s⟩ t) : k.HasVirtual s := by
  obtain ⟨c, memc, md, mem, gives⟩ := (hasSlot_iff built).1 owned
  obtain ⟨memmd, virtual⟩ := List.mem_filter.1 mem
  rcases gives with ⟨found, _⟩ | ⟨_, eq⟩
  · obtain ⟨e, below, _, declares, eq⟩ := Program.exists_of_mem_topmostDeclarations found
    obtain ⟨named, rfl⟩ := MethodRef.mk.inj eq
    obtain rfl := Program.eq_of_name_eq memk below.mem named
    exact hasVirtual_of_declares declares virtual
  · obtain ⟨named, rfl⟩ := MethodRef.mk.inj eq
    obtain rfl := Program.eq_of_name_eq memk memc named
    exact ⟨md, memmd, virtual, rfl⟩

section Conventions

variable (built : ofProgram p = .ok t) (lists : p.ListsInterfaces) (roots : p.InterfacesAreRoots)

include built lists roots

/-- A virtual method or one that it overrides owns a slot, unless what it overrides is declared by
an ancestor. -/
lemma slot_or_ancestor (memk : k ∈ p.classes) (virtual : k.HasVirtual s) :
    (∃ o ∈ p.supertypes k.name, HasSlot ⟨o.name, s⟩ t) ∨
      ∃ e ∈ p.ancestors k.name, e ≠ k ∧ e.HasVirtual s := by
  obtain ⟨md, memmd, virtual, rfl⟩ := virtual
  have gives : ∀ o : ClassDef, GivesSlot p k md ⟨o.name, md.signature⟩ →
      HasSlot ⟨o.name, md.signature⟩ t := fun o gives =>
    (hasSlot_iff built).2 ⟨k, memk, md, List.mem_filter.2 ⟨memmd, virtual⟩, gives⟩
  cases found : p.topmostDeclarations k md.signature with
  | nil =>
    have self := List.mem_append_left (p.allInterfaces k.name) (Program.mem_ancestors_self memk)
    exact .inl ⟨k, self, gives k (.inr ⟨found, rfl⟩)⟩
  | cons m ms =>
    have mem : m ∈ p.topmostDeclarations k md.signature := found ▸ List.mem_cons_self ..
    obtain ⟨e, below, other, declares, rfl⟩ := Program.exists_of_mem_topmostDeclarations mem
    have up := below.mem_supertypes lists roots memk
    cases isInterface : e.isInterface with
    | true =>
      have within : InInterface p ⟨e.name, md.signature⟩ :=
        ⟨e, List.mem_filter.2 ⟨below.mem, isInterface⟩, rfl⟩
      exact .inl ⟨e, up, gives e (.inl ⟨mem, within⟩)⟩
    | false =>
      refine .inr ⟨e, (List.mem_append.1 up).resolve_right fun mem' => ?_,
        fun eq => other (congrArg _ eq), hasVirtual_of_declares declares virtual⟩
      rw [lists.isInterface mem'] at isInterface
      cases isInterface

/-- Of a virtual method of a class and those that it overrides, at least one owns a slot. -/
lemma exists_slot_of_grounded (grounded : p.Grounded c) :
    ∀ k ∈ p.ancestors c.name, k.HasVirtual s →
      ∃ o ∈ p.supertypes k.name, HasSlot ⟨o.name, s⟩ t := by
  induction grounded with
  | @root c memc noParent =>
    have memc := Program.concreteClasses_subset memc
    rw [Program.ancestors_of_root memc noParent]
    refine List.forall_mem_singleton.2 fun virtual => ?_
    refine (slot_or_ancestor built lists roots memc virtual).resolve_right ?_
    rintro ⟨e, up, other, _⟩
    rw [Program.ancestors_of_root memc noParent] at up
    exact other (List.mem_singleton.1 up)
  | @child c d memc _ split _ ih =>
    have memc := Program.concreteClasses_subset memc
    rw [split]
    refine List.forall_mem_cons.2 ⟨fun virtual => ?_, ih⟩
    rcases slot_or_ancestor built lists roots memc virtual with owned | ⟨e, up, other, virtual⟩
    · exact owned
    · rw [split] at up
      -- the ancestor is not the class itself, so one of its parent's ancestors
      have up := (List.mem_cons.1 up).resolve_left other
      obtain ⟨o, memo, owned⟩ := ih e up virtual
      have above := List.mem_append_left (p.allInterfaces c.name)
        (split ▸ List.mem_cons_of_mem c up : e ∈ p.ancestors c.name)
      exact ⟨o, Program.supertypes_trans lists roots above memo, owned⟩

/-- Among the supertypes of a name there is an owner of a slot just if one of them declares the
method as virtual. -/
lemma exists_slot_iff (grounded : ∀ c ∈ p.concreteClasses, p.Grounded c) (n : String) :
    (∃ o ∈ p.supertypes n, HasSlot ⟨o.name, s⟩ t) ↔
      ∃ k ∈ p.supertypes n, k.HasVirtual s := by
  constructor
  · rintro ⟨o, mem, owned⟩
    exact ⟨o, mem, hasVirtual_of_hasSlot built (Program.mem_of_mem_supertypes mem) owned⟩
  · rintro ⟨k, mem, virtual⟩
    have memk := Program.mem_of_mem_supertypes mem
    have own : ∃ o ∈ p.supertypes k.name, HasSlot ⟨o.name, s⟩ t := by
      cases isInterface : k.isInterface with
      | true =>
        refine (slot_or_ancestor built lists roots memk virtual).resolve_right ?_
        rintro ⟨e, up, other, _⟩
        rw [roots.ancestors_eq memk isInterface] at up
        exact other (List.mem_singleton.1 up)
      | false =>
        have memk' := Program.mem_concreteClasses.2 ⟨memk, isInterface⟩
        exact exists_slot_of_grounded built lists roots (grounded k memk') k
          (Program.mem_ancestors_self memk) virtual
    obtain ⟨o, memo, owned⟩ := own
    exact ⟨o, Program.supertypes_trans lists roots mem memo, owned⟩

end Conventions

/-- A reference resolves to a slot just if a supertype of the named class owns one. -/
lemma exists_resolve?_iff :
    (∃ slot, t.resolve? p m = some slot) ↔
      ∃ o ∈ p.supertypes m.className, HasSlot ⟨o.name, m.signature⟩ t := by
  rw [← Option.isSome_iff_exists, resolve?, List.findSome?_isSome_iff]
  rfl

end DispatchTables

end ObjectBackend
