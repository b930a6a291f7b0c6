import ObjectBackend.Proofs.Hierarchy.ParentChain

/-!
# Interface closures

What `Program.allInterfaces` holds, for any interface lists: the classes that a non-empty chain of
interface links leads to from an ancestor (`Program.mem_allInterfaces`). As with parent chains, the
facts are proved of the walk over a pool. That everything reached is linked to the queue follows the
walk; that everything linked is reached holds because the result has the queued classes and is
closed under links.

Front ends follow a convention: interface lists name interfaces (`ListsInterfaces`), and an
interface extends others through its list and has no parent (`InterfacesAreRoots`). Then a name also
has the interfaces of its interfaces (`Program.mem_allInterfaces_trans`).
-/

namespace ObjectBackend

namespace Pool

variable {pool : List ClassDef} {c d e : ClassDef} {m n : String} {queue : List String}

/-- One class lists another as an interface. -/
def Lists (pool : List ClassDef) (c d : ClassDef) : Prop :=
  ∃ n ∈ c.interfaces, find? pool n = some d

/-- A link in a smaller pool is one in the whole pool. -/
lemma Lists.of_without (lists : Lists (without pool n) c d) : Lists pool c d := by
  obtain ⟨m, mem, found⟩ := lists
  exact ⟨m, mem, find?_of_without found⟩

/-- What is reached is linked to a class of the queue. -/
lemma exists_of_mem_reach (mem : e ∈ reach pool queue) :
    ∃ n ∈ queue, ∃ d, find? pool n = some d ∧ Relation.ReflTransGen (Lists pool) d e := by
  fun_induction reach pool queue with
  | case1 => cases mem
  | case2 pool n queue none ih =>
    obtain ⟨m, queued, rest⟩ := ih mem
    exact ⟨m, List.mem_cons_of_mem _ queued, rest⟩
  | case3 pool n queue c found ih =>
    cases mem with
    | head => exact ⟨n, List.mem_cons_self .., e, found, .refl⟩
    | tail _ mem =>
      obtain ⟨m, queued, d, found', steps⟩ := ih mem
      have steps' : Relation.ReflTransGen (Lists pool) d e :=
        Relation.ReflTransGen.mono (fun _ _ => Lists.of_without) _ _ steps
      rcases List.mem_append.1 queued with queued | listed
      · exact ⟨m, List.mem_cons_of_mem _ queued, d, find?_of_without found', steps'⟩
      · refine ⟨n, List.mem_cons_self .., c, found, ?_⟩
        exact .head ⟨m, listed, find?_of_without found'⟩ steps'

/-- The classes of the queue are reached. -/
lemma mem_reach_of_mem_queue (queued : n ∈ queue) (found : find? pool n = some d) :
    d ∈ reach pool queue := by
  fun_induction reach pool queue with
  | case1 => cases queued
  | case2 pool m queue none ih =>
    cases queued with
    | head => rw [none] at found; cases found
    | tail _ queued => exact ih queued found
  | case3 pool m queue c found' ih =>
    by_cases eq : n = m
    · subst eq
      obtain rfl : c = d := Option.some.inj (found'.symm.trans found)
      exact List.mem_cons_self ..
    · refine List.mem_cons_of_mem _ (ih ?_ (by rwa [find?_without_of_ne eq]))
      cases queued with
      | head => exact absurd rfl eq
      | tail _ queued => exact List.mem_append_left _ queued

/-- What is reached is closed under interface links. -/
lemma mem_reach_of_lists (mem : d ∈ reach pool queue) (lists : Lists pool d e) :
    e ∈ reach pool queue := by
  obtain ⟨n, listed, found⟩ := lists
  fun_induction reach pool queue with
  | case1 => cases mem
  | case2 pool m queue none ih => exact ih mem found
  | case3 pool m queue c found' ih =>
    by_cases eq : n = m
    · subst eq
      obtain rfl : c = e := Option.some.inj (found'.symm.trans found)
      exact List.mem_cons_self ..
    · have found'' : find? (without pool m) n = some e := by rwa [find?_without_of_ne eq]
      refine List.mem_cons_of_mem _ ?_
      cases mem with
      | head => exact mem_reach_of_mem_queue (List.mem_append_right _ listed) found''
      | tail _ mem => exact ih mem found''

end Pool

namespace Program

variable {p : Program} {c d e : ClassDef} {n sub sup : String}

/-- One class lists another as an interface. -/
def Lists (p : Program) (c d : ClassDef) : Prop := ∃ n ∈ c.interfaces, p.lookup? n = some d

/-- The interfaces of a name are the classes that a non-empty chain of interface links leads to from
one of its ancestors. -/
lemma mem_allInterfaces :
    e ∈ p.allInterfaces n ↔ ∃ c ∈ p.ancestors n, Relation.TransGen p.Lists c e := by
  constructor
  · intro mem
    obtain ⟨m, queued, d, found, steps⟩ := Pool.exists_of_mem_reach mem
    obtain ⟨c, up, listed⟩ := List.mem_flatMap.1 queued
    exact ⟨c, up, .head' ⟨m, listed, found⟩ steps⟩
  · rintro ⟨c, up, steps⟩
    induction steps with
    | single lists =>
      obtain ⟨m, listed, found⟩ := lists
      exact Pool.mem_reach_of_mem_queue (List.mem_flatMap.2 ⟨c, up, listed⟩) found
    | tail _ lists ih => exact Pool.mem_reach_of_lists ih lists

/-- The interfaces that are found are classes of the program. -/
lemma mem_of_mem_allInterfaces (mem : e ∈ p.allInterfaces n) : e ∈ p.classes := by
  obtain ⟨c, _, steps⟩ := mem_allInterfaces.1 mem
  obtain ⟨d, _, _, _, found⟩ := Relation.TransGen.tail'_iff.1 steps
  exact (lookup?_eq_some_iff.1 found).1

/-- The interfaces of an ancestor are interfaces of the class. -/
lemma mem_allInterfaces_of_mem_ancestors (up : d ∈ p.ancestors n)
    (mem : e ∈ p.allInterfaces d.name) : e ∈ p.allInterfaces n := by
  obtain ⟨c, up', steps⟩ := mem_allInterfaces.1 mem
  exact mem_allInterfaces.2 ⟨c, ancestors_trans up up', steps⟩

/-- A name is a subtype of its own, its ancestors' and its interfaces' names. -/
lemma isSubtype_iff :
    p.isSubtype sub sup = true ↔
      sub = sup ∨ (∃ c ∈ p.ancestors sub, c.name = sup) ∨
        ∃ c ∈ p.allInterfaces sub, c.name = sup := by
  simp [isSubtype, or_assoc]

/-- Interface lists name interfaces, as far as they name anything. -/
def ListsInterfaces (p : Program) : Prop :=
  ∀ c ∈ p.classes, ∀ d ∈ p.classes, d.name ∈ c.interfaces → d.isInterface = true

/-- Whether only interfaces are listed is decided class by class. -/
instance : Decidable p.ListsInterfaces :=
  inferInstanceAs (Decidable (∀ c ∈ p.classes, ∀ d ∈ p.classes, _ → _))

/-- No interface has a parent. -/
def InterfacesAreRoots (p : Program) : Prop :=
  ∀ c ∈ p.classes, c.isInterface = true → c.parentName = none

/-- Whether interfaces are roots is decided class by class. -/
instance : Decidable p.InterfacesAreRoots :=
  inferInstanceAs (Decidable (∀ c ∈ p.classes, _ → _))

/-- The interfaces of a name are interfaces. -/
lemma ListsInterfaces.isInterface (convention : p.ListsInterfaces)
    (mem : e ∈ p.allInterfaces n) : e.isInterface = true := by
  obtain ⟨c, up, steps⟩ := mem_allInterfaces.1 mem
  cases steps with
  | single lists =>
    obtain ⟨m, listed, found⟩ := lists
    obtain ⟨mem, rfl⟩ := lookup?_eq_some_iff.1 found
    exact convention c (mem_of_mem_ancestors up) e mem listed
  | tail steps lists =>
    obtain ⟨m, listed, found⟩ := lists
    obtain ⟨mem, rfl⟩ := lookup?_eq_some_iff.1 found
    have memd := mem_of_mem_allInterfaces (mem_allInterfaces.2 ⟨c, up, steps⟩)
    exact convention _ memd e mem listed

/-- If interfaces are roots, an interface is its only ancestor. -/
lemma InterfacesAreRoots.ancestors_eq (convention : p.InterfacesAreRoots) (mem : c ∈ p.classes)
    (isInterface : c.isInterface = true) : p.ancestors c.name = [c] := by
  rw [ancestors, Pool.chain_of_find? (lookup?_of_mem mem), convention c mem isInterface]
  rfl

/-- What an interface of a name lists, directly or through others, the name has, too. -/
lemma mem_allInterfaces_trans (lists : p.ListsInterfaces) (roots : p.InterfacesAreRoots)
    (memd : d ∈ p.allInterfaces n) (meme : e ∈ p.allInterfaces d.name) :
    e ∈ p.allInterfaces n := by
  obtain ⟨d', up, steps'⟩ := mem_allInterfaces.1 meme
  rw [roots.ancestors_eq (mem_of_mem_allInterfaces memd) (lists.isInterface memd)] at up
  obtain rfl := List.mem_singleton.1 up
  obtain ⟨c, up, steps⟩ := mem_allInterfaces.1 memd
  exact mem_allInterfaces.2 ⟨c, up, steps.trans steps'⟩

/-- A subtype has the ancestors and the interfaces of its supertype, those of an interface as
interfaces. -/
lemma mem_supertypes_of_isSubtype (lists : p.ListsInterfaces) (roots : p.InterfacesAreRoots)
    (subtype : p.isSubtype sub sup = true) (mem : e ∈ p.ancestors sup ++ p.allInterfaces sup) :
    e ∈ p.ancestors sub ++ p.allInterfaces sub := by
  rw [List.mem_append] at mem ⊢
  rcases isSubtype_iff.1 subtype with rfl | ⟨d, up, rfl⟩ | ⟨d, memd, rfl⟩
  · exact mem
  · exact mem.imp (ancestors_trans up) (mem_allInterfaces_of_mem_ancestors up)
  · refine .inr ?_
    rcases mem with up | mem
    · rw [roots.ancestors_eq (mem_of_mem_allInterfaces memd) (lists.isInterface memd)] at up
      obtain rfl := List.mem_singleton.1 up
      exact memd
    · exact mem_allInterfaces_trans lists roots memd mem

end Program

end ObjectBackend
