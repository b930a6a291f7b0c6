import ObjectBackend.Source.Program

/-!
# The class hierarchy

Walks along parent links and interface lists. Nothing is assumed of the links: they may be missing,
lead nowhere or form cycles. A walk therefore draws the classes it meets from a pool, which holds
those not met before, and ends when a name is not in the pool. `ancestors` follows the parents,
`allInterfaces` goes breadth first through the interface lists, and subtyping, member resolution
and the choice of an implementation are searches along the two.
-/

namespace ObjectBackend

namespace Pool

/-- The classes of a pool that have another name. -/
def without (pool : List ClassDef) (name : String) : List ClassDef :=
  pool.filter (·.name ≠ name)

/-- The class of a pool with a name. -/
def find? (pool : List ClassDef) (name : String) : Option ClassDef :=
  pool.find? (·.name = name)

/-- The number of interface links that leave the classes of a pool. -/
def links (pool : List ClassDef) : Nat := pool.foldr (fun c n => c.interfaces.length + n) 0

/-- Drawing a class makes a pool smaller. -/
theorem length_without_lt {pool : List ClassDef} {name : String} {c : ClassDef}
    (h : find? pool name = some c) : (without pool name).length < pool.length := by
  refine List.length_filter_lt_length_iff_exists.mpr ⟨c, List.mem_of_find?_eq_some h, ?_⟩
  simpa using List.find?_some h

/-- A class with the name is left out. -/
theorem without_cons_of_eq {name : String} {c : ClassDef} (pool : List ClassDef)
    (h : c.name = name) : without (c :: pool) name = without pool name :=
  List.filter_cons_of_neg (by simpa using h)

/-- A class with another name is kept. -/
theorem without_cons_of_ne {name : String} {c : ClassDef} (pool : List ClassDef)
    (h : c.name ≠ name) : without (c :: pool) name = c :: without pool name :=
  List.filter_cons_of_pos (by simpa using h)

/-- The links of a pool are those of its classes. -/
theorem links_cons (c : ClassDef) (pool : List ClassDef) :
    links (c :: pool) = c.interfaces.length + links pool := rfl

/-- Leaving classes out adds no links. -/
theorem links_without_le (pool : List ClassDef) (name : String) :
    links (without pool name) ≤ links pool := by
  induction pool with
  | nil => exact Nat.le_refl _
  | cons d ds ih =>
    by_cases eq : d.name = name
    · rw [without_cons_of_eq ds eq, links_cons]
      omega
    · rw [without_cons_of_ne ds eq, links_cons, links_cons]
      omega

/-- The links of a drawn class leave with it. -/
theorem links_without_add_le {pool : List ClassDef} {name : String} {c : ClassDef}
    (h : find? pool name = some c) :
    links (without pool name) + c.interfaces.length ≤ links pool := by
  induction pool with
  | nil => cases h
  | cons d ds ih =>
    by_cases eq : d.name = name
    · obtain rfl : d = c := by simpa [find?, eq] using h
      have := links_without_le ds name
      rw [without_cons_of_eq ds eq, links_cons]
      omega
    · have := ih (by simpa [find?, eq] using h)
      rw [without_cons_of_ne ds eq, links_cons, links_cons]
      omega

/-- The class with a name followed by its parent chain, as far as the pool goes. -/
def chain (pool : List ClassDef) (name : String) : List ClassDef :=
  match _ : find? pool name with
  | none => []
  | some c =>
    match c.parentName with
    | none => [c]
    | some parent => c :: chain (without pool name) parent
termination_by pool.length
decreasing_by exact length_without_lt (by assumption)

/-- The classes of the pool that the queued names lead to through interface lists, breadth first. -/
def reach (pool : List ClassDef) : List String → List ClassDef
  | [] => []
  | name :: queue =>
    match _ : find? pool name with
    | none => reach pool queue
    | some c => c :: reach (without pool name) (queue ++ c.interfaces)
termination_by queue => links pool + queue.length
decreasing_by
  · simp
  · have := links_without_add_le (by assumption)
    simp only [List.length_append, List.length_cons]
    omega

end Pool

namespace Program

/-- The class with a name and its parent chain, up to a missing class or a repetition. -/
def ancestors (p : Program) (name : String) : List ClassDef := Pool.chain p.classes name

/-- The interfaces a class implements, directly or through others, breadth first, each once. -/
def allInterfaces (p : Program) (name : String) : List ClassDef :=
  Pool.reach p.classes ((p.ancestors name).flatMap (·.interfaces))

/-- Whether one name is the other or inherits from it through parents or interfaces. -/
def isSubtype (p : Program) (sub sup : String) : Bool :=
  sub = sup || (p.ancestors sub).any (·.name = sup) || (p.allInterfaces sub).any (·.name = sup)

/-- The field that a reference reaches along the parent chain, with the declaring class. -/
def resolveField? (p : Program) (f : FieldRef) : Option (ClassDef × FieldDef) :=
  (p.ancestors f.className).findSome? fun c => (c.field? f.name).map (c, ·)

/-- The method that a reference reaches along the parent chain and then through the interfaces,
with the declaring class. -/
def resolveMethod? (p : Program) (m : MethodRef) : Option (ClassDef × MethodDef) :=
  (p.ancestors m.className ++ p.allInterfaces m.className).findSome? fun c =>
    (c.method? m.signature).map (c, ·)

/-- The method a class runs for a signature: the nearest declaration on the parent chain that
instances inherit, unless that one is abstract. -/
def implementation? (p : Program) (className : String) (s : Signature) : Option MethodRef :=
  let inherited := (p.ancestors className).findSome? fun c =>
    ((c.method? s).filter fun m => !m.isStatic && !m.isPrivate).map (c, ·)
  (inherited.filter fun (_, m) => !m.isAbstract).map fun (c, _) => ⟨c.name, s⟩

/-- Whether the class or one of its ancestors has an initializer. -/
def needsInitialization (p : Program) (className : String) : Bool :=
  (p.ancestors className).any (·.initializer?.isSome)

end Program

end ObjectBackend
