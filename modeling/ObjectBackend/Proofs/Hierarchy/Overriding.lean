import Mathlib.Data.Set.Finite.Basic
import ObjectBackend.Proofs.Hierarchy.Rearranged
import ObjectBackend.Proofs.Hierarchy.Subtyping

/-!
# What declarations override

A declaration of a method overrides those above its class, and the topmost of them override nothing
(`Program.Topmost`). Without cycles they are given by recursion along the links
(`Program.Acyclic.isTopmost_iff`): what is topmost above a supertype is topmost, and if there is
nothing, the supertype's own declaration is.

The search for them meets every class above only once, in the order of a walk (`Program.walk`). When
it comes to a class, those above it may have been met before, by another way, and then it does not
find them again. So it finds a declaration just if nothing that the declaration overrides is met
behind it (`Program.Acyclic.mem_topmostDeclarations`): all that are topmost and, depending on the
order of the walk, others (`Program.MeetsInTime`).
-/

namespace ObjectBackend

namespace Pool

/-- What a walk has met, in this order, and the classes it has not met. -/
structure Walk (pool : List ClassDef) where
  rest : List ClassDef
  met : List ClassDef
  rest_le : rest.length ≤ pool.length

/-- Walk through the classes that the names lead to: each named class is met before those above it,
and they are met before the next name. Every class is met once. -/
def walk (pool : List ClassDef) : List String → Walk pool
  | [] => { rest := pool, met := [], rest_le := Nat.le_refl _ }
  | name :: names =>
    match _ : find? pool name with
    | none =>
      let others := walk pool names
      { rest := others.rest, met := others.met, rest_le := others.rest_le }
    | some c =>
      have shorter := length_without_lt (by assumption : find? pool name = some c)
      let above := walk (without pool name) c.supertypeNames
      have fewer : above.rest.length < pool.length := Nat.lt_of_le_of_lt above.rest_le shorter
      let others := walk above.rest names
      { rest := others.rest
        met := c :: (above.met ++ others.met)
        rest_le := Nat.le_trans others.rest_le (Nat.le_of_lt fewer) }
termination_by names => (pool.length, names.length)
decreasing_by
  · exact Prod.Lex.right _ (Nat.lt_succ_self _)
  · exact Prod.Lex.left _ _ shorter
  · exact Prod.Lex.left _ _ fewer

variable {p : Program} {pool : List ClassDef} {names : List String} {n : String} {c d e : ClassDef}
  {s : Signature}

/-- A name that is not found is passed over. -/
lemma walk_of_not_found (names : List String) (none : find? pool n = none) :
    (walk pool (n :: names)).met = (walk pool names).met ∧
      (walk pool (n :: names)).rest = (walk pool names).rest := by
  rw [walk]
  split
  case h_1 => exact ⟨rfl, rfl⟩
  case h_2 c found =>
    rw [none] at found
    cases found

/-- A name that is found meets its class, then what is above that, then what the other names lead
to. -/
lemma walk_of_find? (names : List String) (found : find? pool n = some c) :
    (walk pool (n :: names)).met = c :: ((walk (without pool n) c.supertypeNames).met ++
        (walk (walk (without pool n) c.supertypeNames).rest names).met) ∧
      (walk pool (n :: names)).rest =
        (walk (walk (without pool n) c.supertypeNames).rest names).rest := by
  rw [walk]
  split
  case h_1 none =>
    rw [none] at found
    cases found
  case h_2 c' found' =>
    obtain rfl := Option.some.inj (found.symm.trans found')
    exact ⟨rfl, rfl⟩

/-- Nothing is found above a class and at it. -/
lemma orElse_eq_nil_iff {above : List String} {b : Bool} :
    (if above.isEmpty && b then [n] else above) = [] ↔ b = false ∧ above = [] := by
  cases above <;> cases b <;> simp

/-- What is found at a class counts if there is nothing above it. -/
lemma mem_orElse_iff {above : List String} {b : Bool} {m : String} :
    m ∈ (if above.isEmpty && b then [n] else above) ↔
      m ∈ above ∨ above = [] ∧ b = true ∧ m = n := by
  cases above <;> cases b <;> simp

/-- The search for declarations walks in this way, whatever it looks for. -/
lemma rest_topmost (s : Signature) (pool : List ClassDef) (names : List String) :
    (topmost s pool names).rest = (walk pool names).rest := by
  induction pool, names using walk.induct with
  | case1 pool => rw [topmost, walk]
  | case2 pool n names none ih =>
    rw [(topmost_of_not_found names none).2, (walk_of_not_found names none).2, ih]
  | case3 pool n names c found _ _ _ ih ih' =>
    rw [(topmost_of_find? names found).2, (walk_of_find? names found).2, ih, ih']

/-- It finds nothing just if no class that is met has a declaration. -/
lemma topmost_eq_nil_iff (s : Signature) (pool : List ClassDef) (names : List String) :
    (topmost s pool names).classes = [] ↔
      ∀ e ∈ (walk pool names).met, e.declares s = false := by
  induction pool, names using walk.induct with
  | case1 pool =>
    rw [topmost, walk]
    exact iff_of_true rfl (List.forall_mem_nil _)
  | case2 pool n names none ih =>
    rw [(topmost_of_not_found names none).1, (walk_of_not_found names none).1, ih]
  | case3 pool n names c found _ _ _ ih ih' =>
    rw [(topmost_of_find? names found).1, (walk_of_find? names found).1, List.append_eq_nil_iff,
      rest_topmost, ih', List.forall_mem_cons, List.forall_mem_append, ← and_assoc,
      orElse_eq_nil_iff,
      ih]

/-- Without a name, the classes of other names are left. -/
lemma mem_without : c ∈ without pool n ↔ c ∈ pool ∧ c.name ≠ n := by
  rw [without, List.mem_filter, decide_eq_true_eq]

/-- Without a name there are no classes that were not there. -/
lemma without_subset (pool : List ClassDef) (n : String) : without pool n ⊆ pool :=
  fun _ mem => (mem_without.1 mem).1

/-- What is found in a pool has the name. -/
lemma find?_eq_some (found : find? pool n = some c) : c ∈ pool ∧ c.name = n :=
  ⟨List.mem_of_find?_eq_some found, by simpa using List.find?_some found⟩

/-- What is left has other names than what is met. -/
lemma mem_rest_iff :
    c ∈ (walk pool names).rest ↔ c ∈ pool ∧ ∀ e ∈ (walk pool names).met, c.name ≠ e.name := by
  induction pool, names using walk.induct with
  | case1 pool =>
    rw [walk]
    simp
  | case2 pool n names none ih =>
    rw [(walk_of_not_found names none).1, (walk_of_not_found names none).2]
    exact ih
  | case3 pool n names d found _ _ _ ih ih' =>
    obtain ⟨_, rfl⟩ := find?_eq_some found
    rw [(walk_of_find? names found).1, (walk_of_find? names found).2, ih', ih, mem_without,
      List.forall_mem_cons, List.forall_mem_append]
    tauto

/-- What a walk spares was in its pool. -/
lemma rest_subset (pool : List ClassDef) (names : List String) : (walk pool names).rest ⊆ pool :=
  fun _ mem => (mem_rest_iff.1 mem).1

/-- What a walk meets was in its pool. -/
lemma met_subset : (walk pool names).met ⊆ pool := by
  induction pool, names using walk.induct with
  | case1 pool =>
    rw [walk]
    exact List.nil_subset _
  | case2 pool n names none ih =>
    rw [(walk_of_not_found names none).1]
    exact ih
  | case3 pool n names c found _ above _ ih ih' =>
    rw [(walk_of_find? names found).1]
    have fewer := without_subset pool n
    refine List.cons_subset.2 ⟨(find?_eq_some found).1, List.append_subset.2 ⟨?_, ?_⟩⟩
    · exact List.Subset.trans ih fewer
    · exact List.Subset.trans ih' (List.Subset.trans (rest_subset _ _) fewer)

end Pool

namespace Program

variable {p : Program} {pool : List ClassDef} {names : List String} {n : String}
  {c d e f : ClassDef} {s : Signature}

/-- A class extends those that its supertype names are the names of. -/
lemma extends_iff : p.Extends c d ↔ ∃ n ∈ c.supertypeNames, p.lookup? n = some d := by
  simp [Extends, IsParent, Lists, ClassDef.supertypeNames, or_and_right, exists_or]

/-- One or more links lead from a class to another one. -/
def Below (p : Program) : ClassDef → ClassDef → Prop := Relation.TransGen p.Extends

/-- What a class is below of is a class of the program. -/
lemma Below.mem (below : p.Below c d) : d ∈ p.classes := by
  obtain ⟨_, _, link⟩ := Relation.TransGen.tail'_iff.1 below
  exact mem_of_extends link

/-- What a class declares, or would declare, overrides a declaration above it. -/
def Overrides (p : Program) (s : Signature) (c d : ClassDef) : Prop :=
  p.Below c d ∧ d.declares s = true

/-- No class is above itself. -/
def Acyclic (p : Program) : Prop := ∀ c, ¬p.Below c c

/-- There are no cycles if supertypes have lower ranks than the classes that list them. -/
lemma acyclic_of_rank (rank : String → Nat)
    (falls : ∀ c ∈ p.classes, ∀ n ∈ c.supertypeNames, rank n < rank c.name) : p.Acyclic := by
  intro c cycle
  have falls' : ∀ c ∈ p.classes, ∀ d, p.Extends c d → rank d.name < rank c.name := by
    intro c mem d link
    obtain ⟨n, listed, found⟩ := extends_iff.1 link
    obtain ⟨_, rfl⟩ := lookup?_eq_some_iff.1 found
    exact falls c mem _ listed
  have lower : ∀ d, p.Below c d → d ∈ p.classes ∧ rank d.name < rank c.name := by
    intro d below
    induction below with
    | single link => exact ⟨mem_of_extends link, falls' c cycle.mem _ link⟩
    | tail _ link ih => exact ⟨mem_of_extends link, (falls' _ ih.1 _ link).trans ih.2⟩
  exact Nat.lt_irrefl _ (lower c cycle).2

/-- Links lead to a class from one of those that names stand for. -/
def LeadTo (p : Program) (names : List String) (e : ClassDef) : Prop :=
  ∃ n ∈ names, ∃ d, p.lookup? n = some d ∧ Relation.ReflTransGen p.Extends d e

/-- The supertypes of a class lead to what is above it. -/
lemma leadTo_supertypeNames : p.LeadTo c.supertypeNames e ↔ p.Below c e := by
  rw [Below, Relation.TransGen.head'_iff]
  constructor
  · rintro ⟨n, mem, d, found, path⟩
    exact ⟨d, extends_iff.2 ⟨n, mem, found⟩, path⟩
  · rintro ⟨d, link, path⟩
    obtain ⟨n, mem, found⟩ := extends_iff.1 link
    exact ⟨n, mem, d, found, path⟩

/-- Names lead to what lies above their classes. -/
lemma leadTo_cons : p.LeadTo (n :: names) e ↔
    (∃ d, p.lookup? n = some d ∧ Relation.ReflTransGen p.Extends d e) ∨ p.LeadTo names e := by
  simp [LeadTo]

/-- Where names lead to, what is above a class that is not in the pool is not in it either. -/
def Closed (p : Program) (pool : List ClassDef) (names : List String) : Prop :=
  ∀ c, p.LeadTo names c → c ∉ pool → ∀ d, p.Below c d → d ∉ pool

/-- What names lead to are classes of the program. -/
lemma mem_of_leadTo (leads : p.LeadTo names e) : e ∈ p.classes := by
  obtain ⟨n, _, d, found, path⟩ := leads
  exact mem_of_path (lookup?_eq_some_iff.1 found).1 path

section Walk

variable (acyclic : p.Acyclic) (within : pool ⊆ p.classes)

include within in
/-- Only the class that is drawn leaves a pool. -/
lemma eq_of_drawn (found : Pool.find? pool n = some c) (mem : d ∈ pool)
    (drawn : d ∉ Pool.without pool n) : d = c := by
  obtain ⟨memc, named⟩ := Pool.find?_eq_some found
  by_contra ne
  exact drawn (Pool.mem_without.2
    ⟨mem, fun eq => ne (eq_of_name_eq (within mem) (within memc) (eq.trans named.symm))⟩)

include within in
/-- What is found among some of the classes is found among all of them. -/
lemma lookup?_of_find? (found : Pool.find? pool n = some c) : p.lookup? n = some c :=
  lookup?_eq_some_iff.2
    ⟨within (Pool.find?_eq_some found).1, (Pool.find?_eq_some found).2⟩

include acyclic within in
/-- A class is drawn, and the walk goes on above it. -/
lemma Closed.above (closed : p.Closed pool (n :: names)) (found : Pool.find? pool n = some c) :
    p.Closed (Pool.without pool n) c.supertypeNames := by
  intro d leads out e below mem
  have above := leadTo_supertypeNames.1 leads
  by_cases inside : d ∈ pool
  · obtain rfl := eq_of_drawn within found inside out
    exact acyclic d above
  · have leads : p.LeadTo (n :: names) d :=
      leadTo_cons.2 (.inl ⟨c, lookup?_of_find? within found, above.to_reflTransGen⟩)
    exact closed d leads inside e below (Pool.mem_without.1 mem).1

include within in
/-- When all that is above a class has been met, the walk goes on with the other names. -/
lemma Closed.behind (closed : p.Closed pool (n :: names)) (found : Pool.find? pool n = some c)
    (all : ∀ e, e ∈ (Pool.walk (Pool.without pool n) c.supertypeNames).met ↔
      e ∈ Pool.without pool n ∧ p.Below c e) :
    p.Closed (Pool.walk (Pool.without pool n) c.supertypeNames).rest names := by
  intro d leads out e below left
  obtain ⟨mem, other⟩ := Pool.mem_rest_iff.1 left
  have notAbove : ¬p.Below c e := fun above => other e ((all e).2 ⟨mem, above⟩) rfl
  by_cases inside : d ∈ pool
  · by_cases drawn : d ∈ Pool.without pool n
    · -- the class has been met, so it is above the one that has been drawn
      obtain ⟨d', met, named⟩ : ∃ d' ∈ (Pool.walk (Pool.without pool n) c.supertypeNames).met,
          d.name = d'.name := by
        by_contra none
        exact out (Pool.mem_rest_iff.2 ⟨drawn, fun e met eq => none ⟨e, met, eq⟩⟩)
      obtain ⟨mem', above⟩ := (all d').1 met
      obtain rfl := eq_of_name_eq (mem_of_leadTo leads)
        (within (Pool.mem_without.1 mem').1) named
      exact notAbove (above.trans below)
    · obtain rfl := eq_of_drawn within found inside drawn
      exact notAbove below
  · exact closed d (leadTo_cons.2 (.inr leads)) inside e below (Pool.mem_without.1 mem).1

include acyclic within in
/-- A walk meets the classes of the pool that the names lead to. -/
lemma mem_met_iff (closed : p.Closed pool names) :
    e ∈ (Pool.walk pool names).met ↔ e ∈ pool ∧ p.LeadTo names e := by
  induction pool, names using Pool.walk.induct generalizing e with
  | case1 pool =>
    rw [Pool.walk]
    simp [LeadTo]
  | case2 pool n names none ih =>
    have closed' : p.Closed pool names := fun c leads => closed c (leadTo_cons.2 (.inr leads))
    rw [(Pool.walk_of_not_found names none).1, ih within closed', leadTo_cons]
    -- a name that is missing from the pool leads to nothing that is still in it
    refine and_congr_right fun mem => ⟨.inr, fun leads => leads.resolve_left ?_⟩
    rintro ⟨d, found, path⟩
    have out : d ∉ pool := fun mem' => by
      simpa [(lookup?_eq_some_iff.1 found).2] using List.find?_eq_none.1 none d mem'
    rcases Relation.reflTransGen_iff_eq_or_transGen.1 path with rfl | below
    · exact out mem
    · exact closed d (leadTo_cons.2 (.inl ⟨d, found, .refl⟩)) out e below mem
  | case3 pool n names c found _ above _ ih ih' =>
    have fewer := List.Subset.trans (Pool.without_subset pool n) within
    have all : ∀ e, e ∈ (Pool.walk (Pool.without pool n) c.supertypeNames).met ↔
        e ∈ Pool.without pool n ∧ p.Below c e := by
      intro e
      rw [ih fewer (closed.above acyclic within found), leadTo_supertypeNames]
    have fewer' : (Pool.walk (Pool.without pool n) c.supertypeNames).rest ⊆ p.classes :=
      List.Subset.trans (Pool.rest_subset _ _) fewer
    rw [(Pool.walk_of_find? names found).1, List.mem_cons, List.mem_append, all,
      ih' fewer' (closed.behind within found all), leadTo_cons]
    have first : (∃ d, p.lookup? n = some d ∧ Relation.ReflTransGen p.Extends d e) ↔
        e = c ∨ p.Below c e := by
      simp [lookup?_of_find? within found, Relation.reflTransGen_iff_eq_or_transGen, Below]
    rw [first]
    constructor
    · rintro (rfl | ⟨mem, below⟩ | ⟨left, leads⟩)
      · exact ⟨(Pool.find?_eq_some found).1, .inl (.inl rfl)⟩
      · exact ⟨(Pool.mem_without.1 mem).1, .inl (.inr below)⟩
      · exact ⟨(Pool.mem_without.1 (Pool.rest_subset _ _ left)).1, .inr leads⟩
    · -- what the first name leads to is drawn by its walk, the rest is left for the other names
      rintro ⟨mem, leads⟩
      by_cases drawn : e ∈ Pool.without pool n
      · by_cases below : p.Below c e
        · exact .inr (.inl ⟨drawn, below⟩)
        · refine leads.imp (·.resolve_right below) fun leads => .inr ⟨?_, leads⟩
          refine Pool.mem_rest_iff.2 ⟨drawn, fun d met named => below ?_⟩
          obtain ⟨mem', above⟩ := (all d).1 met
          exact eq_of_name_eq (within mem) (fewer mem') named ▸ above
      · exact .inl (eq_of_drawn within found mem drawn)

/-- Two values stand one after the other in a list of two parts if they do in a part or each is in
its part. -/
lemma pair_sublist_append {α : Type} {a b : α} {xs ys : List α} :
    [a, b].Sublist (xs ++ ys) ↔
      [a, b].Sublist xs ∨ (a ∈ xs ∧ b ∈ ys) ∨ [a, b].Sublist ys := by
  induction xs with
  | nil => simp
  | cons x xs ih =>
    rw [List.cons_append, List.cons_sublist_cons', List.cons_sublist_cons', ih,
      List.singleton_sublist, List.singleton_sublist, List.mem_append, List.mem_cons]
    tauto

/-- The first value of a list does not matter to where others stand. -/
lemma pair_sublist_cons {α : Type} {a b x : α} {xs : List α} (ne : a ≠ x) :
    [a, b].Sublist (x :: xs) ↔ [a, b].Sublist xs := by
  rw [List.cons_sublist_cons', or_iff_left fun both => ne both.1]

/-- A class has a declaration, and a walk does not meet what that overrides after it. -/
def IsTopOf (p : Program) (s : Signature) (met : List ClassDef) (e : ClassDef) : Prop :=
  e.declares s = true ∧ ∀ f, p.Overrides s e f → ¬[e, f].Sublist met

section IsTopOf

variable {met₁ met₂ : List ClassDef}

/-- A class that is met right before all classes above it is at the top if none of them has a
declaration. -/
lemma isTopOf_first (above : ∀ f ∈ met₁, p.Below c f) (apart : ∀ f ∈ met₂, ¬p.Below c f) :
    p.IsTopOf s (c :: (met₁ ++ met₂)) c ↔
      c.declares s = true ∧ ∀ f ∈ met₁, f.declares s = false := by
  refine and_congr_right fun _ => ⟨fun none f mem => ?_, fun none f overrides later => ?_⟩
  · rw [← Bool.not_eq_true]
    intro declares
    refine none f ⟨above f mem, declares⟩ ?_
    exact List.cons_sublist_cons.2 (List.singleton_sublist.2 (List.mem_append_left _ mem))
  · have mem := List.singleton_sublist.1 (List.cons_sublist_cons.1 later)
    rcases List.mem_append.1 mem with mem | mem
    · have declares := overrides.2
      rw [none f mem] at declares
      cases declares
    · exact apart f mem overrides.1

/-- What is met later does not matter if it is not above the class. -/
lemma isTopOf_inner (ne : e ≠ c) (apart : ∀ f ∈ met₂, ¬p.Below e f) (notMem : e ∉ met₂) :
    p.IsTopOf s (c :: (met₁ ++ met₂)) e ↔ p.IsTopOf s met₁ e := by
  refine and_congr_right fun _ => forall_congr' fun f => forall_congr' fun overrides => ?_
  have notBehind : ¬(e ∈ met₁ ∧ f ∈ met₂) := fun mems => apart f mems.2 overrides.1
  have notLater : ¬[e, f].Sublist met₂ := fun later => notMem (later.subset (List.mem_cons_self ..))
  rw [pair_sublist_cons ne, pair_sublist_append, or_iff_left (not_or.2 ⟨notBehind, notLater⟩)]

/-- What has been met earlier does not matter. -/
lemma isTopOf_outer (ne : e ≠ c) (notMem : e ∉ met₁) :
    p.IsTopOf s (c :: (met₁ ++ met₂)) e ↔ p.IsTopOf s met₂ e := by
  refine and_congr_right fun _ => forall_congr' fun f => forall_congr' fun _ => ?_
  have notEarlier : ¬[e, f].Sublist met₁ := fun earlier =>
    notMem (earlier.subset (List.mem_cons_self ..))
  rw [pair_sublist_cons ne, pair_sublist_append, or_iff_right notEarlier,
    or_iff_right fun mems => notMem mems.1]

end IsTopOf

include acyclic within in
/-- The search finds the declarations behind which the walk meets nothing that they override. -/
lemma mem_topmost_iff (closed : p.Closed pool names) {m : String} :
    m ∈ (Pool.topmost s pool names).classes ↔
      ∃ e ∈ (Pool.walk pool names).met, e.name = m ∧ p.IsTopOf s (Pool.walk pool names).met e := by
  induction pool, names using Pool.walk.induct generalizing m with
  | case1 pool =>
    rw [Pool.topmost, Pool.walk]
    simp
  | case2 pool n names none ih =>
    have closed' : p.Closed pool names := fun c leads => closed c (leadTo_cons.2 (.inr leads))
    rw [(Pool.topmost_of_not_found names none).1, (Pool.walk_of_not_found names none).1]
    exact ih within closed'
  | case3 pool n names c found _ above _ ih ih' =>
    let pool₁ := Pool.without pool n
    let met₁ := (Pool.walk pool₁ c.supertypeNames).met
    let pool₂ := (Pool.walk pool₁ c.supertypeNames).rest
    let met₂ := (Pool.walk pool₂ names).met
    have fewer : pool₁ ⊆ p.classes := List.Subset.trans (Pool.without_subset _ _) within
    have fewer' : pool₂ ⊆ p.classes := List.Subset.trans (Pool.rest_subset _ _) fewer
    have closed₁ : p.Closed pool₁ c.supertypeNames := closed.above acyclic within found
    have all : ∀ e, e ∈ met₁ ↔ e ∈ pool₁ ∧ p.Below c e := fun e => by
      rw [mem_met_iff acyclic fewer closed₁, leadTo_supertypeNames]
    have closed₂ : p.Closed pool₂ names := closed.behind within found all
    have below : ∀ e ∈ met₁, p.Below c e := fun e mem => ((all e).1 mem).2
    -- what is above the class is not met later
    have apart : ∀ e ∈ met₂, ¬p.Below c e := fun e mem below => by
      obtain ⟨inside, other⟩ := Pool.mem_rest_iff.1 (Pool.met_subset mem)
      exact other e ((all e).2 ⟨inside, below⟩) rfl
    have own : p.IsTopOf s (c :: (met₁ ++ met₂)) c ↔
        (Pool.topmost s pool₁ c.supertypeNames).classes = [] ∧ c.declares s = true := by
      rw [isTopOf_first below apart, Pool.topmost_eq_nil_iff, and_comm]
    have inner : ∀ e ∈ met₁, p.IsTopOf s (c :: (met₁ ++ met₂)) e ↔ p.IsTopOf s met₁ e := by
      intro e mem
      refine isTopOf_inner (fun eq => acyclic c (eq ▸ below e mem)) (fun f mem' above => ?_) ?_
      · exact apart f mem' ((below e mem).trans above)
      · exact fun mem' => apart e mem' (below e mem)
    have outer : ∀ e ∈ met₂, p.IsTopOf s (c :: (met₁ ++ met₂)) e ↔ p.IsTopOf s met₂ e := by
      intro e mem
      refine isTopOf_outer (fun eq => ?_) fun mem' => apart e mem (below e mem')
      exact (Pool.mem_without.1 (Pool.rest_subset _ _ (Pool.met_subset mem))).2
        (eq ▸ (Pool.find?_eq_some found).2)
    rw [(Pool.topmost_of_find? names found).1, (Pool.walk_of_find? names found).1, List.mem_append,
      Pool.mem_orElse_iff, Pool.rest_topmost, ih fewer closed₁, ih' fewer' closed₂]
    simp only [List.mem_cons, List.mem_append, or_and_right, exists_or, exists_eq_left]
    rw [or_comm (a := ∃ e ∈ met₁, _), or_assoc]
    refine or_congr ?_ (or_congr ?_ ?_)
    · rw [own, and_comm (a := c.name = m), and_assoc, eq_comm (a := m)]
    · exact exists_congr fun e => and_congr_right fun mem => and_congr_right fun _ =>
        (inner e mem).symm
    · exact exists_congr fun e => and_congr_right fun mem => and_congr_right fun _ =>
        (outer e mem).symm

end Walk

/-- The classes above a class, in the order in which they are met. -/
def walk (p : Program) (c : ClassDef) : List ClassDef :=
  (Pool.walk (Pool.without p.classes c.name) c.supertypeNames).met

section Acyclic

variable (acyclic : p.Acyclic)
include acyclic

/-- A walk starts with all classes but the one that it starts from. -/
lemma Acyclic.closed (mem : c ∈ p.classes) :
    p.Closed (Pool.without p.classes c.name) c.supertypeNames := by
  intro d leads out
  have same : d.name = c.name := by
    by_contra ne
    exact out (Pool.mem_without.2 ⟨mem_of_leadTo leads, ne⟩)
  obtain rfl := eq_of_name_eq (mem_of_leadTo leads) mem same
  exact absurd (leadTo_supertypeNames.1 leads) (acyclic d)

/-- All classes above a class are met. -/
lemma Acyclic.mem_walk (mem : c ∈ p.classes) : e ∈ p.walk c ↔ p.Below c e := by
  rw [walk, mem_met_iff acyclic (Pool.without_subset _ _) (acyclic.closed mem),
    leadTo_supertypeNames,
    and_iff_right_iff_imp]
  intro below
  have meme : e ∈ p.classes := below.mem
  refine Pool.mem_without.2 ⟨meme, fun named => acyclic c ?_⟩
  rwa [eq_of_name_eq meme mem named] at below

/-- The search finds the declarations above a class behind which nothing is met that they override.
-/
lemma Acyclic.mem_topmostDeclarations (mem : c ∈ p.classes) {m : MethodRef} :
    m ∈ p.topmostDeclarations c s ↔
      ∃ e, p.Below c e ∧ p.IsTopOf s (p.walk c) e ∧ m = ⟨e.name, s⟩ := by
  rw [topmostDeclarations, List.mem_map]
  constructor
  · rintro ⟨n, found, rfl⟩
    obtain ⟨e, met, rfl, top⟩ :=
      (mem_topmost_iff acyclic (Pool.without_subset _ _) (acyclic.closed mem)).1 found
    exact ⟨e, (acyclic.mem_walk mem).1 met, top, rfl⟩
  · rintro ⟨e, below, top, rfl⟩
    exact ⟨e.name, (mem_topmost_iff acyclic (Pool.without_subset _ _) (acyclic.closed mem)).2
      ⟨e, (acyclic.mem_walk mem).2 below, rfl, top⟩, rfl⟩

/-- What holds of a class if it holds of all classes above it holds of every class. -/
lemma Acyclic.induction {P : ClassDef → Prop} (step : ∀ c, (∀ d, p.Below c d → P d) → P c)
    (c : ClassDef) : P c := by
  let above (d c : {c // c ∈ p.classes}) : Prop := p.Below c d
  have trans : IsTrans _ above := ⟨fun _ _ _ first second => second.trans first⟩
  have irrefl : Std.Irrefl above := ⟨fun c => acyclic c⟩
  have finite : Finite {c // c ∈ p.classes} := p.classes.finite_toSet
  have founded : WellFounded above := Finite.wellFounded_of_trans_of_irrefl above
  have declared : ∀ d : {c // c ∈ p.classes}, P d := fun d => founded.induction d fun d each =>
    step d fun e below =>
      each ⟨e, below.mem⟩ below
  exact step c fun d below => declared ⟨d, below.mem⟩

end Acyclic

/-- A declaration above a class that overrides nothing. -/
def Topmost (p : Program) (s : Signature) (c e : ClassDef) : Prop :=
  p.Overrides s c e ∧ ∀ f, ¬p.Overrides s e f

/-- The recursion for topmost declarations: those above each supertype, or its own if there are
none. -/
def IsTopmost (p : Program) (s : Signature) (T : ClassDef → ClassDef → Prop) : Prop :=
  ∀ c e, T c e ↔ ∃ d, p.Extends c d ∧
    (T d e ∨ (∀ f, ¬T d f) ∧ d.declares s = true ∧ e = d)

/-- Whether a class meets every declaration above it that overrides something before one of those
that it overrides. -/
def MeetsInTime (p : Program) (s : Signature) (c : ClassDef) : Prop :=
  ∀ e, p.Overrides s c e → (∃ f, p.Overrides s e f) →
    ∃ f, p.Overrides s e f ∧ [e, f].Sublist (p.walk c)

section Topmost

variable (acyclic : p.Acyclic)
include acyclic

/-- What overrides something overrides a topmost declaration. -/
lemma Acyclic.exists_topmost (overrides : p.Overrides s c d) : ∃ e, p.Topmost s c e := by
  induction d using acyclic.induction with
  | step d ih =>
    by_cases top : ∃ f, p.Overrides s d f
    · obtain ⟨f, below, declares⟩ := top
      exact ih f below ⟨overrides.1.trans below, declares⟩
    · exact ⟨d, overrides, fun f above => top ⟨f, above⟩⟩

/-- In an acyclic hierarchy the topmost declarations are those that override nothing. -/
lemma Acyclic.topmost_isTopmost : p.IsTopmost s (p.Topmost s) := by
  intro c e
  constructor
  · rintro ⟨⟨below, declares⟩, top⟩
    obtain ⟨d, link, path⟩ := Relation.TransGen.head'_iff.1 below
    refine ⟨d, link, ?_⟩
    rcases Relation.reflTransGen_iff_eq_or_transGen.1 path with rfl | below
    · exact .inr ⟨fun f above => top f above.1, declares, rfl⟩
    · exact .inl ⟨⟨below, declares⟩, top⟩
  · rintro ⟨d, link, ⟨⟨below, declares⟩, top⟩ | ⟨none, declares, rfl⟩⟩
    · exact ⟨⟨.head link below, declares⟩, top⟩
    · refine ⟨⟨.single link, declares⟩, fun f overrides => ?_⟩
      obtain ⟨g, above⟩ := acyclic.exists_topmost overrides
      exact none g above

/-- The recursion has one solution. -/
lemma Acyclic.isTopmost_iff {T : ClassDef → ClassDef → Prop} :
    p.IsTopmost s T ↔ T = p.Topmost s := by
  constructor
  · intro recursive
    funext c
    induction c using acyclic.induction with
    | step c ih =>
      funext e
      rw [recursive c e, acyclic.topmost_isTopmost c e]
      refine propext (exists_congr fun d => and_congr_right fun link => ?_)
      rw [ih d (.single link)]
  · rintro rfl
    exact acyclic.topmost_isTopmost

/-- All topmost declarations are found. -/
lemma Acyclic.topmost_subset (mem : c ∈ p.classes) (top : p.Topmost s c e) :
    ⟨e.name, s⟩ ∈ p.topmostDeclarations c s :=
  (acyclic.mem_topmostDeclarations mem).2
    ⟨e, top.1.1, ⟨top.1.2, fun f overrides => absurd overrides (top.2 f)⟩, rfl⟩

/-- Nothing is found just where nothing is topmost. -/
lemma Acyclic.topmostDeclarations_eq_nil_iff (mem : c ∈ p.classes) :
    p.topmostDeclarations c s = [] ↔ ∀ e, ¬p.Topmost s c e := by
  rw [List.eq_nil_iff_forall_not_mem]
  constructor
  · intro none e top
    exact none _ (acyclic.topmost_subset mem top)
  · intro none m found
    obtain ⟨e, below, top, rfl⟩ := (acyclic.mem_topmostDeclarations mem).1 found
    obtain ⟨f, topmost⟩ := acyclic.exists_topmost ⟨below, top.1⟩
    exact none f topmost

/-- Nothing more than the topmost declarations is found if the declarations above them are met
before those which they override. -/
lemma Acyclic.topmostDeclarations_iff (mem : c ∈ p.classes) :
    (∀ m, m ∈ p.topmostDeclarations c s ↔ ∃ e, p.Topmost s c e ∧ m = ⟨e.name, s⟩) ↔
      p.MeetsInTime s c := by
  constructor
  · intro precise e overrides above
    by_contra none
    have top : p.IsTopOf s (p.walk c) e :=
      ⟨overrides.2, fun f covers later => none ⟨f, covers, later⟩⟩
    obtain ⟨e', top', eq⟩ :=
      (precise _).1 ((acyclic.mem_topmostDeclarations mem).2 ⟨e, overrides.1, top, rfl⟩)
    have same : e = e' := eq_of_name_eq overrides.1.mem
      top'.1.1.mem (congrArg MethodRef.className eq)
    obtain ⟨f, covers⟩ := above
    exact top'.2 f (same ▸ covers)
  · intro inTime m
    constructor
    · intro found
      obtain ⟨e, below, top, rfl⟩ := (acyclic.mem_topmostDeclarations mem).1 found
      refine ⟨e, ⟨⟨below, top.1⟩, fun f covers => ?_⟩, rfl⟩
      obtain ⟨f', covers', later⟩ := inTime e ⟨below, top.1⟩ ⟨f, covers⟩
      exact top.2 f' covers' later
    · rintro ⟨e, top, rfl⟩
      exact acyclic.topmost_subset mem top

end Topmost

end Program

end ObjectBackend
