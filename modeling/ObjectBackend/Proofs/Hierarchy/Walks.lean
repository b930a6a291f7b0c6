import Mathlib.Order.Lattice.Nat
import ObjectBackend.Proofs.Hierarchy.Interfaces
import ObjectBackend.Proofs.Simulation

/-!
# Walks through the hierarchy

What the two walks find on any graph of links, and in which order. The walk along parents takes the
longest line of descent on which no class is repeated: every such line is the beginning of it. The
walk through interface lists finds each class once, and one that more links are needed for is never
found before one that fewer suffice for (`Program.walks_exact`).

The second walk is also described as a loop over a queue that may hold names several times and that
is extended with every class that is found (`Program.searchStep?`). The loop ends: it turns once for
each name that is ever queued.
-/

namespace ObjectBackend

/-- A number of links of a relation leads from one thing to another one. -/
inductive LinksIn {α : Type} (r : α → α → Prop) : Nat → α → α → Prop where
  | refl {a : α} :
    LinksIn r 0 a a
  | head {a b c : α} {k : Nat} :
    r a b →
    LinksIn r k b c →
    LinksIn r (k + 1) a c

namespace LinksIn

variable {α : Type} {r r' : α → α → Prop} {a b c : α} {k : Nat}

/-- A chain of links is one of any links that are more. -/
lemma mono (more : ∀ a b, r a b → r' a b) (links : LinksIn r k a b) : LinksIn r' k a b := by
  induction links with
  | refl => exact .refl
  | head link _ ih => exact .head (more _ _ link) ih

/-- A chain of links can be continued. -/
lemma tail (links : LinksIn r k a b) (link : r b c) : LinksIn r (k + 1) a c := by
  induction links with
  | refl => exact .head link .refl
  | head first _ ih => exact .head first (ih link)

/-- One or more links are a path. -/
lemma exists_pos_iff : (∃ k, 0 < k ∧ LinksIn r k a b) ↔ Relation.TransGen r a b := by
  constructor
  · rintro ⟨k, positive, links⟩
    induction links with
    | refl => cases positive
    | @head _ _ _ k link rest ih =>
      cases rest with
      | refl => exact .single link
      | head => exact .head link (ih (Nat.succ_pos _))
  · intro path
    induction path with
    | single link => exact ⟨1, Nat.one_pos, .head link .refl⟩
    | tail _ link ih =>
      obtain ⟨k, _, links⟩ := ih
      exact ⟨k + 1, Nat.succ_pos k, links.tail link⟩

end LinksIn

namespace Pool

variable {pool : List ClassDef} {c d e : ClassDef} {m n : String} {queue : List String}

/-- What is found by a name has the name. -/
lemma name_of_find? (found : find? pool n = some c) : c.name = n := by
  simpa using List.find?_some found

/-- Without a name, no class has it. -/
lemma name_ne_of_mem_without (mem : d ∈ without pool n) : d.name ≠ n := by
  simpa using (List.mem_filter.1 mem).2

section Lines

/-- A sequence of classes that starts at a name and follows parent names without coming to a name
again. -/
structure IsLine (pool : List ClassDef) (n : String) (line : List ClassDef) : Prop where
  starts : ∀ c ∈ line.head?, find? pool n = some c
  follows : line.IsChain (IsParent pool)
  nodup : (line.map (·.name)).Nodup

/-- A parent within a smaller pool is a parent. -/
lemma IsParent.of_without (link : IsParent (without pool n) c d) : IsParent pool c d := by
  obtain ⟨parent, named, found⟩ := link
  exact ⟨parent, named, find?_of_without found⟩

/-- A chain takes its classes from the pool. -/
lemma mem_of_mem_chain (mem : d ∈ chain pool n) : d ∈ pool := by
  obtain ⟨c, found, steps⟩ := exists_of_mem_chain mem
  cases steps with
  | refl => exact List.mem_of_find?_eq_some found
  | tail _ link =>
    obtain ⟨_, _, found⟩ := link
    exact List.mem_of_find?_eq_some found

/-- A chain is a line. -/
lemma chain_isLine (pool : List ClassDef) (n : String) : IsLine pool n (chain pool n) := by
  fun_induction chain pool n with
  | case1 pool n => exact ⟨fun _ mem => (Option.not_mem_none _ mem).elim, .nil, List.nodup_nil⟩
  | case2 pool n c found =>
    exact ⟨fun d mem => Option.mem_some.1 mem ▸ found, .singleton c, List.nodup_singleton _⟩
  | case3 pool n c found parent named ih =>
    refine ⟨fun d mem => Option.mem_some.1 mem ▸ found, ?_, ?_⟩
    · refine List.isChain_cons.2 ⟨fun d mem => ?_, ih.follows.imp fun _ _ => IsParent.of_without⟩
      exact ⟨parent, named, find?_of_without (ih.starts d mem)⟩
    · refine List.nodup_cons.2 ⟨fun again => ?_, ih.nodup⟩
      obtain ⟨d, mem, same⟩ := List.mem_map.1 again
      exact name_ne_of_mem_without (mem_of_mem_chain mem) (same.trans (name_of_find? found))

/-- What follows the first class of a line is a line that does without this class. -/
lemma IsLine.tail {line : List ClassDef} {parent : String} (isLine : IsLine pool n (c :: line))
    (named : c.parentName = some parent) : IsLine (without pool n) parent line := by
  have start : c.name = n := name_of_find? (isLine.starts c rfl)
  have new : ∀ d ∈ line, d.name ≠ n := fun d mem same =>
    (List.nodup_cons.1 isLine.nodup).1 (List.mem_map.2 ⟨d, mem, same.trans start.symm⟩)
  have kept : ∀ {q : String} {d : ClassDef}, d ∈ line → find? pool q = some d →
      find? (without pool n) q = some d := by
    intro q d mem found
    rwa [find?_without_of_ne (name_of_find? found ▸ new d mem)]
  obtain ⟨first, follows⟩ := List.isChain_cons.1 isLine.follows
  refine ⟨fun d mem => ?_, ?_, (List.nodup_cons.1 isLine.nodup).2⟩
  · obtain ⟨q, named', found⟩ := first d mem
    obtain rfl := Option.some.inj (named.symm.trans named')
    exact kept (List.mem_of_mem_head? mem) found
  · refine follows.imp_of_mem_imp fun d e _ meme link => ?_
    obtain ⟨q, named', found⟩ := link
    exact ⟨q, named', kept meme found⟩

/-- Every line is the beginning of the chain. -/
lemma IsLine.prefix_chain {line : List ClassDef} (isLine : IsLine pool n line) :
    line <+: chain pool n := by
  fun_induction chain pool n generalizing line with
  | case1 pool n none =>
    cases line with
    | nil => exact List.nil_prefix
    | cons d line => cases none.symm.trans (isLine.starts d rfl)
  | case2 pool n c found root =>
    cases line with
    | nil => exact List.nil_prefix
    | cons d line =>
      obtain rfl := Option.some.inj (found.symm.trans (isLine.starts d rfl))
      cases line with
      | nil => exact List.prefix_rfl
      | cons e line =>
        obtain ⟨parent, named, _⟩ := (List.isChain_cons_cons.1 isLine.follows).1
        cases root.symm.trans named
  | case3 pool n c found parent named ih =>
    cases line with
    | nil => exact List.nil_prefix
    | cons d line =>
      obtain rfl := Option.some.inj (found.symm.trans (isLine.starts d rfl))
      exact (List.prefix_cons_inj c).2 (ih (isLine.tail named))

end Lines

section Reaching

/-- What is reached is taken from the pool. -/
lemma mem_of_mem_reach (mem : d ∈ reach pool queue) : d ∈ pool := by
  obtain ⟨_, _, c, found, steps⟩ := exists_of_mem_reach mem
  cases steps with
  | refl => exact List.mem_of_find?_eq_some found
  | tail _ link =>
    obtain ⟨_, _, found⟩ := link
    exact List.mem_of_find?_eq_some found

/-- Nothing is reached twice. -/
lemma nodup_reach (pool : List ClassDef) (queue : List String) : (reach pool queue).Nodup := by
  fun_induction reach pool queue with
  | case1 => exact List.nodup_nil
  | case2 pool n queue none ih => exact ih
  | case3 pool n queue c found ih =>
    refine List.nodup_cons.2 ⟨fun mem => ?_, ih⟩
    exact name_ne_of_mem_without (mem_of_mem_reach mem) (name_of_find? found)

/-- From a queue whose names are numbered, a class is come to with a number: that of a name, and one
more for each link that follows. -/
def Reaches (pool : List ClassDef) (queue : List (String × Nat)) (k : Nat) (e : ClassDef) : Prop :=
  ∃ entry ∈ queue, ∃ d j, find? pool entry.1 = some d ∧ LinksIn (Lists pool) j d e ∧
    entry.2 + j = k

/-- The numbers of a queue rise, and by no more than one. -/
def Levelled (queue : List (String × Nat)) : Prop :=
  queue.Pairwise fun first later => first.2 ≤ later.2 ∧ later.2 ≤ first.2 + 1

/-- Links to another class either avoid a class, or some of them lead on from what it lists. -/
lemma links_avoid_or_pass {j : Nat} (found : find? pool n = some c) (foundd : find? pool m = some d)
    (links : LinksIn (Lists pool) j d e) (other : e ≠ c) :
    (find? (without pool n) m = some d ∧ LinksIn (Lists (without pool n)) j d e) ∨
      ∃ q ∈ c.interfaces, ∃ d' i, find? (without pool n) q = some d' ∧
        LinksIn (Lists (without pool n)) i d' e ∧ i + 1 ≤ j := by
  have kept : ∀ {q : String} {d : ClassDef}, find? pool q = some d → d ≠ c →
      find? (without pool n) q = some d := by
    intro q d foundd other
    rwa [find?_without_of_ne]
    rintro rfl
    exact other (Option.some.inj (foundd.symm.trans found))
  induction links generalizing m with
  | refl => exact .inl ⟨kept foundd other, .refl⟩
  | @head d b e j link rest ih =>
    obtain ⟨q, listed, foundb⟩ := link
    rcases ih foundb other with ⟨foundb', rest'⟩ | ⟨q', listed', d', i, found', rest', le⟩
    · by_cases same : d = c
      · subst same
        exact .inr ⟨q, listed, b, j, foundb', rest', Nat.le_refl _⟩
      · exact .inl ⟨kept foundd same, .head ⟨q, listed, foundb'⟩ rest'⟩
    · exact .inr ⟨q', listed', d', i, found', rest', Nat.le_succ_of_le le⟩

/-- The numbered queue behind a class that has been found. -/
def extended (queue : List (String × Nat)) (c : ClassDef) (k : Nat) : List (String × Nat) :=
  queue ++ c.interfaces.map (·, k + 1)

/-- The names of an extended queue are those of the queue and the interfaces of the class. -/
lemma map_extended (queue : List (String × Nat)) (c : ClassDef) (k : Nat) :
    (extended queue c k).map Prod.fst = queue.map Prod.fst ++ c.interfaces := by
  rw [extended, List.map_append, List.map_map, Function.comp_def, List.map_id']

variable {numbered : List (String × Nat)} {k l : Nat}

/-- A queue whose steps differ by one at most stays so when the interfaces of its first class
follow. -/
lemma Levelled.extended (levelled : Levelled ((n, k) :: numbered)) (c : ClassDef) :
    Levelled (extended numbered c k) := by
  obtain ⟨first, rest⟩ := List.pairwise_cons.1 levelled
  refine List.pairwise_append.2 ⟨rest, ?_, fun a mema b memb => ?_⟩
  · exact List.pairwise_map.2
      (List.pairwise_of_forall fun _ _ => ⟨Nat.le_refl _, Nat.le_succ _⟩)
  · obtain ⟨_, _, rfl⟩ := List.mem_map.1 memb
    exact ⟨(first a mema).2, Nat.succ_le_succ (first a mema).1⟩

/-- What is come to behind a class that has been found was come to before, with the same number. -/
lemma Reaches.of_extended (found : find? pool n = some c)
    (reaches : Reaches (without pool n) (extended numbered c k) l e) :
    Reaches pool ((n, k) :: numbered) l e := by
  obtain ⟨entry, queued, d, j, foundd, links, rfl⟩ := reaches
  have links : LinksIn (Lists pool) j d e := links.mono fun _ _ => Lists.of_without
  have foundd := find?_of_without foundd
  rcases List.mem_append.1 queued with queued | queued
  · exact ⟨entry, List.mem_cons_of_mem _ queued, d, j, foundd, links, rfl⟩
  · obtain ⟨q, listed, rfl⟩ := List.mem_map.1 queued
    exact ⟨(n, k), List.mem_cons_self .., c, j + 1, found, .head ⟨q, listed, foundd⟩ links,
      by simp only; omega⟩

/-- Another class than the one found is still come to, with a number that is not greater. -/
lemma Reaches.exists_extended (levelled : Levelled ((n, k) :: numbered))
    (found : find? pool n = some c) (reaches : Reaches pool ((n, k) :: numbered) l e)
    (other : e ≠ c) : ∃ l' ≤ l, Reaches (without pool n) (extended numbered c k) l' e := by
  obtain ⟨entry, queued, d, j, foundd, links, rfl⟩ := reaches
  have least : k ≤ entry.2 := by
    cases queued with
    | head => exact Nat.le_refl _
    | tail _ queued => exact ((List.pairwise_cons.1 levelled).1 entry queued).1
  rcases links_avoid_or_pass found foundd links other with
    ⟨foundd', links'⟩ | ⟨q, listed, d', i, found', links', le⟩
  · refine ⟨entry.2 + j, Nat.le_refl _, entry, ?_, d, j, foundd', links', rfl⟩
    cases queued with
    | head =>
      rw [find?_without_self] at foundd'
      cases foundd'
    | tail _ queued => exact List.mem_append_left _ queued
  · refine ⟨k + 1 + i, by omega, (q, k + 1), ?_, d', i, found', links', rfl⟩
    exact List.mem_append_right _ (List.mem_map_of_mem listed)

/-- What is reached first is come to with numbers as small as any. -/
lemma reach_rises (pool : List ClassDef) (levelled : Levelled numbered) :
    (reach pool (numbered.map Prod.fst)).Pairwise fun d e =>
      ∀ l, Reaches pool numbered l e → ∃ k ≤ l, Reaches pool numbered k d := by
  generalize eq : numbered.map Prod.fst = queue
  fun_induction reach pool queue generalizing numbered with
  | case1 => exact .nil
  | case2 pool n queue none ih =>
    obtain ⟨⟨name, k⟩, rest, rfl, rfl, rfl⟩ := List.map_eq_cons_iff.1 eq
    -- a name that finds nothing leads nowhere
    have same (l : Nat) (e : ClassDef) :
        Reaches pool ((name, k) :: rest) l e ↔ Reaches pool rest l e := by
      constructor
      · rintro ⟨entry, queued, d, j, found, reaches⟩
        cases queued with
        | head => cases none.symm.trans found
        | tail _ queued => exact ⟨entry, queued, d, j, found, reaches⟩
      · rintro ⟨entry, queued, reaches⟩
        exact ⟨entry, List.mem_cons_of_mem _ queued, reaches⟩
    simp only [same]
    exact ih (List.pairwise_cons.1 levelled).2 rfl
  | case3 pool n queue c found ih =>
    obtain ⟨⟨_, k⟩, rest, rfl, rfl, rfl⟩ := List.map_eq_cons_iff.1 eq
    refine List.pairwise_cons.2 ⟨fun e _ l reaches => ?_, ?_⟩
    · -- all numbers are as great as that of the first name
      refine ⟨k, ?_, (_, k), List.mem_cons_self .., c, 0, found, .refl, rfl⟩
      obtain ⟨entry, queued, _, j, _, _, rfl⟩ := reaches
      cases queued with
      | head => exact Nat.le_add_right _ _
      | tail _ queued =>
        exact Nat.le_add_right_of_le ((List.pairwise_cons.1 levelled).1 entry queued).1
    · refine (ih (levelled.extended c) (map_extended rest c k)).imp_of_mem fun {d e} _ meme rises l
        reaches => ?_
      have other : e ≠ c := fun same =>
        name_ne_of_mem_without (mem_of_mem_reach meme) (same ▸ name_of_find? found)
      obtain ⟨l', le, reaches'⟩ := reaches.exists_extended levelled found other
      obtain ⟨i, le', reaches''⟩ := rises l' reaches'
      exact ⟨i, le'.trans le, reaches''.of_extended found⟩

end Reaching

end Pool

namespace Program

variable {p : Program} {c d e : ClassDef} {n : String}

/-- A sequence of declared classes that starts at a name and follows parent names without coming to
a name again. -/
structure IsLine (p : Program) (n : String) (line : List ClassDef) : Prop where
  starts : ∀ c ∈ line.head?, p.lookup? n = some c
  follows : line.IsChain p.IsParent
  nodup : (line.map (·.name)).Nodup

/-- The lengths of the non-empty chains of interface links from an ancestor of a name to a class. -/
def chainLengths (p : Program) (n : String) (e : ClassDef) : Set Nat :=
  {k | 0 < k ∧ ∃ c ∈ p.ancestors n, LinksIn p.Lists k c e}

/-- The interfaces of a class are those that some chain leads to. -/
lemma mem_allInterfaces_iff_nonempty : e ∈ p.allInterfaces n ↔ (p.chainLengths n e).Nonempty := by
  rw [mem_allInterfaces]
  constructor
  · rintro ⟨c, up, path⟩
    obtain ⟨k, positive, links⟩ := LinksIn.exists_pos_iff.2 path
    exact ⟨k, positive, c, up, links⟩
  · rintro ⟨k, positive, c, up, links⟩
    exact ⟨c, up, LinksIn.exists_pos_iff.1 ⟨k, positive, links⟩⟩

/-- The names that the walk through interface lists starts with. -/
def listedNames (p : Program) (n : String) : List String :=
  (p.ancestors n).flatMap (·.interfaces)

/-- The numbers that a class is come to with are the lengths of the chains to it. -/
lemma reaches_iff_mem_chainLengths {k : Nat} :
    Pool.Reaches p.classes ((p.listedNames n).map (·, 1)) k e ↔ k ∈ p.chainLengths n e := by
  constructor
  · rintro ⟨_, queued, d, j, found, links, rfl⟩
    obtain ⟨m, mem, rfl⟩ := List.mem_map.1 queued
    obtain ⟨c, up, listed⟩ := List.mem_flatMap.1 mem
    rw [Nat.add_comm]
    exact ⟨Nat.succ_pos j, c, up, .head ⟨m, listed, found⟩ links⟩
  · rintro ⟨positive, c, up, links⟩
    cases links with
    | refl => cases positive
    | @head _ d _ j link rest =>
      obtain ⟨m, listed, found⟩ := link
      exact ⟨(m, 1), List.mem_map_of_mem (List.mem_flatMap.2 ⟨c, up, listed⟩), d, j, found, rest,
        Nat.add_comm ..⟩

/-- What the walk finds first is not farther away than what it finds later. -/
lemma allInterfaces_rise :
    (p.allInterfaces n).Pairwise fun d e =>
      sInf (p.chainLengths n d) ≤ sInf (p.chainLengths n e) := by
  have levelled : Pool.Levelled ((p.listedNames n).map (·, 1)) :=
    List.pairwise_map.2 (List.pairwise_of_forall fun _ _ => ⟨Nat.le_refl _, Nat.le_succ _⟩)
  have rises := Pool.reach_rises p.classes levelled
  rw [List.map_map, Function.comp_def, List.map_id'] at rises
  refine rises.imp_of_mem fun {d e} _ meme rises => ?_
  have least : sInf (p.chainLengths n e) ∈ p.chainLengths n e :=
    Nat.sInf_mem (mem_allInterfaces_iff_nonempty.1 meme)
  obtain ⟨k, le, reaches⟩ := rises _ (reaches_iff_mem_chainLengths.2 least)
  exact (Nat.sInf_le (reaches_iff_mem_chainLengths.1 reaches)).trans le

/-- A search through interface lists: the classes that have been found, and the names that are
queued. -/
structure Search where
  found : List ClassDef
  queue : List String

/-- One turn of a search. A name that is not declared, or whose class has been found before, is
dropped. Otherwise the class is found, and what it lists is queued, whatever has been found before.
-/
def searchStep? (p : Program) : Search → Option Search
  | ⟨_, []⟩ => none
  | ⟨found, name :: queue⟩ =>
    match p.lookup? name with
    | none => some ⟨found, queue⟩
    | some c =>
      if found.any (·.name = c.name) then some ⟨found, queue⟩
      else some ⟨found ++ [c], queue ++ c.interfaces⟩

/-- A search whose pool holds the classes that have not been found finds what is reached, and turns
once for each name that is queued. -/
lemma search_reach {pool : List ClassDef} (found : List ClassDef) {queue : List String}
    (rest : ∀ name, Pool.find? pool name =
      if found.any (·.name = name) then none else p.lookup? name) :
    after? p.searchStep?
        (queue ++ (Pool.reach pool queue).flatMap (·.interfaces)).length ⟨found, queue⟩ =
      some ⟨found ++ Pool.reach pool queue, []⟩ := by
  fun_induction Pool.reach pool queue generalizing found with
  | case1 => rw [List.append_nil]; rfl
  | case2 pool name queue none ih =>
    have dropped : p.searchStep? ⟨found, name :: queue⟩ = some ⟨found, queue⟩ := by
      rw [searchStep?]
      cases declared : p.lookup? name with
      | none => rfl
      | some c =>
        have before : found.any (·.name = c.name) = true := by
          rw [(lookup?_eq_some_iff.1 declared).2]
          by_contra new
          rw [rest, if_neg new, declared] at none
          cases none
        exact if_pos before
    rw [List.cons_append, List.length_cons, after?, dropped]
    exact ih found rest
  | case3 pool name queue c here ih =>
    have name_eq := Pool.name_of_find? here
    rw [rest] at here
    split at here
    case isTrue => cases here
    case isFalse new =>
      have finds : p.searchStep? ⟨found, name :: queue⟩ =
          some ⟨found ++ [c], queue ++ c.interfaces⟩ := by
        rw [searchStep?, here]
        exact if_neg (name_eq ▸ new)
      have rest' : ∀ other, Pool.find? (Pool.without pool name) other =
          if (found ++ [c]).any (·.name = other) then none else p.lookup? other := by
        intro other
        by_cases same : other = name
        · rw [same, Pool.find?_without_self, if_pos]
          simp [name_eq]
        · have other_ne : c.name ≠ other := fun eq => same (eq.symm.trans name_eq)
          rw [Pool.find?_without_of_ne same, rest]
          simp [other_ne]
      rw [List.cons_append, List.length_cons, after?, finds, List.flatMap_cons,
        ← List.append_assoc]
      change after? p.searchStep? _ _ = _
      rw [ih (found ++ [c]) rest', List.append_assoc]
      rfl

/-- The walks through a hierarchy, whatever its links are. The ancestors of a name are a line of
descent without repetition, and every such line is a beginning of it. The search through interface
lists that starts with what the ancestors list comes to its end, after as many turns as there are
names in the lists of the ancestors and of what is found. It finds the classes that a non-empty
chain of links leads to from an ancestor, each of them once, and those with shorter chains first. -/
theorem walks_exact (p : Program) (n : String) :
    (p.IsLine n (p.ancestors n) ∧ ∀ line, p.IsLine n line → line <+: p.ancestors n) ∧
      after? p.searchStep? ((p.ancestors n ++ p.allInterfaces n).flatMap (·.interfaces)).length
          ⟨[], p.listedNames n⟩ = some ⟨p.allInterfaces n, []⟩ ∧
      p.searchStep? ⟨p.allInterfaces n, []⟩ = none ∧
      (p.allInterfaces n).Nodup ∧
      (∀ e, e ∈ p.allInterfaces n ↔ (p.chainLengths n e).Nonempty) ∧
      (p.allInterfaces n).Pairwise fun d e =>
        sInf (p.chainLengths n d) ≤ sInf (p.chainLengths n e) := by
  have longest : p.IsLine n (p.ancestors n) ∧ ∀ line, p.IsLine n line → line <+: p.ancestors n := by
    obtain ⟨starts, follows, nodup⟩ := Pool.chain_isLine p.classes n
    refine ⟨⟨starts, follows, nodup⟩, ?_⟩
    rintro line ⟨starts, follows, nodup⟩
    exact Pool.IsLine.prefix_chain ⟨starts, follows, nodup⟩
  refine ⟨longest, ?_, rfl, Pool.nodup_reach _ _, fun e => mem_allInterfaces_iff_nonempty,
    allInterfaces_rise⟩
  rw [List.flatMap_append]
  exact search_reach [] fun _ => rfl

end Program

end ObjectBackend
