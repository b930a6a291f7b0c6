import ObjectBackend.Objects.Dispatch
import ObjectBackend.Objects.Layout
import ObjectBackend.Proofs.Hierarchy.ParentChain

/-!
# Rearranged programs

Programs with the same classes in different orders (`Program.Rearranged`). A walk only asks which
class has a name, and since names differ, the order of a pool does not matter to the answer; a walk
leaves the same names out of either pool. So everything that is looked up or resolved in a program
is the same in a rearranged one, and its classes are sorted into the same list.
-/

namespace List

variable {α : Type} {le : α → α → Bool} {xs ys : List α}

/-- Rearranged elements are sorted into the same list, unless two of them are equivalent. -/
lemma Perm.mergeSort_eq (perm : xs.Perm ys)
    (trans : ∀ a b c, le a b = true → le b c = true → le a c = true)
    (total : ∀ a b, (le a b || le b a) = true)
    (antisymm : ∀ a b, a ∈ xs → b ∈ xs → le a b = true → le b a = true → a = b) :
    xs.mergeSort le = ys.mergeSort le := by
  refine Perm.eq_of_pairwise ?_ (pairwise_mergeSort trans total xs)
    (pairwise_mergeSort trans total ys) ?_
  · intro a b mema memb
    exact antisymm a b (mem_mergeSort.1 mema) (perm.mem_iff.2 (mem_mergeSort.1 memb))
  · exact (mergeSort_perm xs le).trans (perm.trans (mergeSort_perm ys le).symm)

end List

namespace ObjectBackend

namespace Pool

variable {pool pool' : List ClassDef} {n : String} {c : ClassDef}

/-- Two pools with the same classes, which have different names. -/
structure Rearranged (pool pool' : List ClassDef) : Prop where
  perm : pool.Perm pool'
  nodup : (pool.map (·.name)).Nodup

variable {s : Signature}

/-- A name that is not found is passed over by the search for topmost declarations. -/
lemma topmost_of_not_found (names : List String) (none : find? pool n = none) :
    (topmost s pool (n :: names)).classes = (topmost s pool names).classes ∧
      (topmost s pool (n :: names)).rest = (topmost s pool names).rest := by
  rw [topmost]
  split
  case h_1 => exact ⟨rfl, rfl⟩
  case h_2 c found =>
    rw [none] at found
    cases found

/-- A class that is drawn counts if nothing above it does; the rest of the names draw from what is
left. -/
lemma topmost_of_find? (names : List String) (found : find? pool n = some c) :
    (topmost s pool (n :: names)).classes =
        (if (topmost s (without pool n) c.supertypeNames).classes.isEmpty && c.declares s then
          [c.name] else (topmost s (without pool n) c.supertypeNames).classes)
        ++ (topmost s (topmost s (without pool n) c.supertypeNames).rest names).classes ∧
      (topmost s pool (n :: names)).rest =
        (topmost s (topmost s (without pool n) c.supertypeNames).rest names).rest := by
  rw [topmost]
  split
  case h_1 none =>
    rw [none] at found
    cases found
  case h_2 c' found' =>
    obtain rfl := Option.some.inj (found.symm.trans found')
    exact ⟨rfl, rfl⟩

namespace Rearranged

/-- The same class is found in rearranged pools. -/
lemma find?_eq (same : Rearranged pool pool') (n : String) : find? pool' n = find? pool n := by
  -- a pool is the classes of a program
  let p : Program := { classes := pool, entryPoint := none, nodup := same.nodup }
  let q : Program :=
    { classes := pool', entryPoint := none, nodup := (same.perm.map _).nodup_iff.1 same.nodup }
  have lookup (c : ClassDef) : q.lookup? n = some c ↔ p.lookup? n = some c := by
    rw [Program.lookup?_eq_some_iff, Program.lookup?_eq_some_iff, same.perm.mem_iff]
  exact Option.ext lookup

/-- Rearranged pools stay so without a name. -/
lemma without (same : Rearranged pool pool') (n : String) :
    Rearranged (without pool n) (without pool' n) where
  perm := same.perm.filter _
  nodup := same.nodup.sublist (List.filter_sublist.map _)

/-- A parent chain does not depend on the order of the pool. -/
lemma chain_eq (same : Rearranged pool pool') (n : String) : chain pool' n = chain pool n := by
  fun_induction chain pool n generalizing pool' with
  | case1 pool n none => exact chain_of_not_found ((same.find?_eq n).trans none)
  | case2 pool n c found root =>
    rw [chain_of_find? ((same.find?_eq n).trans found), root]
    rfl
  | case3 pool n c found parent link ih =>
    rw [chain_of_find? ((same.find?_eq n).trans found), link, Option.elim_some,
      ih (same.without n)]

/-- What is reached through interface lists does not depend on the order of the pool. -/
lemma reach_eq (same : Rearranged pool pool') (queue : List String) :
    reach pool' queue = reach pool queue := by
  fun_induction reach pool queue generalizing pool' with
  | case1 => rw [reach]
  | case2 pool n queue none ih =>
    rw [reach]
    split
    case h_1 => exact ih same
    case h_2 c found =>
      rw [same.find?_eq, none] at found
      cases found
  | case3 pool n queue c found ih =>
    rw [reach]
    split
    case h_1 none =>
      rw [same.find?_eq, found] at none
      cases none
    case h_2 c' found' =>
      rw [same.find?_eq, found] at found'
      obtain rfl := Option.some.inj found'
      rw [ih (same.without n)]

/-- The topmost declarations do not depend on the order of the pool, and what is left of it is
rearranged. -/
lemma topmost_eq (same : Rearranged pool pool') (s : Signature) (names : List String) :
    (topmost s pool' names).classes = (topmost s pool names).classes ∧
      Rearranged (topmost s pool names).rest (topmost s pool' names).rest := by
  induction pool, names using topmost.induct s generalizing pool' with
  | case1 pool =>
    rw [topmost, topmost]
    exact ⟨rfl, same⟩
  | case2 pool n names none ih =>
    obtain ⟨classes, rest⟩ := topmost_of_not_found names none (s := s)
    obtain ⟨classes', rest'⟩ := topmost_of_not_found names ((same.find?_eq n).trans none) (s := s)
    rw [classes, rest, classes', rest']
    exact ih same
  | case3 pool n names c found shorter above fewer ih ih' =>
    obtain ⟨classes, rest⟩ := topmost_of_find? names found (s := s)
    obtain ⟨classes', rest'⟩ := topmost_of_find? names ((same.find?_eq n).trans found) (s := s)
    obtain ⟨first, left⟩ := ih (same.without n)
    obtain ⟨second, left'⟩ := ih' left
    rw [classes, rest, classes', rest', first, second]
    exact ⟨rfl, left'⟩

end Rearranged

end Pool

namespace Program

variable {p q : Program} {c : ClassDef}

/-- Programs with the same classes, in any order, and the same entry point. -/
structure Rearranged (p q : Program) : Prop where
  classes : p.classes.Perm q.classes
  entryPoint : q.entryPoint = p.entryPoint

namespace Rearranged

variable (same : Rearranged p q)
include same

/-- A program is a rearrangement of those that rearrange it. -/
lemma symm : Rearranged q p where
  classes := same.classes.symm
  entryPoint := same.entryPoint.symm

/-- The classes of rearranged programs are rearranged pools. -/
lemma pool : Pool.Rearranged p.classes q.classes :=
  ⟨same.classes, p.nodup⟩

/-- Rearranged programs find the same classes by name. -/
lemma lookup? : q.lookup? = p.lookup? :=
  funext same.pool.find?_eq

/-- Rearranged programs have the same ancestors. -/
lemma ancestors : q.ancestors = p.ancestors :=
  funext same.pool.chain_eq

/-- Rearranged programs have the same interfaces. -/
lemma allInterfaces : q.allInterfaces = p.allInterfaces := by
  funext n
  rw [Program.allInterfaces, Program.allInterfaces, same.ancestors, same.pool.reach_eq]

/-- Rearranged programs have the same subtypes. -/
lemma isSubtype : q.isSubtype = p.isSubtype := by
  funext sub sup
  rw [Program.isSubtype, Program.isSubtype, same.ancestors, same.allInterfaces]

/-- Rearranged programs find the same fields. -/
lemma resolveField? : q.resolveField? = p.resolveField? := by
  funext f
  rw [Program.resolveField?, Program.resolveField?, same.ancestors]

/-- Rearranged programs find the same methods. -/
lemma resolveMethod? : q.resolveMethod? = p.resolveMethod? := by
  funext m
  rw [Program.resolveMethod?, Program.resolveMethod?, same.ancestors, same.allInterfaces]

/-- Rearranged programs find the same implementations. -/
lemma implementation? : q.implementation? = p.implementation? := by
  funext n s
  rw [Program.implementation?, Program.implementation?, same.ancestors]

/-- Rearranged programs need the same initializations. -/
lemma needsInitialization : q.needsInitialization = p.needsInitialization := by
  funext n
  rw [Program.needsInitialization, Program.needsInitialization, same.ancestors]

/-- Rearranged programs have the same layouts. -/
lemma layout? : q.layout? = p.layout? := by
  funext n
  rw [Program.layout?, Program.layout?, same.lookup?, same.ancestors]

/-- Rearranged programs find fields at the same places. -/
lemma fieldSlot? : q.fieldSlot? = p.fieldSlot? := by
  funext f
  rw [Program.fieldSlot?, Program.fieldSlot?, same.layout?]

/-- Rearranged programs have the same topmost declarations. -/
lemma topmostDeclarations : q.topmostDeclarations = p.topmostDeclarations := by
  funext c s
  rw [Program.topmostDeclarations, Program.topmostDeclarations,
    ((same.pool.without c.name).topmost_eq s c.supertypeNames).1]

/-- Classes are sorted by their names, which differ. -/
lemma sortedClasses : q.sortedClasses = p.sortedClasses := by
  refine (same.classes.mergeSort_eq ?_ ?_ ?_).symm
  · intro a b c ab bc
    rw [decide_eq_true_eq] at *
    exact String.le_trans ab bc
  · intro a b
    rw [Bool.or_eq_true, decide_eq_true_eq, decide_eq_true_eq]
    exact String.le_total ..
  · intro a b mema memb ab ba
    rw [decide_eq_true_eq] at ab ba
    exact eq_of_name_eq mema memb (String.le_antisymm ab ba)

end Rearranged

end Program

end ObjectBackend
