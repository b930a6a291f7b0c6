import Mathlib.Data.Int.ConditionallyCompleteOrder
import Mathlib.Data.Set.Card
import ObjectBackend.Backend.Basic
import ObjectBackend.Proofs.Hierarchy.LineEnds
import ObjectBackend.Proofs.Objects.TypeTag

/-!
# Tags are given to forests

A program has tags just if every line of descent ends at a root, so that its classes are a forest
(`TagMap.accepts_forests`). The tags number the classes without gaps, since they are places in the
sorted list of all lines, and a class's range is as long as there are classes that descend from it,
since their lines are those that go on from its own.
-/

namespace ObjectBackend

/-- How often something holds in a list without repetitions. -/
lemma countP_eq_ncard {α : Type} [DecidableEq α] {xs : List α} (nodup : xs.Nodup) (q : α → Bool) :
    xs.countP q = {x | x ∈ xs ∧ q x = true}.ncard := by
  have set : {x | x ∈ xs ∧ q x = true} = ↑(xs.filter q).toFinset := by
    ext x
    simp
  rw [set, Set.ncard_coe_finset, List.toFinset_card_of_nodup (nodup.filter q),
    List.countP_eq_length_filter]

/-- The classes that descend from a class, and the class itself. -/
def Program.descendants (p : Program) (c : ClassDef) : Set ClassDef :=
  {d | d ∈ p.concreteClasses ∧ Relation.ReflTransGen p.IsParent d c}

namespace TagMap

variable {p : Program} {t : TagMap} {c : ClassDef}

/-- No two lines are the same. -/
lemma lines_nodup (p : Program) : (lines p).Nodup := (lines_sorted p).imp fun less => less.ne

/-- There are as many lines of descent as tags. -/
lemma length_lines (built : ofProgram p = .ok t) : (lines p).length = t.count := by
  rw [eq_of_ofProgram built, lines, List.length_mergeSort, List.length_map]

/-- The tag of a class is the place of its line of descent. -/
lemma tag?_of_mem (built : ofProgram p = .ok t) (mem : c ∈ p.concreteClasses) :
    t.tag? c.name = some ((lines p).idxOf (p.descent c.name) : Int) := by
  rw [tag?, classRange?_of_mem built mem]
  rfl

/-- The tags of the classes are the numbers below their count. -/
lemma bijOn_tag? (built : ofProgram p = .ok t) :
    Set.BijOn (fun c => t.tag? c.name) {c | c ∈ p.concreteClasses}
      (some '' Set.Ico 0 (t.count : Int)) := by
  refine ⟨fun c mem => ?_, fun c memc d memd same => ?_, ?_⟩
  · have place := List.idxOf_lt_length_of_mem (mem_lines mem)
    rw [length_lines built] at place
    exact ⟨_, ⟨Int.natCast_nonneg _, Int.ofNat_lt.2 place⟩, (tag?_of_mem built mem).symm⟩
  · have places : some ((lines p).idxOf (p.descent c.name) : Int) =
        some ((lines p).idxOf (p.descent d.name) : Int) := by
      rw [← tag?_of_mem built memc, ← tag?_of_mem built memd]
      exact same
    have place := Int.ofNat_inj.1 (Option.some.inj places)
    exact Program.eq_of_descent_eq (Program.concreteClasses_subset memc)
      (Program.concreteClasses_subset memd) ((List.idxOf_inj (mem_lines memc)).1 place)
  · rintro _ ⟨i, ⟨least, less⟩, rfl⟩
    obtain ⟨k, rfl⟩ := Int.eq_ofNat_of_zero_le least
    have bound : k < (lines p).length := by
      rw [length_lines built]
      exact Int.ofNat_lt.1 less
    obtain ⟨c, mem, line⟩ := List.mem_map.1 (List.mem_mergeSort.1 (List.getElem_mem bound))
    refine ⟨c, mem, (tag?_of_mem built mem).trans ?_⟩
    rw [line, (lines_nodup p).idxOf_getElem]

/-- As many lines go on from that of a class as there are classes that descend from it. -/
lemma countP_lines (built : ofProgram p = .ok t) (mem : c ∈ p.concreteClasses) :
    (lines p).countP (p.descent c.name).isPrefixOf = (p.descendants c).ncard := by
  have nodup : p.concreteClasses.Nodup := (p.nodup.of_map _).filter _
  rw [lines, (List.mergeSort_perm ..).countP_eq, List.countP_map, countP_eq_ncard nodup]
  congr 1
  ext d
  refine and_congr_right fun memd => ?_
  have declared := Program.concreteClasses_subset memd
  rw [Function.comp_apply, List.isPrefixOf_iff_prefix,
    Program.isPrefix_descent_iff (Program.concreteClasses_subset mem)
      (grounded_of_ofProgram built memd), Program.mem_ancestors]
  constructor
  · rintro ⟨d', found, path⟩
    obtain rfl := Option.some.inj (found.symm.trans (Program.lookup?_of_mem declared))
    exact path
  · exact fun path => ⟨d, Program.lookup?_of_mem declared, path⟩

/-- There are tags just if every line of descent ends at a root. -/
lemma exists_ofProgram_iff :
    (∃ t, ofProgram p = .ok t) ↔ ∀ c ∈ p.concreteClasses, p.Rooted c := by
  constructor
  · rintro ⟨t, built⟩ c mem
    exact (grounded_of_ofProgram built mem).rooted
  · exact fun rooted => exists_ofProgram fun c mem => (Program.isGrounded_iff mem).2 (rooted c mem)

/-- The class without a tag that is named: the first one whose line does not end at a root. -/
lemma exists_of_ofProgram {n : String} {fault : HierarchyFault}
    (failed : ofProgram p = .error (n, fault)) :
    ∃ before c after, p.classes = before ++ c :: after ∧ c ∈ p.concreteClasses ∧ c.name = n ∧
      p.hierarchyFault c = fault ∧ ¬p.Rooted c ∧
      ∀ d ∈ before, d.isInterface = false → p.Rooted d := by
  have fails : p.concreteClasses.mapM (rangeGiven p (.finished p)) = .error (n, fault) := by
    rw [ofProgram] at failed
    dsimp only at failed
    cases ranged : p.concreteClasses.mapM (rangeGiven p (.finished p)) with
    | error e =>
      rw [ranged] at failed
      cases failed
      rfl
    | ok classes =>
      rw [ranged] at failed
      cases failed
  obtain ⟨earlier, c, later, split, atFault, each⟩ := Except.exists_of_mapM_eq_error fails
  have mem : c ∈ p.concreteClasses := split ▸ List.mem_append_right _ (List.mem_cons_self ..)
  have broken : ¬p.Grounded c := by
    rw [← exists_rangeGiven_iff mem, atFault]
    rintro ⟨_, ⟨⟩⟩
  have named : c.name = n ∧ p.hierarchyFault c = fault := by
    rw [rangeGiven] at atFault
    split at atFault
    case h_1 => exact Prod.mk.inj (Except.error.inj atFault)
    case h_2 => cases atFault
  -- before the class in the program there are interfaces, and classes that come before it
  obtain ⟨front, back, classes, inFront, atBack⟩ := List.filter_eq_append_iff.1 split
  obtain ⟨interfaces, after, rfl, passed, -, -⟩ := List.filter_eq_cons_iff.1 atBack
  refine ⟨front ++ interfaces, c, after, by rw [classes, List.append_assoc], mem, named.1, named.2,
    ?_, fun d memd isClass => ?_⟩
  · rwa [← Program.isGrounded_iff mem, Program.Grounded.isGrounded_iff mem]
  · rcases List.mem_append.1 memd with memd | memd
    · have memd : d ∈ earlier := inFront ▸ List.mem_filter.2 ⟨memd, by simp [isClass]⟩
      have declared : d ∈ p.concreteClasses := split ▸ List.mem_append_left _ memd
      exact ((exists_rangeGiven_iff declared).1 (each d memd)).rooted
    · exact absurd isClass (by simpa using passed d memd)

/-- A program has tags just if the parents of every class lead through classes to a root. Then the
tags number the classes, nothing else has a tag, and the range of a class is as long as there are
classes that descend from it. If there are no tags, the first class in the program is named whose
parents do not lead to a root. -/
theorem accepts_forests (p : Program) :
    ((∃ t, ofProgram p = .ok t) ↔ ∀ c ∈ p.concreteClasses, p.Rooted c) ∧
    (∀ t, ofProgram p = .ok t →
      Set.BijOn (fun c => t.tag? c.name) {c | c ∈ p.concreteClasses}
        (some '' Set.Ico 0 (t.count : Int)) ∧
      (∀ n, (∀ c ∈ p.concreteClasses, c.name ≠ n) → t.tag? n = none) ∧
      ∀ c ∈ p.concreteClasses, ∃ r, t.classRange? c.name = some r ∧
        r.upper - r.lower = (p.descendants c).ncard) ∧
    (∀ n fault, ofProgram p = .error (n, fault) →
      (∃ before c after, p.classes = before ++ c :: after ∧ c.name = n ∧ c.isInterface = false ∧
        ¬p.Rooted c ∧ ∀ d ∈ before, d.isInterface = false → p.Rooted d) ∧
      ∀ settings, p.check = .ok () →
        Backend.ofProgram p settings = .error (.hierarchy n fault)) := by
  refine ⟨exists_ofProgram_iff, fun t built => ⟨bijOn_tag? built, ?_, ?_⟩, ?_⟩
  · intro n other
    rw [tag?, classRange?_eq_none built other]
    rfl
  · intro c mem
    refine ⟨_, classRange?_of_mem built mem, ?_⟩
    rw [← countP_lines built mem]
    exact add_sub_cancel_left ..
  · intro n fault failed
    obtain ⟨before, c, after, split, mem, named, _, broken, first⟩ := exists_of_ofProgram failed
    have isClass := (Program.mem_concreteClasses.1 mem).2
    refine ⟨⟨before, c, after, split, named, isClass, broken, first⟩, ?_⟩
    intro settings checked
    rw [Backend.ofProgram, checked, failed]
    rfl

end TagMap

end ObjectBackend
