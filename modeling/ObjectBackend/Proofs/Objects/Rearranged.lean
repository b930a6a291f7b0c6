import ObjectBackend.Proofs.Hierarchy.Rearranged
import ObjectBackend.Proofs.Objects.Dispatch
import ObjectBackend.Proofs.Objects.TypeTag

/-!
# Tags and tables of rearranged programs

Rearranged programs have the same dispatch tables, since classes are entered in an order of their
own. They have the same tags too: the tables of tags list the classes in program order, but what is
found under a name is the same (`TagMap.Agrees`), as tags are counted along sorted lines and the
ranges of an interface are sorted before they are fused.
-/

namespace ObjectBackend

variable {p q : Program}

/-- The ranges of an interface do not depend on the order of its implementors. -/
lemma TagRange.merge_eq {rs rs' : List TagRange} (perm : rs.Perm rs') : merge rs = merge rs' := by
  rw [merge, merge, perm.mergeSort_eq before_trans before_total fun a b _ _ => before_antisymm a b]

/-- What is tabulated for rearranged classes is found under the same names. -/
lemma Program.lookup_map_name_eq {α : Type} {cs ds : List ClassDef} (perm : cs.Perm ds)
    (declared : ∀ c ∈ cs, c ∈ p.classes) (f : ClassDef → α) (n : String) :
    (ds.map fun c => (c.name, f c)).lookup n = (cs.map fun c => (c.name, f c)).lookup n := by
  by_cases found : ∃ c ∈ cs, c.name = n
  · obtain ⟨c, mem, rfl⟩ := found
    have declared' : ∀ d ∈ ds, d ∈ p.classes := fun d mem => declared d (perm.mem_iff.2 mem)
    rw [lookup_map_name declared f mem, lookup_map_name declared' f (perm.mem_iff.1 mem)]
  · have other : ∀ c ∈ cs, c.name ≠ n := fun c mem eq => found ⟨c, mem, eq⟩
    rw [lookup_map_name_eq_none f other,
      lookup_map_name_eq_none f fun c mem => other c (perm.mem_iff.2 mem)]

namespace Program.Rearranged

variable (same : p.Rearranged q)
include same

/-- The concrete classes of rearranged programs are the same but for their order. -/
lemma concreteClasses : p.concreteClasses.Perm q.concreteClasses :=
  same.classes.filter _

/-- The interfaces of rearranged programs are the same but for their order. -/
lemma interfaces : p.interfaces.Perm q.interfaces :=
  same.classes.filter _

/-- The lines of descent in rearranged programs are the same. -/
lemma descent : q.descent = p.descent := by
  funext n
  rw [Program.descent, Program.descent, same.ancestors]

/-- The same classes are grounded in rearranged programs. -/
lemma isGrounded : q.isGrounded = p.isGrounded := by
  funext n
  rw [Program.isGrounded, Program.isGrounded, same.ancestors]

end Program.Rearranged

namespace TagMap

variable {t t' : TagMap}

/-- Two tables of tags in which the same is found. -/
structure Agrees (t t' : TagMap) : Prop where
  classRange? : t'.classRange? = t.classRange?
  ranges? : t'.ranges? = t.ranges?

/-- Tag maps that agree have the same tags. -/
lemma Agrees.tag? (agree : Agrees t t') : t'.tag? = t.tag? := by
  funext n
  rw [TagMap.tag?, TagMap.tag?, agree.classRange?]

/-- The lines of descent are sorted, and no two are equal. -/
lemma lines_eq (same : p.Rearranged q) : lines q = lines p := by
  refine List.Perm.eq_of_pairwise ?_ (lines_sorted q) (lines_sorted p) ?_
  · intro a b _ _ ab ba
    exact absurd ba (lt_asymm ab)
  · have perm := (same.concreteClasses.map fun c => p.descent c.name).symm
    rw [lines, lines, same.descent]
    exact (List.mergeSort_perm _ _).trans (perm.trans (List.mergeSort_perm _ _).symm)

/-- The ranges of the classes of rearranged programs are the same but for their order. -/
lemma classRanges_perm (same : p.Rearranged q) : (classRanges p).Perm (classRanges q) := by
  rw [classRanges, classRanges, lines_eq same, same.descent]
  exact same.concreteClasses.map _

/-- The ranges of the implementors in rearranged programs are the same but for their order. -/
lemma implementorRanges_perm (same : p.Rearranged q) (n : String) :
    (implementorRanges p (classRanges p) n).Perm (implementorRanges q (classRanges q) n) := by
  rw [implementorRanges, implementorRanges, same.allInterfaces]
  exact ((classRanges_perm same).filter _).map _

/-- Rearranged programs have the same tags, if they have some. -/
lemma exists_agrees (same : p.Rearranged q) (built : ofProgram p = .ok t) :
    ∃ t', ofProgram q = .ok t' ∧ Agrees t t' := by
  have grounded : ∀ c ∈ q.concreteClasses, q.isGrounded c.name = true := fun c mem => by
    rw [same.isGrounded]
    have mem := same.concreteClasses.mem_iff.2 mem
    exact (Program.Grounded.isGrounded_iff mem).2 (grounded_of_ofProgram built mem)
  obtain ⟨t', built'⟩ := exists_ofProgram grounded
  have classes : t'.classRange? = t.classRange? := by
    funext n
    rw [classRange?, classRange?, eq_of_ofProgram built, eq_of_ofProgram built', classRanges,
      classRanges, lines_eq same, same.descent]
    exact Program.lookup_map_name_eq same.concreteClasses
      (fun c mem => Program.concreteClasses_subset mem) _ n
  have interfaces (n : String) : t'.interfaces.lookup n = t.interfaces.lookup n := by
    have merged (n : String) := TagRange.merge_eq (implementorRanges_perm same n)
    simp only [eq_of_ofProgram built, eq_of_ofProgram built', ← merged]
    exact Program.lookup_map_name_eq same.interfaces (fun c mem => (List.mem_filter.1 mem).1) _ n
  refine ⟨t', built', classes, ?_⟩
  funext n
  rw [ranges?, ranges?, classes, interfaces]

end TagMap

namespace DispatchTables

/-- The classes of rearranged programs are entered in the same order. -/
lemma classOrder_of_rearranged (same : p.Rearranged q) : classOrder q = classOrder p := by
  have order : precedes q = precedes p := by
    funext a b
    rw [precedes, precedes, same.ancestors]
  rw [classOrder_eq, classOrder_eq, order]
  refine (same.concreteClasses.mergeSort_eq (precedes_trans p) (precedes_total p) ?_).symm
  -- classes of the same depth are ordered by name, and names differ within a program
  intro a b mema memb ab ba
  simp only [precedes, Bool.or_eq_true, Bool.and_eq_true, decide_eq_true_eq, beq_iff_eq] at ab ba
  have names : a.name = b.name := by
    rcases ab with ab | ⟨_, ab⟩
    · rcases ba with ba | ⟨ba, _⟩ <;> omega
    · rcases ba with ba | ⟨_, ba⟩
      · omega
      · exact String.le_antisymm ab ba
  exact Program.eq_of_name_eq (Program.concreteClasses_subset mema)
    (Program.concreteClasses_subset memb) names

/-- Rearranged programs have the same tables. -/
lemma ofProgram_of_rearranged (same : p.Rearranged q) : ofProgram q = ofProgram p := by
  have slots : addInterfaceSlots q = addInterfaceSlots p := by
    funext t ms
    rw [addInterfaceSlots, addInterfaceSlots, same.lookup?]
  have method : addClassMethod q = addClassMethod p := by
    funext c state m
    rw [addClassMethod, addClassMethod, same.topmostDeclarations, slots]
  have class' : addClass q = addClass p := by
    funext t c
    rw [addClass, addClass, method]
  have interface : addInterface q = addInterface p := by
    funext t c
    rw [addInterface, addInterface, same.topmostDeclarations, slots]
  rw [ofProgram, ofProgram, classOrder_of_rearranged same, same.sortedClasses, class', interface]

end DispatchTables

end ObjectBackend
