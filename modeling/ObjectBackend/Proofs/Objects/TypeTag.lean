import ObjectBackend.Objects.TypeTag
import ObjectBackend.Proofs.Hierarchy.Interfaces
import ObjectBackend.Proofs.Objects.CanonicalRanges
import ObjectBackend.Proofs.Objects.TagWalk

/-!
# Tags encode subtyping

The tags of a program decide its subtype relation (`tags_encode_subtyping`). A class is an ancestor
of another just if its line of descent begins the other's (`isPrefix_descent_iff`), and beginnings
of lines are what ranges tell. For an interface it matters that whoever inherits from an implementor
is an implementor too, so that the ranges of all implementors cover just the tags of all
implementors.
-/

namespace ObjectBackend

namespace TagMap

variable {p : Program} {t : TagMap} {c d : ClassDef}

/-- The ranges of all classes, in program order. -/
def classRanges (p : Program) : List (String × TagRange) :=
  p.concreteClasses.map fun c => (c.name, rangeOf (lines p) (p.descent c.name))

/-- A class has been given a range just if it is grounded. -/
lemma exists_rangeGiven_iff (mem : c ∈ p.concreteClasses) :
    (∃ entry, rangeGiven p (.finished p) c = .ok entry) ↔ p.Grounded c := by
  rw [← TagWalk.exists_range_iff mem, rangeGiven]
  cases (TagWalk.finished p).ranges.lookup c.name <;> simp

/-- If there are tags, every class is grounded. -/
lemma grounded_of_ofProgram (built : ofProgram p = .ok t) (mem : c ∈ p.concreteClasses) :
    p.Grounded c := by
  obtain ⟨classes, ranged, -⟩ := Except.exists_of_bind_eq_ok built
  obtain ⟨entry, -, given⟩ := Except.exists_mem_of_mapM_eq_ok ranged mem
  exact (exists_rangeGiven_iff mem).1 ⟨entry, given⟩

/-- If every class is grounded, each of them has the range of its line of descent. -/
lemma ofProgram_eq_ok (grounded : ∀ c ∈ p.concreteClasses, p.Grounded c) :
    ofProgram p = .ok
      { classes := classRanges p
        interfaces := p.interfaces.map fun c =>
          (c.name, TagRange.merge (implementorRanges p (classRanges p) c.name))
        count := p.concreteClasses.length } := by
  have ranged : p.concreteClasses.mapM (rangeGiven p (.finished p)) = .ok (classRanges p) := by
    refine Except.mapM_eq_ok fun c mem => ?_
    rw [rangeGiven, TagWalk.lookup_ranges grounded mem]
  rw [ofProgram, TagWalk.counter_finished grounded]
  dsimp only
  rw [ranged]
  rfl

/-- If every class is grounded, there are tags. -/
lemma exists_ofProgram (grounded : ∀ c ∈ p.concreteClasses, p.isGrounded c.name = true) :
    ∃ t, ofProgram p = .ok t :=
  ⟨_, ofProgram_eq_ok fun c mem => (Program.Grounded.isGrounded_iff mem).1 (grounded c mem)⟩

/-- The tables of tags. -/
lemma eq_of_ofProgram (built : ofProgram p = .ok t) :
    t = { classes := classRanges p
          interfaces := p.interfaces.map fun c =>
            (c.name, TagRange.merge (implementorRanges p (classRanges p) c.name))
          count := p.concreteClasses.length } := by
  rw [ofProgram_eq_ok fun c => grounded_of_ofProgram built] at built
  exact (Except.ok.inj built).symm

/-- The range of a concrete class is that of its line of descent. -/
lemma classRange?_of_mem (built : ofProgram p = .ok t) (mem : c ∈ p.concreteClasses) :
    t.classRange? c.name = some (rangeOf (lines p) (p.descent c.name)) := by
  rw [eq_of_ofProgram built]
  exact Program.lookup_map_name (fun d mem => Program.concreteClasses_subset mem) _ mem

/-- Other names have no class range. -/
lemma classRange?_eq_none (built : ofProgram p = .ok t) {n : String}
    (other : ∀ c ∈ p.concreteClasses, c.name ≠ n) : t.classRange? n = none := by
  rw [eq_of_ofProgram built]
  exact lookup_map_name_eq_none _ other

/-- The range of a class holds the tag of another just if the class is an ancestor of it. -/
lemma containsTag_iff_mem_ancestors (built : ofProgram p = .ok t) (memc : c ∈ p.concreteClasses)
    (memd : d ∈ p.concreteClasses) :
    (rangeOf (lines p) (p.descent d.name)).containsTag
        (rangeOf (lines p) (p.descent c.name)).lower = true ↔
      d ∈ p.ancestors c.name := by
  rw [containsTag_rangeOf (lines_sorted p) (mem_lines memd) (mem_lines memc)]
  exact Program.isPrefix_descent_iff (Program.concreteClasses_subset memd)
    (grounded_of_ofProgram built memc)

/-- A class is a subtype of a class just if that is an ancestor. -/
lemma isSubtype_iff_mem_ancestors (convention : p.ListsInterfaces) (memc : c ∈ p.classes)
    (memd : d ∈ p.concreteClasses) :
    p.isSubtype c.name d.name = true ↔ d ∈ p.ancestors c.name := by
  have declared := Program.concreteClasses_subset memd
  rw [Program.isSubtype_iff]
  constructor
  · rintro (eq | ⟨e, up, eq⟩ | ⟨e, mem, eq⟩)
    · rw [Program.eq_of_name_eq declared memc eq.symm]
      exact Program.mem_ancestors_self memc
    · rw [Program.eq_of_name_eq declared (Program.mem_of_mem_ancestors up) eq.symm]
      exact up
    · exact absurd eq.symm (Program.name_ne_of_isInterface memd
        (Program.mem_of_mem_allInterfaces mem) (convention.isInterface mem))
  · exact fun up => .inr (.inl ⟨d, up, rfl⟩)

/-- A grounded class is a subtype of an interface just if it has the interface. -/
lemma isSubtype_iff_mem_allInterfaces (grounded : p.Grounded c) (memd : d ∈ p.classes)
    (isInterface : d.isInterface = true) :
    p.isSubtype c.name d.name = true ↔ d ∈ p.allInterfaces c.name := by
  have noClass : ∀ e, p.Grounded e → e.name ≠ d.name := fun e grounded' =>
    Program.name_ne_of_isInterface grounded'.mem_concreteClasses memd isInterface
  rw [Program.isSubtype_iff]
  constructor
  · rintro (eq | ⟨e, up, eq⟩ | ⟨e, mem, eq⟩)
    · exact absurd eq (noClass c grounded)
    · exact absurd eq (noClass e (grounded.of_mem_ancestors up))
    · rw [Program.eq_of_name_eq memd (Program.mem_of_mem_allInterfaces mem) eq.symm]
      exact mem
  · exact fun mem => .inr (.inr ⟨d, mem, rfl⟩)

/-- The ranges of an interface are those of its implementors, fused. -/
lemma ranges?_of_isInterface (built : ofProgram p = .ok t) (memd : d ∈ p.classes)
    (isInterface : d.isInterface = true) :
    t.ranges? d.name =
      some (TagRange.merge (implementorRanges p (classRanges p) d.name)) := by
  have noClass : ∀ c ∈ p.concreteClasses, c.name ≠ d.name := fun c memc =>
    Program.name_ne_of_isInterface memc memd isInterface
  rw [ranges?, classRange?_eq_none built noClass, eq_of_ofProgram built]
  refine Program.lookup_map_name (fun c mem => (List.mem_filter.1 mem).1) _ ?_
  exact List.mem_filter.2 ⟨memd, isInterface⟩

/-- The ranges of the implementors of an interface hold the tags of just the implementors. -/
lemma any_implementorRanges (built : ofProgram p = .ok t) (memc : c ∈ p.concreteClasses)
    (memd : d ∈ p.classes) :
    (implementorRanges p (classRanges p) d.name).any
        (·.containsTag (rangeOf (lines p) (p.descent c.name)).lower) = true ↔
      d ∈ p.allInterfaces c.name := by
  have implements : ∀ n, (p.allInterfaces n).any (·.name = d.name) = true ↔
      d ∈ p.allInterfaces n := fun n => by
    rw [List.any_eq_true]
    constructor
    · rintro ⟨e, mem, eq⟩
      rwa [Program.eq_of_name_eq memd (Program.mem_of_mem_allInterfaces mem)
        (of_decide_eq_true eq).symm]
    · exact fun mem => ⟨d, mem, decide_eq_true rfl⟩
  rw [implementorRanges, List.any_map, List.any_filter, classRanges, List.any_map,
    List.any_eq_true]
  -- an implementor passes its interfaces on to the classes whose tags its range holds
  constructor
  · rintro ⟨e, meme, holds⟩
    simp only [Function.comp_apply, Bool.and_eq_true, implements] at holds
    exact Program.mem_allInterfaces_of_mem_ancestors
      ((containsTag_iff_mem_ancestors built memc meme).1 holds.2) holds.1
  · intro mem
    refine ⟨c, memc, ?_⟩
    simp only [Function.comp_apply, Bool.and_eq_true, implements]
    have self := Program.mem_ancestors_self (Program.concreteClasses_subset memc)
    exact ⟨mem, (containsTag_iff_mem_ancestors built memc memc).2 self⟩

/-- A subtype test looks for the tag among the ranges. -/
lemma isSubtype_eq_any {sub sup : String} {tag : Int} {ranges : List TagRange}
    (tagged : t.tag? sub = some tag) (ranged : t.ranges? sup = some ranges) :
    t.isSubtype sub sup = ranges.any (·.containsTag tag) := by
  rw [isSubtype, tagged, ranged]

/-- By the tags, a class is a subtype of its ancestors and of its interfaces. -/
lemma isSubtype_iff (built : ofProgram p = .ok t) (memc : c ∈ p.concreteClasses)
    (memd : d ∈ p.classes) : t.isSubtype c.name d.name = true ↔
      if d.isInterface then d ∈ p.allInterfaces c.name else d ∈ p.ancestors c.name := by
  have tag : t.tag? c.name = some (rangeOf (lines p) (p.descent c.name)).lower := by
    rw [tag?, classRange?_of_mem built memc]
    rfl
  cases isInterface : d.isInterface with
  | false =>
    have memd' := Program.mem_concreteClasses.2 ⟨memd, isInterface⟩
    have ranges : t.ranges? d.name = some [rangeOf (lines p) (p.descent d.name)] := by
      rw [ranges?, classRange?_of_mem built memd']
    rw [isSubtype_eq_any tag ranges, if_neg Bool.false_ne_true,
      ← containsTag_iff_mem_ancestors built memc memd']
    simp
  | true =>
    rw [isSubtype_eq_any tag (ranges?_of_isInterface built memd isInterface), if_pos rfl,
      ← any_implementorRanges built memc memd, TagRange.any_containsTag_merge]

/-- The tags tell whether a class is a subtype of a declared class or interface. -/
lemma isSubtype_of_mem (built : ofProgram p = .ok t) (convention : p.ListsInterfaces)
    (memc : c ∈ p.concreteClasses) (memd : d ∈ p.classes) :
    t.isSubtype c.name d.name = p.isSubtype c.name d.name := by
  rw [Bool.eq_iff_iff, isSubtype_iff built memc memd]
  cases isInterface : d.isInterface with
  | false =>
    have memd' := Program.mem_concreteClasses.2 ⟨memd, isInterface⟩
    rw [isSubtype_iff_mem_ancestors convention (Program.concreteClasses_subset memc) memd']
    rfl
  | true =>
    rw [isSubtype_iff_mem_allInterfaces (grounded_of_ofProgram built memc) memd isInterface]
    rfl

/-- The tags know no other names. -/
lemma isSubtype_of_not_declared (built : ofProgram p = .ok t) {n sup : String}
    (none : p.lookup? sup = none) : t.isSubtype n sup = false := by
  have other : ∀ {cs : List ClassDef}, (∀ c ∈ cs, c ∈ p.classes) → ∀ c ∈ cs, c.name ≠ sup :=
    fun declared c mem => Program.name_ne_of_lookup?_eq_none none (declared c mem)
  have ranges : t.ranges? sup = Option.none := by
    rw [ranges?, classRange?_eq_none built
      (other fun c mem => Program.concreteClasses_subset mem), eq_of_ofProgram built]
    exact lookup_map_name_eq_none _ (other fun c mem => (List.mem_filter.1 mem).1)
  rw [isSubtype, ranges]
  cases t.tag? n <;> rfl

/-- Tags encode subtyping: if a program has tags, a class is a subtype of a name by its tag just if
the name is declared and the class is a subtype of it in the program. Among classes, one is a
subtype of another just if the range of the other contains its range. -/
theorem tags_encode_subtyping (built : ofProgram p = .ok t) (convention : p.ListsInterfaces) :
    (∀ c ∈ p.concreteClasses, ∀ sup : String,
      t.isSubtype c.name sup = true ↔
        (p.lookup? sup).isSome = true ∧ p.isSubtype c.name sup = true) ∧
    (∀ c ∈ p.concreteClasses, ∀ d ∈ p.concreteClasses,
      ∃ rc rd, t.classRange? c.name = some rc ∧ t.classRange? d.name = some rd ∧
        (rd.contains rc = true ↔ p.isSubtype c.name d.name = true)) := by
  constructor
  · intro c memc sup
    cases found : p.lookup? sup with
    | none => simp [isSubtype_of_not_declared built found]
    | some d =>
      obtain ⟨memd, rfl⟩ := Program.lookup?_eq_some_iff.1 found
      simp [isSubtype_of_mem built convention memc memd]
  · intro c memc d memd
    refine ⟨_, _, classRange?_of_mem built memc, classRange?_of_mem built memd, ?_⟩
    rw [contains_rangeOf (lines_sorted p) (mem_lines memd) (mem_lines memc),
      Program.isPrefix_descent_iff (Program.concreteClasses_subset memd)
        (grounded_of_ofProgram built memc),
      isSubtype_iff_mem_ancestors convention (Program.concreteClasses_subset memc) memd]

/-- Two interfaces extend a third, which lists one of them again; a class has the one, its subclass
the other. -/
def diamond : Program :=
  { classes :=
      [{ ClassDef.empty "Base" with interfaces := ["Left"] },
       { ClassDef.empty "Derived" with parent := some "Base", interfaces := ["Right", "Missing"] },
       { ClassDef.empty "Left" with interfaces := ["Top"], isInterface := true },
       { ClassDef.empty "Right" with interfaces := ["Top"], isInterface := true },
       { ClassDef.empty "Top" with interfaces := ["Left"], isInterface := true }]
    entryPoint := none
    nodup := by decide }

/-- In a diamond, the subclass has all the interfaces by its tag, the class one of them not. -/
theorem diamond_isSubtype :
    ∃ t, ofProgram diamond = .ok t ∧ diamond.ListsInterfaces ∧
      t.isSubtype "Derived" "Top" = true ∧ t.isSubtype "Derived" "Left" = true ∧
      t.isSubtype "Base" "Right" = false ∧ t.isSubtype "Base" "Missing" = false := by
  have convention : diamond.ListsInterfaces := by decide
  obtain ⟨t, built⟩ := exists_ofProgram (p := diamond) (by decide +kernel)
  refine ⟨t, built, convention, ?_⟩
  have encoded := (tags_encode_subtyping built convention).1
  have base := encoded _ (by decide : diamond.classes[0] ∈ diamond.concreteClasses)
  have derived := encoded _ (by decide : diamond.classes[1] ∈ diamond.concreteClasses)
  refine ⟨(derived "Top").2 ?_, (derived "Left").2 ?_, ?_, ?_⟩
  · exact ⟨by decide, by decide +kernel⟩
  · exact ⟨by decide, by decide +kernel⟩
  · exact Bool.eq_false_iff.2 fun h => absurd ((base "Right").1 h).2 (by decide +kernel)
  · exact Bool.eq_false_iff.2 fun h => absurd ((base "Missing").1 h).1 (by decide)

end TagMap

end ObjectBackend
