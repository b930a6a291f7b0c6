import ObjectBackend.Proofs.Image.ArrayMetadata
import ObjectBackend.Proofs.Lowering.TypeTest

/-!
# Tags in memory

The metadata of classes as the code of type tests finds it in memory (`Backend.HasTags`). The tag in
the metadata of a class lies in the ranges of just its supertypes. Interfaces have no tags of their
own: their metadata has zero in that place, which is the tag of the class that all others descend
from.
-/

namespace ObjectBackend

open Target

namespace TagMap

variable {p : Program} {t : TagMap} {c d r : ClassDef}

/-- The tag of a class lies in the ranges of just its supertypes. -/
lemma any_ranges (built : ofProgram p = .ok t) (memc : c ∈ p.concreteClasses)
    (memd : d ∈ p.classes) :
    ((t.ranges? d.name).getD []).any (·.containsTag ((t.tag? c.name).getD 0)) = true ↔
      if d.isInterface then p.isSubtype c.name d.name = true else d ∈ p.ancestors c.name := by
  have word : ((t.ranges? d.name).getD []).any (·.containsTag ((t.tag? c.name).getD 0)) =
      t.isSubtype c.name d.name := by
    rw [isSubtype, tag?, classRange?_of_mem built memc]
    cases t.ranges? d.name <;> rfl
  rw [word, isSubtype_iff built memc memd]
  cases isInterface : d.isInterface with
  | false => rfl
  | true =>
    have grounded := grounded_of_ofProgram built memc
    rw [isSubtype_iff_mem_allInterfaces grounded memd isInterface]

/-- The class that all others descend from has the first tag. -/
lemma tag?_of_root (built : ofProgram p = .ok t) (memr : r ∈ p.concreteClasses)
    (rooted : ∀ c ∈ p.concreteClasses, r ∈ p.ancestors c.name) : t.tag? r.name = some 0 := by
  have none : (lines p).countP (fun line => decide (line < p.descent r.name)) = 0 := by
    rw [List.countP_eq_zero]
    intro line mem
    obtain ⟨c, memc, rfl⟩ := List.mem_map.1 (List.mem_mergeSort.1 mem)
    have beginning := (Program.isPrefix_descent_iff (Program.concreteClasses_subset memr)
      (grounded_of_ofProgram built memc)).2 (rooted c memc)
    rw [decide_eq_true_eq, not_lt]
    exact le_of_isPrefix beginning
  rw [tag?, classRange?_of_mem built memr,
    rangeOf_eq_counts (lines_sorted p) (mem_lines memr), none]
  rfl

end TagMap

namespace Backend

open Lowering (tagAddress tagIndex)

variable {p : Program} {settings : Settings} {b : Backend} {c : ClassDef} {h : Header}
  {cells : List (IrType × Constant)}

/-- A back end has the settings it is given. -/
lemma settings_eq (built : ofProgram p settings = .ok b) : b.settings = settings := by
  rw [ofProgram] at built
  obtain ⟨_, _, built⟩ := Except.exists_of_bind_eq_ok built
  obtain ⟨_, _, built⟩ := Except.exists_of_bind_eq_ok built
  obtain ⟨_, _, built⟩ := Except.exists_of_bind_eq_ok built
  cases built
  rfl

/-- The tag in the metadata of a class or an interface. -/
def tagWord (b : Backend) (c : ClassDef) : Int :=
  if c.isInterface then 0 else (b.tags.tag? c.name).getD 0

/-- The tag in the metadata of a class is its own, and that of an interface is the tag of the class
that all others descend from. -/
lemma exists_tagged (built : ofProgram p settings = .ok b) {r : ClassDef}
    (memr : r ∈ p.concreteClasses) (rooted : ∀ d ∈ p.concreteClasses, r ∈ p.ancestors d.name)
    (memc : c ∈ p.classes) :
    ∃ u ∈ p.concreteClasses, u.name = (if c.isInterface then r.name else c.name) ∧
      b.tagWord c = (b.tags.tag? u.name).getD 0 := by
  obtain ⟨_, tagged, _⟩ := ofProgram_spec built
  cases isInterface : c.isInterface with
  | true =>
    refine ⟨r, memr, rfl, ?_⟩
    rw [tagWord, isInterface, TagMap.tag?_of_root tagged memr rooted]
    rfl
  | false =>
    refine ⟨c, Program.mem_concreteClasses.2 ⟨memc, isInterface⟩, rfl, ?_⟩
    rw [tagWord, isInterface]
    rfl

/-- A load through the field of the tag reaches the tag of a header. -/
lemma reaches_tag {cell : IrType × Constant}
    (slots : h.slots.length = b.tables.interfaceTable.length) :
    Reaches b.Defines (.runtime .header) tagIndex.toNat cell
      ((.runtime .header, h.contents) :: cells) ↔ cell = Constant.i32 (.int h.lower) := by
  constructor
  · intro reaches
    cases reaches with
    | here defined fits _ _ =>
      -- a header does not start with a header
      rw [defines_header defined] at fits
      cases (List.cons_prefix_cons.1 fits).1
    | within reaches =>
      cases reaches with
      | here _ _ _ found => exact (Option.some.inj found).symm
  · rintro rfl
    refine .within (.here (List.mem_cons_self ..) ?_ ?_ rfl)
    · rw [List.map_append, List.map_map, ← slots, ← List.map_const']
      exact List.prefix_rfl
    · rw [List.length_append]
      exact Nat.lt_add_right _ (by decide : 2 < 5)

/-- The metadata of a class or an interface starts with a header that has its tag. -/
lemma exists_header (built : ofProgram p settings = .ok b) (memc : c ∈ p.classes) :
    ∃ (h : Header) (cells : List (IrType × Constant)), h.lower = b.tagWord c ∧
      h.slots.length = b.tables.interfaceTable.length ∧
      b.metadata c = .ok (.data (.metadata c.name) .data (.named (.metadata c.name))
        (.record ((.runtime .header, h.contents) :: cells))) := by
  obtain ⟨rfl, tagged, _⟩ := ofProgram_spec built
  cases isInterface : c.isInterface with
  | true =>
    refine ⟨b.interfaceHeader, [], ?_, List.length_map _, ?_⟩
    · rw [tagWord, isInterface]
      rfl
    · rw [metadata, isInterface]
      rfl
  | false =>
    obtain ⟨range, layout, ranged, data⟩ :=
      metadata_eq built (Program.mem_concreteClasses.2 ⟨memc, isInterface⟩)
    refine ⟨_, _, ?_, List.length_map _, data⟩
    rw [tagWord, isInterface, TagMap.tag?, ranged]
    rfl

/-- The tags in memory are those of the metadata that has been emitted. -/
def HasTags (b : Backend) (m : Memory) : Prop :=
  ∀ c ∈ b.program.classes, ∀ cells tag,
    b.metadata c =
      .ok (.data (.metadata c.name) .data (.named (.metadata c.name)) (.record cells)) →
    Reaches b.Defines (.runtime .header) tagIndex.toNat (Constant.i32 (.int tag)) cells →
    m (tagAddress (.symbol (.metadata c.name))) = some (.i32, .int tag)

/-- The tag of a class is read from its metadata. -/
lemma HasTags.tag_eq (built : ofProgram p settings = .ok b) {m : Memory} (tags : b.HasTags m)
    (memc : c ∈ p.classes) :
    m (tagAddress (.symbol (.metadata c.name))) = some (.i32, .int (b.tagWord c)) := by
  obtain ⟨h, cells, tag, slots, data⟩ := exists_header built memc
  obtain ⟨rfl, _⟩ := ofProgram_spec built
  rw [← tag]
  exact tags c memc _ _ data ((reaches_tag slots).2 rfl)

/-- A memory with nothing but the tags. -/
def tagMemory (b : Backend) : Memory
  | .part (.symbol (.metadata name)) (.named (.runtime .header)) [0, 2] =>
    (b.program.lookup? name).map fun c => (.i32, .int (b.tagWord c))
  | _ => none

/-- A memory with just the tags holds the tags of the classes. -/
lemma hasTags_tagMemory (built : ofProgram p settings = .ok b) : b.HasTags b.tagMemory := by
  intro c memc cells tag data reaches
  have program := (ofProgram_spec built).1
  rw [program] at memc
  obtain ⟨h, cells', word, slots, data'⟩ := exists_header built memc
  -- the data is what it is
  obtain rfl : cells = (.runtime .header, h.contents) :: cells' := by
    rw [data'] at data
    exact (Constant.record.inj (Entry.data.inj (Except.ok.inj data)).2.2.2).symm
  obtain rfl : h.lower = tag := by
    cases (reaches_tag slots).1 reaches
    rfl
  change (b.program.lookup? c.name).map _ = _
  rw [program, Program.lookup?_of_mem memc, word]
  rfl

end Backend

end ObjectBackend
