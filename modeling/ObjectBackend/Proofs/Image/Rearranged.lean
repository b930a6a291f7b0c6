import ObjectBackend.Image.Module
import ObjectBackend.Proofs.Image.Emission
import ObjectBackend.Proofs.Lowering.Rearranged

/-!
# Modules of rearranged programs

The text of a module does not depend on the order in which a program was given its classes
(`compile_alike`): if there is a back end for one program, there is one that agrees with it for
every rearranged program, and back ends that agree make the same parts, since every part is made
class by class in the order of names.
-/

namespace ObjectBackend

open Target

variable {p q : Program} {settings : Settings} {b b' : Backend}

namespace Program

/-- The check of a program is one of its classes. -/
lemma Rearranged.check (same : p.Rearranged q) (checked : p.check = .ok ()) :
    q.check = .ok () :=
  Except.forM_eq_ok fun _ mem => Except.of_forM_eq_ok checked (same.classes.mem_iff.2 mem)

end Program

namespace Backend

/-- If there is a back end for a program, rearranged programs have one that agrees with it. -/
lemma exists_agrees (same : p.Rearranged q) (built : ofProgram p settings = .ok b) :
    ∃ b', ofProgram q settings = .ok b' ∧ b.Agrees b' := by
  rw [ofProgram] at built
  obtain ⟨_, checked, built⟩ := Except.exists_of_bind_eq_ok built
  obtain ⟨tags, tagged, built⟩ := Except.exists_of_bind_eq_ok built
  obtain ⟨tables, tabled, built⟩ := Except.exists_of_bind_eq_ok built
  cases built
  obtain ⟨tags', tagged', agree⟩ :=
    TagMap.exists_agrees same (Except.of_mapError_eq_ok tagged)
  refine ⟨{ program := q, settings, tags := tags', tables }, ?_, same, rfl, agree, rfl⟩
  rw [ofProgram, same.check (Except.of_mapError_eq_ok checked), tagged',
    DispatchTables.ofProgram_of_rearranged same, Except.of_mapError_eq_ok tabled]
  rfl

namespace Agrees

variable (agree : b.Agrees b')
include agree

/-- The back ends of rearranged programs emit the same methods. -/
lemma methods : b'.methods = b.methods := by
  funext c
  rw [Backend.methods, Backend.methods, Lowering.method_eq agree]

/-- The back ends of rearranged programs give classes the same slots. -/
lemma classSlots : b'.classSlots = b.classSlots := by
  funext n
  rw [Backend.classSlots, Backend.classSlots, agree.tables]

/-- The back ends of rearranged programs emit the same structure types. -/
lemma classTypes : b'.classTypes = b.classTypes := by
  funext c
  rw [Backend.classTypes, Backend.classTypes, instanceFields, instanceFields, agree.classSlots,
    agree.program.layout?]

/-- The back ends of rearranged programs emit the same metadata of classes. -/
lemma metadata : b'.metadata = b.metadata := by
  have interfaceSlots : b'.interfaceSlots = b.interfaceSlots := by
    funext n
    rw [Backend.interfaceSlots, Backend.interfaceSlots, agree.tables, agree.program.isSubtype,
      agree.program.implementation?]
  have ownSlots : b'.ownSlots = b.ownSlots := by
    funext n
    rw [Backend.ownSlots, Backend.ownSlots, agree.classSlots, agree.program.implementation?]
  have classHeader : b'.classHeader = b.classHeader := by
    funext c range layout
    rw [Backend.classHeader, Backend.classHeader, interfaceSlots]
  have interfaceHeader : b'.interfaceHeader = b.interfaceHeader := by
    rw [Backend.interfaceHeader, Backend.interfaceHeader, agree.tables]
  funext c
  unfold Backend.metadata
  rw [interfaceHeader, agree.tags.classRange?, agree.program.layout?, classHeader, ownSlots]

/-- The back ends of rearranged programs emit the same metadata of arrays. -/
lemma arrayMetadata : b'.arrayMetadata = b.arrayMetadata := by
  rw [Backend.arrayMetadata, Backend.arrayMetadata, agree.settings, agree.tags.tag?,
    agree.program.lookup?, agree.tables]

/-- The back ends of rearranged programs emit the same field tables. -/
lemma fieldTable : b'.fieldTable = b.fieldTable := by
  funext c
  rw [Backend.fieldTable, Backend.fieldTable, agree.program.layout?]

/-- The back ends of rearranged programs emit the same table of static references. -/
lemma stackRoots : b'.stackRoots = b.stackRoots := by
  rw [Backend.stackRoots, Backend.stackRoots, staticReferences, staticReferences,
    agree.program.sortedClasses]

/-- The back ends of rearranged programs emit the same initializers. -/
lemma initializers : b'.initializers = b.initializers := by
  have initializer : b'.program.initializer = b.program.initializer := by
    funext c
    rw [Program.initializer, Program.initializer, agree.program.needsInitialization]
  rw [Backend.initializers, Backend.initializers, agree.program.sortedClasses,
    agree.program.needsInitialization, initializer]

/-- The back ends of rearranged programs emit the same entry point. -/
lemma main : b'.main = b.main := by
  have main : b'.program.main = b.program.main := by
    funext entry
    rw [Program.main, Program.main, agree.program.resolveMethod?]
  rw [Backend.main, Backend.main, agree.program.entryPoint, main]

/-- The entries of the modules are the same. -/
lemma entries : b'.entries = b.entries := by
  have literals (l : Literals) : l.entries b'.program = l.entries b.program := by
    funext className charsField
    rw [Literals.entries, Literals.entries, Literals.stringFields, Literals.stringFields,
      agree.program.layout?]
  have headerType : b'.headerType = b.headerType := by
    rw [Backend.headerType, Backend.headerType, agree.tables]
  unfold Backend.entries
  simp only [agree.program.sortedClasses, agree.methods, agree.metadata, agree.main, literals,
    agree.settings, headerType, agree.classTypes, agree.initializers, agree.arrayMetadata,
    agree.fieldTable, agree.stackRoots]

end Agrees

end Backend

namespace Program

/-- The module does not depend on the order in which the classes are added: two programs with the
same classes and the same entry point either both have no module or have modules of the same text.
-/
theorem compile_alike {cs ds : List ClassDef} {entry : Option MethodRef}
    (same : ∀ c, c ∈ cs ↔ c ∈ ds) (made : ofClasses cs entry = .ok p)
    (made' : ofClasses ds entry = .ok q) (settings : Settings) :
    (∃ e e', p.compile settings = .error e ∧ q.compile settings = .error e') ∨
      ∃ text, p.compile settings = .ok text ∧ q.compile settings = .ok text := by
  obtain ⟨rfl, rfl⟩ := ofClasses_eq_ok.1 made
  obtain ⟨rfl, entryPoint⟩ := ofClasses_eq_ok.1 made'
  have same : p.Rearranged q :=
    ⟨(List.perm_ext_iff_of_nodup (p.nodup.of_map _) (q.nodup.of_map _)).2 same, entryPoint⟩
  cases built : Backend.ofProgram p settings with
  | error e =>
    cases built' : Backend.ofProgram q settings with
    | error e' => exact .inl ⟨e, e', by rw [compile, built]; rfl, by rw [compile, built']; rfl⟩
    | ok b' =>
      obtain ⟨b, built'', _⟩ := Backend.exists_agrees same.symm built'
      rw [built] at built''
      cases built''
  | ok b =>
    -- from here on the two runs do the same, whether they fail or not
    obtain ⟨b', built', agree⟩ := Backend.exists_agrees same built
    have compiled : q.compile settings = p.compile settings := by
      rw [compile, compile, built, built']
      change (b'.entries.run .empty >>= _) = (b.entries.run .empty >>= _)
      rw [agree.entries]
    rw [compiled]
    cases p.compile settings with
    | error e => exact .inl ⟨e, e, rfl, rfl⟩
    | ok text => exact .inr ⟨text, rfl, rfl⟩

/-- The points make a module of the same text when the subclass is added last. -/
theorem points_compile_alike :
    ∃ p q text, ofClasses points.classes none = .ok p ∧
      ofClasses points.classes.reverse none = .ok q ∧ p.classes ≠ q.classes ∧
      p.compile .default = .ok text ∧ q.compile .default = .ok text := by
  let q : Program :=
    { classes := points.classes.reverse, entryPoint := none, nodup := by decide }
  have made : ofClasses points.classes none = .ok points := ofClasses_eq_ok.2 ⟨rfl, rfl⟩
  have made' : ofClasses points.classes.reverse none = .ok q := ofClasses_eq_ok.2 ⟨rfl, rfl⟩
  obtain ⟨b, es, pools, built, emitted⟩ := Backend.exists_entries_points
  have compiled : points.compile .default = .ok (moduleText es) := by
    rw [compile, built]
    change (b.entries.run .empty >>= _) = _
    rw [emitted]
    rfl
  rcases compile_alike (fun _ => List.mem_reverse.symm) made made' .default with
    ⟨e, _, error, _⟩ | ⟨text, first, second⟩
  · rw [compiled] at error
    cases error
  · exact ⟨points, q, text, made, made', by decide, first, second⟩

end Program

end ObjectBackend
