import ObjectBackend.Proofs.Hierarchy.Names
import ObjectBackend.Proofs.Source.Loading

/-!
# Reading programs that have been written

What is read of the text of a program. The text is read as the document of the program if that does
not nest too deeply, and the classes of the document are the classes of the program but for
their reals. So a program is read back as itself if every real of it is (`Program.read_write`). All
of this holds for every library that reads back what it writes and limits how deeply texts may nest
(`Json.Library.Lawful`), and is stated for the present library last.
-/

namespace ObjectBackend

open Floating

namespace Program

variable {p : Program}

/-- The classes that are read back have the names of those that were written. -/
lemma map_name_of_reread {cs ds : List ClassDef} (back : cs.mapM ClassDef.reread? = some ds) :
    ds.map (·.name) = cs.map (·.name) := by
  induction cs generalizing ds with
  | nil =>
    cases back
    rfl
  | cons c cs ih =>
    rw [List.mapM_cons] at back
    obtain ⟨d, first, back⟩ := Option.bind_eq_some_iff.1 back
    obtain ⟨ds', others, made⟩ := Option.bind_eq_some_iff.1 back
    cases made
    obtain ⟨fields, -, first⟩ := Option.bind_eq_some_iff.1 first
    obtain ⟨methods, -, rfl⟩ := Option.map_eq_some_iff.1 first
    rw [List.map_cons, ih others, List.map_cons]

section Library

variable {library : Json.Library} (lawful : library.Lawful)

include lawful

/-- The text of a program is read as the classes that are read back, and its entry point. -/
lemma readWith_writeWith_eq (fits : p.toJson.depth ≤ Json.maxDepth) :
    readWith library (p.writeWith library) = match p.classes.mapM ClassDef.reread? with
      | none => .error .unreadable
      | some classes => ofClasses classes p.entryPoint := by
  rw [readWith, writeWith, lawful.reads_back p.isWritable_toJson fits]
  dsimp only
  rw [ofJson, partsOfJson?_toJson]
  cases p.classes.mapM ClassDef.reread? <;> rfl

/-- Whatever library writes and reads it, a program comes back unchanged if its reals do. -/
theorem readWith_writeWith (same : ∀ r ∈ p.reals, r.reread? = some r)
    (fits : p.toJson.depth ≤ Json.maxDepth) :
    readWith library (p.writeWith library) = .ok p := by
  have rereads : p.classes.mapM ClassDef.reread? = some p.classes := p.rereads.eq_self same
  rw [readWith_writeWith_eq lawful fits, rereads]
  exact ofClasses_eq_ok.2 ⟨rfl, rfl⟩

/-- Whatever library has loaded a program, the program can be saved and loaded again just if every
short real of it is finite. -/
theorem exists_readWith_writeWith_iff {text : String} (loaded : readWith library text = .ok p) :
    (∃ q, readWith library (p.writeWith library) = .ok q) ↔
      ∀ value, .short value ∈ p.reals → value.isFinite = true := by
  obtain ⟨fits, longs⟩ := storable_of_readWith lawful loaded
  have reread_iff : (p.classes.mapM ClassDef.reread?).isSome = true ↔
      ∀ value, .short value ∈ p.reals → value.isFinite = true := by
    rw [p.rereads.isSome_iff]
    constructor
    · intro each value mem
      exact (RealConstant.isSome_reread? _).symm.trans (each _ mem)
    · intro shorts r mem
      rw [r.isSome_reread?]
      cases r with
      | short value => exact shorts value mem
      | long value => exact longs value mem
  rw [← reread_iff, readWith_writeWith_eq lawful fits]
  cases back : p.classes.mapM ClassDef.reread? with
  | none => simp
  | some classes =>
    have nodup : (classes.map (·.name)).Nodup := by
      rw [map_name_of_reread back]
      exact p.nodup
    exact iff_of_true ⟨⟨classes, p.entryPoint, nodup⟩, ofClasses_eq_ok.2 ⟨rfl, rfl⟩⟩ rfl

end Library

/-- A program whose reals are finite is read back as the same program, if finite reals of its width
are read back as the same reals. -/
theorem read_write (finite : ∀ r ∈ p.reals, r.isFinite = true)
    (same : ∀ r ∈ p.reals, r.isFinite = true → r.reread? = some r)
    (fits : p.toJson.depth ≤ Json.maxDepth) : read p.write = .ok p :=
  readWith_writeWith Json.lawful_library (fun r mem => same r mem (finite r mem)) fits

/-- A class with a scale, an origin and a method that multiplies them. -/
def gauge : Program where
  classes :=
    [{ ClassDef.empty "Gauge" with
      fields :=
        [⟨"scale", true, .primitive .float, some (.float ⟨0x3f000000⟩)⟩,
          ⟨"origin", true, .primitive .double, some (.double ⟨0x8000000000000000⟩)⟩]
      methods :=
        [⟨⟨"level", [.primitive .double], .primitive .double⟩, true, false, false, .anyClass,
          some ⟨[.double, .double, .double],
            [{ BasicBlock.empty with
              instructions :=
                [.doubleConstant ⟨1⟩ ⟨0x4004000000000000⟩, .binary .multiply ⟨2⟩ ⟨0⟩ ⟨1⟩ .double]
              terminator := .exit (some ⟨2⟩) }]⟩⟩] }]
  entryPoint := none
  nodup := by decide

/-- The gauge is read back with its half, its negative zero and its constant. -/
theorem gauge_read_write : read gauge.write = .ok gauge :=
  read_write (by decide +kernel) (by decide +kernel) (by decide +kernel)

/-- A program that has been loaded can be saved and loaded again just if every short real of it is
finite. -/
theorem exists_read_write_iff {text : String} (loaded : read text = .ok p) :
    (∃ q, read p.write = .ok q) ↔ ∀ value, .short value ∈ p.reals → value.isFinite = true :=
  exists_readWith_writeWith_iff Json.lawful_library loaded

/-- A class whose only field starts with a short real. -/
def singleField (value : Binary32) : Program where
  classes :=
    [{ ClassDef.empty "Gauge" with
      fields := [⟨"scale", true, .primitive .float, some (.float value)⟩] }]
  entryPoint := none
  nodup := List.nodup_singleton _

/-- The document of that class with a numeral. -/
def singleFieldText (numeral : String) : String :=
  "\x7b\"classes\":[\x7b\"name\":\"Gauge\",\"fields\":[\x7b\"name\":\"scale\",\"is_static\":true,"
    ++ "\"ty\":\x7b\"primitive\":\"float\"\x7d,\"initial\":\x7b\"kind\":\"float\",\"value\":"
    ++ numeral ++ "\x7d\x7d]\x7d]\x7d"

/-- A text whose document has the parts of a program is read as that program. -/
lemma read_eq_ok {text : String}
    (parts : (Json.read? text).bind partsOfJson? = some (p.classes, p.entryPoint)) :
    read text = .ok p := by
  obtain ⟨document, given, parts⟩ := Option.bind_eq_some_iff.1 parts
  have found : Json.library.read? text = some document := given
  rw [read, readWith, found]
  dsimp only
  rw [ofJson, parts]
  exact ofClasses_eq_ok.2 ⟨rfl, rfl⟩

/-- A half is loaded, saved and loaded again. -/
theorem singleField_reloaded : ∃ q, read (singleField ⟨0x3f000000⟩).write = .ok q := by
  have loaded : read (singleFieldText "0.5") = .ok (singleField ⟨0x3f000000⟩) :=
    read_eq_ok (by decide +kernel)
  refine (exists_read_write_iff loaded).2 fun value mem => ?_
  cases List.mem_singleton.1 mem
  decide

/-- A number in the range of long reals is read as an infinite short real, which is written as
null. -/
theorem singleField_lost : ¬ ∀ text p, read text = .ok p → ∃ q, read p.write = .ok q := by
  intro reloads
  have loaded : read (singleFieldText "1e39") = .ok (singleField ⟨0x7f800000⟩) :=
    read_eq_ok (by decide +kernel)
  obtain ⟨q, reloaded⟩ := reloads _ _ loaded
  have none : (singleField ⟨0x7f800000⟩).classes.mapM ClassDef.reread? = none := by decide +kernel
  have unread := readWith_writeWith_eq Json.lawful_library (p := singleField ⟨0x7f800000⟩)
    (by decide +kernel)
  rw [none] at unread
  cases unread.symm.trans reloaded

end Program

end ObjectBackend
