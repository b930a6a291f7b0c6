import ObjectBackend.Proofs.Image.Tags
import ObjectBackend.Proofs.Lowering.Bodies

/-!
# Type tests on objects

The header of an object points to the metadata of its class, and a test for a class or an interface
looks for the tag in that metadata. So it tells whether the class is a subtype
(`object_test_iff_subtype`). Null passes no test, and nothing is loaded through it.
-/

namespace ObjectBackend.Lowering

open Target Emit

variable {p : Program} {settings : Settings} {b : Backend} {c : Context} {host : Host}
  {C T : ClassDef} {receiver value : Var} {m : Memory}

/-- A variable is null, or it refers to an object of a class in a memory that has the tags of all
classes. -/
def HoldsReference (b : Backend) (v : Var) : Option ClassDef → Assertion
  | none => fun _ r _ => r (.var v) = some .null
  | some C => fun _ r m => b.HasTags m ∧ ∃ a, r (.var v) = some (.address a) ∧
      m a = some (.ptr, .address (.symbol (.metadata C.name)))

/-- The code of a test on an object. -/
def objectTestCode (c : Context) (receiver value : Var) (className : String) : Emit Unit :=
  if className = c.backend.settings.rootClass then nullTest receiver value
  else if (tagRanges c className).isEmpty then failTest receiver
  else objectTest receiver value (tagInRanges (tagRanges c className))

/-- A test of an object against a class is lowered to the code of an object test. -/
lemma isInstance_eq_objectTestCode (memT : T ∈ c.program.classes)
    (kind : c.kindOf value = .ok .object) (number : c.typeOf receiver = .ok .i32) :
    isInstance c receiver value (.object T.name) =
      .ok (objectTestCode c receiver value T.name) := by
  have reference : c.expectReference value = .ok () := by
    rw [Context.expectReference, kind]
    rfl
  have flag : c.expect receiver .i32 = .ok () := by
    rw [Context.expect, number]
    rfl
  have declared : c.expectClass T.name = .ok () := by
    rw [Context.expectClass, Program.lookup?_of_mem memT]
    rfl
  rw [isInstance, reference, flag]
  change classTest c receiver value T.name = _
  rw [classTest, kind, declared]
  rfl

/-- The code of an object test is put behind what has been emitted. -/
lemma objectTestCode_moves : (objectTestCode c receiver value T.name).Moves := by
  rw [objectTestCode]
  split
  · exact (nullTest_straight _ _).moves
  · split
    · exact (copyTo_straight _ _ _).moves
    · exact (objectTest_emits (c := c) (p := .start) _ _ fun _ =>
        (tagInRanges_straight _ _).emits).moves

/-- Null passes no test. -/
lemma objectTestCode_null :
    Triple host (Knows m [(.ofVar value, .null)]) (objectTestCode c receiver value T.name)
      (IsFlag receiver m false) := by
  have null : (Value.ofVar value, Word.null) ∈ [(Value.ofVar value, Word.null)] :=
    List.mem_singleton_self _
  rw [objectTestCode]
  split
  · exact nullTest_runs null
  · split
    · exact failTest_runs receiver
    · exact objectTest_skips (fun _ => (tagInRanges_straight _ _).moves) null

/-- An object passes if its tag is in the ranges of the class or the interface. -/
lemma objectTestCode_object (built : Backend.ofProgram p settings = .ok b)
    (ofBackend : c.backend = b) (memC : C ∈ p.classes) {a : Address} (tags : b.HasTags m)
    (header : m a = some (.ptr, .address (.symbol (.metadata C.name)))) :
    Triple host (Knows m [(.ofVar value, .address a)]) (objectTestCode c receiver value T.name)
      (IsFlag receiver m (T.name = settings.rootClass ||
        (tagRanges c T.name).any (·.containsTag (b.tagWord C)))) := by
  have object : (Value.ofVar value, Word.address a) ∈ [(Value.ofVar value, Word.address a)] :=
    List.mem_singleton_self _
  have root : c.backend.settings = settings := by
    rw [ofBackend]
    exact Backend.settings_eq built
  rw [objectTestCode, root]
  split
  case isTrue isRoot =>
    rw [decide_eq_true isRoot, Bool.true_or]
    exact nullTest_runs object
  case isFalse other =>
    rw [decide_eq_false other, Bool.false_or]
    split
    case isTrue none =>
      rw [List.isEmpty_iff.1 none]
      exact failTest_runs receiver
    case isFalse some =>
      apply objectTest_runs object header
      intro v known' _ given
      exact tagInRanges_evaluates (gives_of_mem given) (tags.tag_eq built memC)
        (Bool.eq_false_iff.2 some)

/-- The tag of a class is in the ranges of just its supertypes. -/
lemma any_tagRanges_iff (built : Backend.ofProgram p settings = .ok b) (ofBackend : c.backend = b)
    (convention : p.ListsInterfaces) (memC : C ∈ p.concreteClasses) (memT : T ∈ p.classes) :
    (tagRanges c T.name).any (·.containsTag (b.tagWord C)) = true ↔
      p.isSubtype C.name T.name = true := by
  obtain ⟨_, tagged, _⟩ := Backend.ofProgram_spec built
  have tag : b.tagWord C = (b.tags.tag? C.name).getD 0 := by
    rw [Backend.tagWord, (Program.mem_concreteClasses.1 memC).2]
    rfl
  rw [tagRanges, ofBackend, tag, TagMap.any_ranges tagged memC memT]
  cases isInterface : T.isInterface with
  | true => rw [if_pos rfl]
  | false =>
    have memT' := Program.mem_concreteClasses.2 ⟨memT, isInterface⟩
    rw [if_neg Bool.false_ne_true, TagMap.isSubtype_iff_mem_ancestors convention
      (Program.concreteClasses_subset memC) memT']

/-- A test for a class or an interface can be emitted for every object, and it passes just if the
object is not null and the type is the root class or a supertype of its class. The code never loads
through null. -/
theorem object_test_iff_subtype (built : Backend.ofProgram p settings = .ok b)
    (convention : p.ListsInterfaces) (memT : T ∈ p.classes) (ofBackend : c.backend = b)
    (kind : c.kindOf value = .ok .object) (number : c.typeOf receiver = .ok .i32) :
    ∃ test, isInstance c receiver value (.object T.name) = .ok test ∧
      ∀ (host : Host) (object : Option ClassDef), (∀ C ∈ object, C ∈ p.concreteClasses) →
        Safely host (HoldsReference b value object) test (fun _ _ r _ => ∃ passes,
          r (.var receiver) = some (.ofBool passes) ∧
          (passes = true ↔ ∃ C ∈ object,
            T.name = settings.rootClass ∨ p.isSubtype C.name T.name = true)) := by
  have memT' : T ∈ c.program.classes := by
    rw [Context.program, ofBackend, (Backend.ofProgram_spec built).1]
    exact memT
  refine ⟨_, isInstance_eq_objectTestCode memT' kind number, fun host object concrete => ?_⟩
  apply Triple.safely
  cases object with
  | none =>
    -- the memory is not known beforehand: one triple for each
    have each : ∀ m : Memory, True → Triple host (Knows m [(.ofVar value, .null)])
        (objectTestCode c receiver value T.name)
        (fun _ _ r _ => r (.var receiver) = some (.ofBool false)) := by
      intro m _
      apply objectTestCode_null.imp (fun _ _ _ knows => knows)
      exact fun _ n r m flag => flag.2
    apply (Triple.of_exists objectTestCode_moves each).imp
    · intro n r m null
      exact ⟨m, trivial, rfl, List.forall_mem_singleton.2 null, List.forall_mem_singleton.2 trivial⟩
    · intro _ n r m flag
      exact ⟨false, flag, by simp⟩
  | some C =>
    have memC := concrete C rfl
    have each : ∀ i : Memory × Address, b.HasTags i.1 ∧
        i.1 i.2 = some (.ptr, .address (.symbol (.metadata C.name))) →
        Triple host (Knows i.1 [(.ofVar value, .address i.2)])
          (objectTestCode c receiver value T.name)
          (fun _ _ r _ => r (.var receiver) = some (.ofBool (T.name = settings.rootClass ||
            (tagRanges c T.name).any (·.containsTag (b.tagWord C))))) := by
      rintro i ⟨tags, header⟩
      apply (objectTestCode_object built ofBackend (Program.concreteClasses_subset memC) tags
        header).imp (fun _ _ _ knows => knows)
      exact fun _ n r m flag => flag.2
    apply (Triple.of_exists objectTestCode_moves each).imp
    · rintro n r m ⟨tags, a, refers, header⟩
      exact ⟨(m, a), ⟨tags, header⟩, rfl, List.forall_mem_singleton.2 refers,
        List.forall_mem_singleton.2 trivial⟩
    · intro _ n r m flag
      refine ⟨_, flag, ?_⟩
      rw [Bool.or_eq_true, decide_eq_true_eq,
        any_tagRanges_iff built ofBackend convention memC memT]
      simp

/-- Test whether an object is one of an interface. -/
def portraitBody : Body :=
  { kinds := [.object, .int]
    blocks :=
      [{ BasicBlock.empty with
          instructions := [.isInstance ⟨1⟩ ⟨0⟩ (.object "Framed")]
          terminator := .exit (some ⟨1⟩) }] }

/-- A method with the body. -/
def portraitMethod : MethodDef :=
  { signature := ⟨"isFramed", [.object "Root"], .primitive .int⟩, isStatic := true
    isNative := false, isAbstract := false, access := .anyClass, body := some portraitBody }

/-- The class with the method. -/
def exhibit : ClassDef := { ClassDef.empty "Root" with methods := [portraitMethod] }

/-- An interface without methods. -/
def framed : ClassDef := { ClassDef.empty "Framed" with isInterface := true }

/-- A class that inherits the interface from its parent. -/
def portrait : ClassDef := { ClassDef.empty "Portrait" with parent := some "Picture" }

/-- The classes with the one between them, which has the interface. -/
def gallery : Program :=
  { classes :=
      [exhibit, framed,
       { ClassDef.empty "Picture" with parent := some "Root", interfaces := ["Framed"] }, portrait]
    entryPoint := none
    nodup := by decide }

/-- The context of the method. -/
def portraitContext (b : Backend) : Context :=
  .ofBody b exhibit portraitMethod portraitBody

/-- A function that tests an object. -/
def portraitCode (b : Backend) (test : Emit Unit) : Function Label :=
  (test.next (.initial (portraitContext b) [] .empty)).draft.toFunction

/-- A memory with the tags of all classes and one object. -/
def objectMemory (b : Backend) (className : String) : Memory :=
  Function.update b.tagMemory (.object 0) (some (.ptr, .address (.symbol (.metadata className))))

/-- The state in which the function finds a word in its parameter. -/
def portraitStart (b : Backend) (className : String) (w : Word) : State Label :=
  .start (fun l => if l = .var ⟨0⟩ then some w else none) (objectMemory b className)

/-- The parameter of the example holds a reference to an object of the class. -/
lemma holdsReference_objectMemory (built : Backend.ofProgram p settings = .ok b) (n : Nat) :
    HoldsReference b ⟨0⟩ (some C) n (portraitStart b C.name (.address (.object 0))).registers
      (objectMemory b C.name) := by
  refine ⟨fun d memd cells tag data reaches => ?_, .object 0, rfl, Function.update_self ..⟩
  rw [objectMemory, Function.update_of_ne (by simp [tagAddress])]
  exact Backend.hasTags_tagMemory built d memd cells tag data reaches

/-- Code that tests an object runs to its end, where the test has left what it promises. -/
lemma portraitCode_runs {test : Emit Unit} {Q : Unit → Assertion} {object : Option ClassDef}
    {name : String} {w : Word} (safely : Safely host (HoldsReference b ⟨0⟩ object) test Q)
    (given : HoldsReference b ⟨0⟩ object 0 (portraitStart b name w).registers
      (objectMemory b name)) :
    ∃ τ, (portraitCode b test).Runs host (portraitStart b name w) τ ∧
      ∃ n, Q () n τ.registers τ.memory := by
  have empty : (Progress.initial (portraitContext b) [] .empty).At [] ⟨.entry, []⟩ [] :=
    ⟨.start .., List.forall_mem_nil _⟩
  obtain ⟨τ, steps, holds⟩ := safely.triple.exists_run empty given
  exact ⟨τ, steps, _, holds⟩

/-- A portrait is framed, since pictures are; an object of the root class and null are not. -/
theorem portrait_is_framed :
    ∃ b test, Backend.ofProgram gallery Backend.shortRoot = .ok b ∧
      isInstance (portraitContext b) ⟨1⟩ ⟨0⟩ (.object framed.name) = .ok test ∧
      ∀ host : Host,
        (∃ τ, (portraitCode b test).Runs host
            (portraitStart b portrait.name (.address (.object 0))) τ ∧
          τ.registers (.var ⟨1⟩) = some (.int 1)) ∧
        (∃ τ, (portraitCode b test).Runs host
            (portraitStart b exhibit.name (.address (.object 0))) τ ∧
          τ.registers (.var ⟨1⟩) = some (.int 0)) ∧
        (∃ τ, (portraitCode b test).Runs host (portraitStart b portrait.name .null) τ ∧
          τ.registers (.var ⟨1⟩) = some (.int 0)) := by
  obtain ⟨b, built⟩ := Backend.exists_ofProgram (p := gallery) rfl (by decide +kernel) (by decide)
    Backend.shortRoot
  have convention : gallery.ListsInterfaces := by decide
  have declared : framed ∈ gallery.classes := by decide
  have kind : (portraitContext b).kindOf ⟨0⟩ = .ok .object := rfl
  have number : (portraitContext b).typeOf ⟨1⟩ = .ok .i32 := rfl
  obtain ⟨test, tests, passes⟩ :=
    object_test_iff_subtype built convention declared rfl kind number
  have concrete : ∀ C ∈ [portrait, exhibit], ∀ D ∈ some C, D ∈ gallery.concreteClasses := by decide
  refine ⟨b, test, built, tests, fun host => ⟨?_, ?_, ?_⟩⟩
  · -- a portrait is framed
    have given := holdsReference_objectMemory (C := portrait) built 0
    have safely := passes host (some portrait) (concrete _ (by simp))
    obtain ⟨τ, steps, _, flag, register, iff⟩ := portraitCode_runs safely given
    have subtype : gallery.isSubtype portrait.name framed.name = true := by decide +kernel
    refine ⟨τ, steps, ?_⟩
    rw [register, iff.2 ⟨_, rfl, .inr subtype⟩]
    rfl
  · -- an exhibit is not
    have given := holdsReference_objectMemory (C := exhibit) built 0
    have safely := passes host (some exhibit) (concrete _ (by simp))
    obtain ⟨τ, steps, _, flag, register, iff⟩ := portraitCode_runs safely given
    have other : ¬(framed.name = Backend.shortRoot.rootClass ∨
        gallery.isSubtype exhibit.name framed.name = true) := by decide +kernel
    have fails : flag = false := by
      rw [Bool.eq_false_iff]
      intro holds
      obtain ⟨C, eq, subtype⟩ := iff.1 holds
      cases eq
      exact other subtype
    refine ⟨τ, steps, ?_⟩
    rw [register, fails]
    rfl
  · -- null is an instance of nothing
    have given : HoldsReference b ⟨0⟩ none 0 (portraitStart b portrait.name .null).registers
        (objectMemory b portrait.name) := rfl
    obtain ⟨τ, steps, _, flag, register, iff⟩ :=
      portraitCode_runs (passes host none (by rintro _ ⟨⟩)) given
    have fails : flag = false := by
      rw [Bool.eq_false_iff]
      intro holds
      obtain ⟨C, none, _⟩ := iff.1 holds
      cases none
    refine ⟨τ, steps, ?_⟩
    rw [register, fails]
    rfl

end ObjectBackend.Lowering
