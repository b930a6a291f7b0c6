import ObjectBackend.Proofs.Image.Tags
import ObjectBackend.Proofs.Lowering.Bodies

/-!
# Type tests on arrays

An array of references has the metadata of the class it was made for, and a test for a type of
arrays looks for the tag in that metadata. So it tells whether the class is a subtype of the element
type, except that an array that was made for an interface passes as one of the root class
(`array_test_iff_subtype`): the metadata of interfaces has the tag of that class.
-/

namespace ObjectBackend.Lowering

open Target Emit

variable {p : Program} {settings : Settings} {b : Backend} {c : Context} {host : Host}
  {S T r : ClassDef} {name : String} {array size value receiver : Var} {make test : Emit Unit}

/-- An array of references in memory that was made for a class or an interface. -/
structure IsReferenceArray (m : Memory) (a : Address) (className : String) : Prop where
  metadata : m a = some (.ptr, .address (.symbol (.arrayMetadata .object)))
  itemClass : m (itemClassAddress a) = some (.ptr, .address (.symbol (.metadata className)))

/-- The environment makes the arrays that it is asked for, and leaves the tags of classes alone. -/
def MakesArrays (host : Host) : Prop :=
  ∀ (metadata : Address) (size length : Int) (m : Memory), ∃ k m',
    host (.runtime .allocArray) [.address metadata, .int size, .int length] m =
      some (some (.address (.object k)), m') ∧
    m' (.object k) = some (.ptr, .address metadata) ∧
    ∀ name, m' (tagAddress (.symbol (.metadata name))) = m (tagAddress (.symbol (.metadata name)))

/-- The memory has the tags of all classes, and a variable is a number. -/
def HoldsLength (b : Backend) (v : Var) : Assertion := fun _ r m =>
  b.HasTags m ∧ ∃ n, r (.var v) = some (.int n)

/-- The memory has the tags of all classes, and a variable refers to a new array of references. -/
def HoldsNewArray (b : Backend) (v : Var) (k : Nat) : Assertion := fun _ r m =>
  b.HasTags m ∧ r (.var v) = some (.address (.object k)) ∧
    m (.object k) = some (.ptr, .address (.symbol (.arrayMetadata .object)))

/-- The memory has the tags of all classes, and a variable refers to an array that was made for a
class or an interface. -/
def HoldsArray (b : Backend) (v : Var) (className : String) : Assertion := fun _ r m =>
  b.HasTags m ∧ ∃ a, r (.var v) = some (.address a) ∧ IsReferenceArray m a className

/-- The code for an array of references. -/
def makeArray (receiver size : Var) (itemClass : Symbol) : Emit Unit := do
  .assignVar receiver
    (.call .ptr (.ofRuntime .allocArray)
      [.ptr (.symbol (.arrayMetadata .object)), .i32 8, ⟨.i32, .ofVar size⟩])
  let slot ← .define (.fieldOf (.runtime .array) (.ofVar receiver) [0, itemClassIndex])
  .run (.store (.ptr (.symbol itemClass)) slot)

/-- Making an array of a class succeeds with the code that makes one of its metadata. -/
lemma constructArray_eq : Except.Ensures (· = makeArray array size (.metadata name))
    (constructArray c array (.object name) size) := by
  dsimp only [constructArray]
  split
  · exact .error _
  · refine .bind fun _ _ => .bind fun _ _ => ?_
    split
    case isTrue =>
      refine .bind fun symbol given => .pure ?_
      obtain ⟨_, _, eq⟩ := Except.exists_of_bind_eq_ok given
      cases eq
      rfl
    case isFalse other => exact absurd rfl other

/-- The code of a test for arrays whose elements are of a class. -/
lemma isInstance_eq : Except.Ensures
    (· = if name = c.backend.settings.rootClass then arrayTest receiver value .object
      else if (tagRanges c name).isEmpty then failTest receiver
      else itemClassTest receiver value (tagInRanges (tagRanges c name)))
    (isInstance c receiver value (.array (.object name))) := by
  refine .bind fun _ _ => .bind fun _ _ => ?_
  change Except.Ensures _ (referenceArrayTest c receiver value (.object name))
  rw [referenceArrayTest]
  split
  · exact .pure rfl
  · exact .bind fun _ _ => .pure rfl

/-- An array is allocated with the metadata of arrays of references. -/
lemma allocate_runs (makes : MakesArrays host) :
    Triple host (HoldsLength b size)
      (.assignVar array (.call .ptr (.ofRuntime .allocArray)
        [.ptr (.symbol (.arrayMetadata .object)), .i32 8, ⟨.i32, .ofVar size⟩]))
      (fun _ n r m => ∃ k, HoldsNewArray b array k n r m) := by
  apply Triple.assign
  rintro n r m ⟨tags, length, given⟩
  obtain ⟨k, m', result, metadata, same⟩ := makes (.symbol (.arrayMetadata .object)) 8 length m
  refine ⟨.address (.object k), m', ?_, k, ?_, Function.update_self .., metadata⟩
  · have word : (Value.ofVar size).word? r = some (.int length) := given
    simp only [Instr.run?, List.mapM_cons, List.mapM_nil, word]
    exact result
  · intro d memd cells tag data reaches
    rw [same]
    exact tags d memd cells tag data reaches

/-- The place of the element class in a new array. -/
lemma itemClassSlot_runs :
    Triple host (fun n r m => ∃ k, HoldsNewArray b array k n r m)
      (.define (.fieldOf (.runtime .array) (.ofVar array) [0, itemClassIndex]))
      (fun slot n r m => ∃ k, HoldsNewArray b array k n r m ∧
        slot.word? r = some (.address (itemClassAddress (.object k)))) := by
  apply Triple.define
  rintro n r m ⟨k, tags, refers, metadata⟩
  have word : (Value.ofVar array).word? r = some (.address (.object k)) := refers
  refine ⟨.address (itemClassAddress (.object k)), m, ?_, k, ⟨tags, ?_, metadata⟩,
    Function.update_self ..⟩
  · simp only [Instr.fieldOf, Instr.run?, word]
    rfl
  · rw [Function.update_of_ne (by simp)]
    exact refers

/-- The element class is stored where neither the metadata of the array nor a tag is. -/
lemma storeItemClass_runs (slot : Value) :
    Triple host (fun n r m => ∃ k, HoldsNewArray b array k n r m ∧
        slot.word? r = some (.address (itemClassAddress (.object k))))
      (.run (.store (.ptr (.symbol (.metadata name))) slot))
      (fun _ => HoldsArray b array name) := by
  apply Triple.run
  rintro n r m ⟨k, ⟨tags, refers, metadata⟩, word⟩
  refine ⟨none, Function.update m (itemClassAddress (.object k))
    (some (.ptr, .address (.symbol (.metadata name)))), ?_, ?_, .object k, refers, ?_⟩
  · simp only [Instr.run?, word]
    rfl
  · intro d memd cells tag data reaches
    rw [Function.update_of_ne (by simp [tagAddress, itemClassAddress])]
    exact tags d memd cells tag data reaches
  · constructor
    · rw [Function.update_of_ne (by simp [itemClassAddress])]
      exact metadata
    · exact Function.update_self ..

/-- What the code for an array does: the array has the class of its elements. -/
lemma constructArray_runs (makes : MakesArrays host)
    (given : constructArray c array (.object name) size = .ok make) :
    Triple host (HoldsLength b size) make (fun _ => HoldsArray b array name) := by
  rw [constructArray_eq _ given]
  apply (allocate_runs makes).bind
  intro _
  apply itemClassSlot_runs.bind
  exact storeItemClass_runs

/-- What a test finds out about an array in a memory that does not change. -/
lemma isInstance_flag (built : Backend.ofProgram p settings = .ok b) (memS : S ∈ p.classes)
    (ofBackend : c.backend = b)
    (given : isInstance c receiver array (.array (.object name)) = .ok test) {m : Memory}
    {a : Address} (tags : b.HasTags m) (holds : IsReferenceArray m a S.name) :
    Triple host (Knows m [(.ofVar array, .address a)]) test (IsFlag receiver m
      (name = settings.rootClass || (tagRanges c name).any (·.containsTag (b.tagWord S)))) := by
  have root : c.backend.settings = settings := by
    rw [ofBackend]
    exact Backend.settings_eq built
  have code := isInstance_eq _ given
  rw [root] at code
  have object : (Value.ofVar array, Word.address a) ∈ [(.ofVar array, .address a)] :=
    List.mem_singleton_self _
  by_cases isRoot : name = settings.rootClass
  · rw [code, if_pos isRoot, decide_eq_true isRoot, Bool.true_or]
    have passes : Triple host (Knows m [(.ofVar array, .address a)])
        (arrayTest receiver array .object) (IsFlag receiver m
          (Address.symbol (.arrayMetadata .object) = .symbol (.arrayMetadata .object))) :=
      arrayTest_runs object holds.metadata .object
    rw [decide_eq_true rfl] at passes
    exact passes
  · rw [code, if_neg isRoot, decide_eq_false isRoot, Bool.false_or]
    split
    case isTrue empty =>
      rw [List.isEmpty_iff.1 empty]
      exact failTest_runs receiver
    case isFalse nonempty =>
      exact itemClassTest_runs object holds.metadata holds.itemClass (tags.tag_eq built memS)
        (Bool.eq_false_iff.2 nonempty)

/-- What a test finds out about an array: whether the tag of the class that it was made for is in
the ranges of the element type. -/
lemma isInstance_runs (built : Backend.ofProgram p settings = .ok b) (memS : S ∈ p.classes)
    (ofBackend : c.backend = b)
    (given : isInstance c receiver array (.array (.object name)) = .ok test) :
    Triple host (HoldsArray b array S.name) test fun _ _ r _ => r (.var receiver) = some (.ofBool
      (name = settings.rootClass || (tagRanges c name).any (·.containsTag (b.tagWord S)))) := by
  have moves : test.Moves := (isInstance_emits (p := .start) _ _ _ _ given).moves
  have each : ∀ i : Memory × Address, b.HasTags i.1 ∧ IsReferenceArray i.1 i.2 S.name →
      Triple host (Knows i.1 [(.ofVar array, .address i.2)]) test fun _ _ r _ =>
        r (.var receiver) = some (.ofBool
          (name = settings.rootClass || (tagRanges c name).any (·.containsTag (b.tagWord S)))) := by
    rintro i ⟨tags, holds⟩
    apply (isInstance_flag built memS ofBackend given tags holds).imp
    · exact fun n r m knows => knows
    · exact fun _ n r m flag => flag.2
  apply (Triple.of_exists moves each).imp
  · rintro n r m ⟨tags, a, refers, holds⟩
    refine ⟨(m, a), ⟨tags, holds⟩, rfl, ?_, ?_⟩
    · exact List.forall_mem_singleton.2 refers
    · exact List.forall_mem_singleton.2 trivial
  · exact fun _ n r m flag => flag

/-- A test for arrays of a class or an interface tells whether the class that the array was made for
has it among its ancestors or its interfaces, but it takes an array that was made for an interface
as one that was made for the root class, if that is the class that all others descend from. -/
theorem array_test_iff_subtype (built : Backend.ofProgram p settings = .ok b)
    (memr : r ∈ p.concreteClasses) (named : r.name = settings.rootClass)
    (rooted : ∀ d ∈ p.concreteClasses, r ∈ p.ancestors d.name) (memS : S ∈ p.classes)
    (memT : T ∈ p.classes) (makes : MakesArrays host) (ofBackend : c.backend = b)
    (constructs : constructArray c array (.object S.name) size = .ok make)
    (tests : isInstance c receiver value (.array (.object T.name)) = .ok test) :
    let name := if S.isInterface then settings.rootClass else S.name
    Triple host (HoldsLength b size) make (fun _ => HoldsArray b array S.name) ∧
    Triple host (HoldsArray b value S.name) test (fun _ _ r _ => ∃ passes,
      r (.var receiver) = some (.ofBool passes) ∧
      (passes = true ↔
        if T.isInterface then p.isSubtype name T.name = true else T ∈ p.ancestors name)) := by
  intro name
  constructor
  · exact constructArray_runs makes constructs
  · apply (isInstance_runs built memS ofBackend tests).imp (fun _ _ _ holds => holds)
    intro _ n r' m flag
    refine ⟨_, flag, ?_⟩
    obtain ⟨u, memu, eq, word⟩ := Backend.exists_tagged built memr rooted memS
    obtain ⟨_, tagged, _⟩ := Backend.ofProgram_spec built
    have tags := TagMap.any_ranges tagged memu memT
    rw [← word, eq, named] at tags
    rw [tagRanges, ofBackend, Bool.or_eq_true, tags, decide_eq_true_eq]
    -- all arrays of references pass a test for the root class
    constructor
    · rintro (isRoot | supertype)
      · obtain rfl := Program.eq_of_name_eq memT (Program.concreteClasses_subset memr)
          (isRoot.trans named.symm)
        have up := rooted u memu
        rw [eq, named] at up
        rw [(Program.mem_concreteClasses.1 memr).2, if_neg Bool.false_ne_true]
        exact up
      · exact supertype
    · exact .inr

/-- An environment that makes one array. -/
def arrayHost : Host
  | .runtime .allocArray, [.address metadata, .int _, .int _], m =>
    some (some (.address (.object 0)),
      Function.update m (.object 0) (some (.ptr, .address metadata)))
  | _, _, _ => none

/-- The host of the example makes the arrays that it is asked for. -/
lemma makesArrays_arrayHost : MakesArrays arrayHost := by
  intro metadata size length m
  refine ⟨0, _, rfl, Function.update_self .., fun name => ?_⟩
  exact Function.update_of_ne (by simp [tagAddress]) _ m

/-- Make an array for a class or an interface, and test whether it is one of the interface. -/
def drawBody (itemClass : String) : Body :=
  { kinds := [.int, .array .object, .int]
    blocks :=
      [{ BasicBlock.empty with
          instructions :=
            [.constructArray ⟨1⟩ (.object itemClass) ⟨0⟩,
             .isInstance ⟨2⟩ ⟨1⟩ (.array (.object "Drawn"))]
          terminator := .exit (some ⟨2⟩) }] }

/-- A method with the body. -/
def drawMethod (name itemClass : String) : MethodDef :=
  { signature := ⟨name, [.primitive .int], .primitive .int⟩, isStatic := true, isNative := false
    isAbstract := false, access := .anyClass, body := some (drawBody itemClass) }

/-- A class with a method for arrays of a class, and one for arrays of the interface. -/
def painter : ClassDef :=
  { ClassDef.empty "Main" with
    parent := some "Root"
    methods := [drawMethod "circles" "Circle", drawMethod "figures" "Drawn"] }

/-- The interface with a class that has it, and the class that tests arrays. -/
def drawing : Program :=
  { classes :=
      [ClassDef.empty "Root", { ClassDef.empty "Drawn" with isInterface := true },
       { ClassDef.empty "Circle" with parent := some "Root", interfaces := ["Drawn"] }, painter]
    entryPoint := none
    nodup := by decide }

/-- The context of one of the methods. -/
def painting (b : Backend) (name itemClass : String) : Context :=
  .ofBody b painter (drawMethod name itemClass) (drawBody itemClass)

/-- The registers in which the methods find a length. -/
def lengthThree : Registers := fun l => if l = .var ⟨0⟩ then some (.int 3) else none

/-- A function that makes an array and tests it. -/
def paintingCode (c : Context) (make test : Emit Unit) : Function Label :=
  ((make >>= fun _ => test).next (.initial c [] .empty)).draft.toFunction

/-- Code that makes an array and then tests it runs to its end, where the test has left what it
promises. -/
lemma paintingCode_runs {Q : Assertion} (built : Backend.ofProgram p settings = .ok b)
    (first : Triple arrayHost (HoldsLength b ⟨0⟩) make (fun _ => HoldsArray b ⟨1⟩ name))
    (second : Triple arrayHost (HoldsArray b ⟨1⟩ name) test (fun _ => Q)) :
    ∃ τ, (paintingCode c make test).Runs arrayHost (.start lengthThree b.tagMemory) τ ∧
      ∃ n, Q n τ.registers τ.memory := by
  have empty : (Progress.initial c [] .empty).At [] ⟨.entry, []⟩ [] :=
    ⟨.start .., List.forall_mem_nil _⟩
  have given : HoldsLength b ⟨0⟩ 0 lengthThree b.tagMemory :=
    ⟨Backend.hasTags_tagMemory built, 3, rfl⟩
  obtain ⟨τ, steps, holds⟩ := (first.bind fun _ => second).exists_run empty given
  exact ⟨τ, steps, _, holds⟩

/-- An array of circles is one of the interface that circles have. -/
theorem circles_pass :
    ∃ b make test τ, Backend.ofProgram drawing Backend.shortRoot = .ok b ∧
      constructArray (painting b "circles" "Circle") ⟨1⟩ (.object "Circle") ⟨0⟩ = .ok make ∧
      isInstance (painting b "circles" "Circle") ⟨2⟩ ⟨1⟩ (.array (.object "Drawn")) = .ok test ∧
      (paintingCode (painting b "circles" "Circle") make test).Runs arrayHost
        (.start lengthThree b.tagMemory) τ ∧
      τ.registers (.var ⟨2⟩) = some (.int 1) := by
  have computed : ((Backend.ofProgram drawing Backend.shortRoot).toOption.bind fun b =>
      (constructArray (painting b "circles" "Circle") ⟨1⟩ (.object "Circle") ⟨0⟩).toOption.bind
        fun _ => (isInstance (painting b "circles" "Circle") ⟨2⟩ ⟨1⟩
          (.array (.object "Drawn"))).toOption.map fun _ => ()) = some () := by
    rw [Backend.ofProgram, DispatchTables.ofProgram, Program.sortedClasses_eq_insertionSort]
    cbv
  obtain ⟨b, built, computed⟩ := Option.bind_eq_some_iff.1 computed
  obtain ⟨make, test, constructs, tests, _⟩ := Except.exists_of_toOption_bind_map computed
  have built := Except.eq_ok_of_toOption built
  have root : drawing.classes[0] ∈ drawing.concreteClasses := by decide
  have circle : drawing.classes[2] ∈ drawing.classes := by decide
  have drawn : drawing.classes[1] ∈ drawing.classes := by decide
  obtain ⟨first, second⟩ := array_test_iff_subtype built root rfl (by decide +kernel) circle drawn
    makesArrays_arrayHost rfl constructs tests
  obtain ⟨τ, steps, _, passes, flag, iff⟩ := paintingCode_runs built first second
  refine ⟨b, make, test, τ, built, constructs, tests, steps, ?_⟩
  rw [flag, iff.2 (by decide +kernel)]
  rfl

/-- An array of the interface itself is none by the test, since the interface has the tag of the
root class. -/
theorem figures_fail :
    ∃ b make test τ, Backend.ofProgram drawing Backend.shortRoot = .ok b ∧
      constructArray (painting b "figures" "Drawn") ⟨1⟩ (.object "Drawn") ⟨0⟩ = .ok make ∧
      isInstance (painting b "figures" "Drawn") ⟨2⟩ ⟨1⟩ (.array (.object "Drawn")) = .ok test ∧
      (paintingCode (painting b "figures" "Drawn") make test).Runs arrayHost
        (.start lengthThree b.tagMemory) τ ∧
      τ.registers (.var ⟨2⟩) = some (.int 0) ∧ drawing.isSubtype "Drawn" "Drawn" = true := by
  have computed : ((Backend.ofProgram drawing Backend.shortRoot).toOption.bind fun b =>
      (constructArray (painting b "figures" "Drawn") ⟨1⟩ (.object "Drawn") ⟨0⟩).toOption.bind
        fun _ => (isInstance (painting b "figures" "Drawn") ⟨2⟩ ⟨1⟩
          (.array (.object "Drawn"))).toOption.map fun _ =>
            (tagRanges (painting b "figures" "Drawn") "Drawn")) = some [⟨1, 2⟩] := by
    rw [Backend.ofProgram, DispatchTables.ofProgram, Program.sortedClasses_eq_insertionSort]
    cbv
  obtain ⟨b, built, computed⟩ := Option.bind_eq_some_iff.1 computed
  obtain ⟨make, test, constructs, tests, ranges⟩ := Except.exists_of_toOption_bind_map computed
  have built := Except.eq_ok_of_toOption built
  have drawn : drawing.classes[1] ∈ drawing.classes := by decide
  obtain ⟨τ, steps, _, flag⟩ := paintingCode_runs built
    (constructArray_runs makesArrays_arrayHost constructs) (isInstance_runs built drawn rfl tests)
  refine ⟨b, make, test, τ, built, constructs, tests, steps, ?_, by decide +kernel⟩
  rw [flag, ranges]
  rfl

end ObjectBackend.Lowering
