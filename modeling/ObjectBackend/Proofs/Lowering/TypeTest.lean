import ObjectBackend.Lowering.TypeTest
import ObjectBackend.Proofs.Lowering.Execution

/-!
# Type tests at run time

What the code of a type test computes when it runs: a tag is looked for in some ranges, metadata is
compared, and an object that is not null is tested by its metadata. Arrays of references are tested
further by the tag in the metadata of their element class.
-/

namespace ObjectBackend.Lowering

open Target Emit

variable {host : Host} {m : Memory} {known : List (Value × Word)} {v : Value} {t : Int}

/-- Where metadata has the tag. -/
def tagAddress (metadata : Address) : Address := .part metadata (.runtime .header) [0, tagIndex]

/-- Where an array of references has the class of its elements. -/
def itemClassAddress (array : Address) : Address :=
  .part array (.runtime .array) [0, itemClassIndex]

/-- Flags are joined by conjunction. -/
lemma and_apply (a b : Bool) : BinaryOp.and.eval? 1 a.toInt b.toInt = some (a && b).toInt := by
  cases a <;> cases b <;> rfl

/-- Flags are joined by disjunction. -/
lemma or_apply (a b : Bool) : BinaryOp.or.eval? 1 a.toInt b.toInt = some (a || b).toInt := by
  cases a <;> cases b <;> rfl

/-- Comparing metadata with a symbol tells whether they are the same. -/
lemma isMetadata_evaluates {a : Address} (metadata : Gives known v (.address a)) (s : Symbol) :
    Evaluates host m known (isMetadata s v) (.ofBool (a = .symbol s)) := by
  apply Evaluates.icmp metadata (gives_symbol s)
  simp [Predicate.holds?]

/-- A test of a tag against a range tells whether the range contains it. -/
lemma tagInRange_evaluates (tag : (v, .int t) ∈ known) (r : TagRange) :
    Evaluates host m known (tagInRange v r) (.ofBool (r.containsTag t)) := by
  have given : Gives known v (.int t) := gives_of_mem tag
  apply Evaluates.bind (Evaluates.icmp given (gives_int r.lower) rfl)
  intro above
  have given : Gives ((above, .ofBool (r.lower ≤ t)) :: known) v (.int t) :=
    gives_of_mem (List.mem_cons_of_mem _ tag)
  apply Evaluates.bind (Evaluates.icmp given (gives_int r.upper) rfl)
  intro below
  apply Evaluates.binary (gives_of_mem _) (gives_of_mem (List.mem_cons_self ..)) (and_apply _ _)
  exact List.mem_cons_of_mem _ (List.mem_cons_self ..)

/-- Going through further ranges, the tag is in one of them or has been found before. -/
lemma tagInFurtherRanges_evaluates {found : Value} {b : Bool} (tag : (v, .int t) ∈ known)
    (before : (found, .ofBool b) ∈ known) (ranges : List TagRange) :
    Evaluates host m known
      (ranges.foldlM (fun found r => do .define (.binary .or .i1 found (← tagInRange v r))) found)
      (.ofBool (b || ranges.any (·.containsTag t))) := by
  induction ranges generalizing known found b with
  | nil =>
    rw [List.any_nil, Bool.or_false]
    exact Evaluates.pure before
  | cons r ranges ih =>
    rw [List.foldlM_cons, List.any_cons, ← Bool.or_assoc]
    have step : Evaluates host m known
        (do .define (.binary .or .i1 found (← tagInRange v r)))
        (.ofBool (b || r.containsTag t)) := by
      apply Evaluates.bind (tagInRange_evaluates tag r)
      intro inside
      apply Evaluates.binary _ (gives_of_mem (List.mem_cons_self ..)) (or_apply _ _)
      exact gives_of_mem (List.mem_cons_of_mem _ before)
    apply step.bind
    intro found
    exact ih (List.mem_cons_of_mem _ tag) (List.mem_cons_self ..)

/-- The tag in metadata is looked for in some ranges. -/
lemma tagInRanges_evaluates {metadata : Address} (given : Gives known v (.address metadata))
    (tagged : m (tagAddress metadata) = some (.i32, .int t)) {ranges : List TagRange}
    (nonempty : ranges.isEmpty = false) :
    Evaluates host m known (tagInRanges ranges v) (.ofBool (ranges.any (·.containsTag t))) := by
  cases ranges with
  | nil => cases nonempty
  | cons r ranges =>
    apply Evaluates.bind (Evaluates.fieldOf given)
    intro address
    apply Evaluates.bind (Evaluates.load (gives_of_mem (List.mem_cons_self ..)) tagged)
    intro tag
    rw [List.any_cons]
    apply Evaluates.bind (tagInRange_evaluates (List.mem_cons_self ..) r)
    intro found
    apply tagInFurtherRanges_evaluates _ (List.mem_cons_self ..) ranges
    exact List.mem_cons_of_mem _ (List.mem_cons_self ..)

/-- A truth value in the register of a variable. -/
def IsFlag (receiver : Var) (m₀ : Memory) (b : Bool) : Unit → Assertion :=
  fun _ _ r m => m = m₀ ∧ r (.var receiver) = some (.ofBool b)

/-- A flag is copied to its variable. -/
lemma copyFlag_runs {b : Bool} (receiver : Var) (flag : (v, .ofBool b) ∈ known) :
    Triple host (Knows m known) (copyFlag receiver v) (IsFlag receiver m b) := by
  apply Triple.assign
  intro n r m' knows
  refine ⟨.ofBool b, m', ?_, knows.memory, Function.update_self ..⟩
  have word : v.word? r = some (.ofBool b) := knows.words _ flag
  have extended : CastOp.zext.eval? 1 32 b.toInt = some b.toInt := by cases b <;> rfl
  simp [Instr.run?, word, Word.ofBool, Word.int?, IrType.intWidth?, IrType.isInteger,
    IrType.width?, extended]

/-- Code that computes a truth value; what else is known may be lost. -/
def Decides (host : Host) (m : Memory) (known : List (Value × Word)) (e : Emit Value) (b : Bool) :
    Prop :=
  Triple host (Knows m known) e fun flag => Knows m [(flag, .ofBool b)]

namespace Decides

variable {b : Bool} {w : Word} {e : Emit Value} {g : Value → Emit Value}
  {branch : Label → Label → Term Label}

/-- Code that evaluates a flag decides by it. -/
lemma of_evaluates (evaluates : Evaluates host m known e (.ofBool b)) :
    Decides host m known e b := by
  apply evaluates.imp (fun _ _ _ knows => knows)
  intro flag n r m' knows
  exact knows.mono (List.cons_subset_cons _ (List.nil_subset known))

/-- Code that decides may follow code that evaluates a word. -/
lemma bind (first : Evaluates host m known e w)
    (second : ∀ v, Decides host m ((v, w) :: known) (g v) b) :
    Decides host m known (e >>= g) b := Triple.bind first second

/-- A test that the branch goes to. -/
lemma testOrSkip (enters : ∀ (done check : Label) (r : Registers),
      (∀ e ∈ known, e.1.word? r = some e.2) → (branch done check).target? r = some check)
    (test : Decides host m known e b) : Decides host m known (Lowering.testOrSkip branch e) b := by
  apply Triple.testOrSkip
  · intro done check n r m' knows
    exact enters done check r knows.words
  · apply test.imp (fun _ _ _ knows => knows)
    intro v n r m' knows
    refine ⟨.ofBool b, knows.words _ (List.mem_singleton_self _), ?_⟩
    exact (knows.mono (List.nil_subset _)).assign _

/-- A test that the branch goes around fails. -/
lemma skipTest (moves : e.Moves) (skips : ∀ (done check : Label) (r : Registers),
      (∀ e ∈ known, e.1.word? r = some e.2) → (branch done check).target? r = some done) :
    Decides host m known (Lowering.testOrSkip branch e) false := by
  apply Triple.skipTest moves
  · intro done check n r m' knows
    exact skips done check r knows.words
  · intro n k r m' knows
    have nothing : Knows m [] k r m' :=
      ⟨knows.memory, List.forall_mem_nil _, List.forall_mem_nil _⟩
    exact nothing.assign _

end Decides

/-- A test that fails sets its flag to false. -/
lemma failTest_runs (receiver : Var) :
    Triple host (Knows m known) (failTest receiver) (IsFlag receiver m false) := by
  apply Triple.assign
  intro n r m' knows
  refine ⟨.ofBool false, m', ?_, knows.memory, Function.update_self ..⟩
  simp [Instr.run?, Instr.copy, Value.word?, Word.ofBool]

/-- A test against null tells whether the word is another one. -/
lemma nullTest_runs {w : Word} {receiver value : Var} (object : (.ofVar value, w) ∈ known) :
    Triple host (Knows m known) (nullTest receiver value) (IsFlag receiver m (w ≠ .null)) := by
  have compared : Evaluates host m known (.define (.icmp .ne .ptr (.ofVar value) .null))
      (.ofBool (w ≠ .null)) := Evaluates.icmp (gives_of_mem object) gives_null rfl
  apply Triple.bind compared
  intro flag
  exact copyFlag_runs receiver (List.mem_cons_self ..)

/-- Null is not tested further. -/
lemma objectTest_skips {receiver value : Var} {test : Value → Emit Value}
    (moves : ∀ v, (test v).Moves) (object : (.ofVar value, .null) ∈ known) :
    Triple host (Knows m known) (objectTest receiver value test) (IsFlag receiver m false) := by
  have compared : Evaluates host m known (.define (.icmp .eq .ptr (.ofVar value) .null))
      (.ofBool true) := Evaluates.icmp (gives_of_mem object) gives_null rfl
  apply Triple.bind compared
  intro isNull
  apply Triple.bind (Decides.skipTest ((Straight.define _ rfl).moves.bind moves) _)
  · intro flag
    exact copyFlag_runs receiver (List.mem_singleton_self _)
  · intro done check r words
    have word : isNull.word? r = some (.ofBool true) := words _ (List.mem_cons_self ..)
    simp [Term.target?, word, Word.ofBool, Word.int?]

/-- An object is tested by its metadata. -/
lemma objectTest_decides {a metadata : Address} {b : Bool} {receiver value : Var}
    {test : Value → Emit Value} (object : (.ofVar value, .address a) ∈ known)
    (class' : m a = some (.ptr, .address metadata))
    (tests : ∀ {v : Value} {known' : List (Value × Word)}, known ⊆ known' →
      (v, .address metadata) ∈ known' → Decides host m known' (test v) b) :
    Triple host (Knows m known) (objectTest receiver value test) (IsFlag receiver m b) := by
  have compared : Evaluates host m known (.define (.icmp .eq .ptr (.ofVar value) .null))
      (.ofBool false) := Evaluates.icmp (gives_of_mem object) gives_null rfl
  apply Triple.bind compared
  intro isNull
  have inside : Decides host m ((isNull, .ofBool false) :: known)
      (do test (← .define (.load .ptr (.ofVar value)))) b := by
    apply Decides.bind (Evaluates.load (gives_of_mem (List.mem_cons_of_mem _ object)) class')
    intro v
    apply tests _ (List.mem_cons_self ..)
    exact List.subset_cons_of_subset _ (List.subset_cons_self ..)
  -- the object is not null, so the branch goes to the test
  apply Triple.bind (Decides.testOrSkip _ inside)
  · intro flag
    exact copyFlag_runs receiver (List.mem_singleton_self _)
  · intro done check r words
    have word : isNull.word? r = some (.ofBool false) := words _ (List.mem_cons_self ..)
    simp [Term.target?, word, Word.ofBool, Word.int?]

/-- A test of an object tells what the test of its metadata does. -/
lemma objectTest_runs {a metadata : Address} {b : Bool} {receiver value : Var}
    {test : Value → Emit Value} (object : (.ofVar value, .address a) ∈ known)
    (class' : m a = some (.ptr, .address metadata))
    (tests : ∀ {v : Value} {known' : List (Value × Word)}, known ⊆ known' →
      (v, .address metadata) ∈ known' → Evaluates host m known' (test v) (.ofBool b)) :
    Triple host (Knows m known) (objectTest receiver value test) (IsFlag receiver m b) :=
  objectTest_decides object class' fun subset mem => .of_evaluates (tests subset mem)

/-- An object is tested for the class of arrays of a kind. -/
lemma arrayTest_runs {a metadata : Address} {receiver value : Var}
    (object : (.ofVar value, .address a) ∈ known)
    (class' : m a = some (.ptr, .address metadata)) (kind : ElementKind) :
    Triple host (Knows m known) (arrayTest receiver value kind)
      (IsFlag receiver m (metadata = .symbol (.arrayMetadata kind))) :=
  objectTest_runs object class' fun _ mem => isMetadata_evaluates (gives_of_mem mem) _

/-- An array of references is tested by its element class. -/
lemma itemTest_runs {a itemClass : Address} {b : Bool} {receiver value : Var}
    {test : Value → Emit Value} (object : (.ofVar value, .address a) ∈ known)
    (class' : m a = some (.ptr, .address (.symbol (.arrayMetadata .object))))
    (item : m (itemClassAddress a) = some (.ptr, .address itemClass))
    (tests : ∀ {v : Value} {known' : List (Value × Word)}, (v, .address itemClass) ∈ known' →
      Evaluates host m known' (test v) (.ofBool b)) :
    Triple host (Knows m known) (itemClassTest receiver value test) (IsFlag receiver m b) := by
  apply objectTest_runs object class'
  intro v known' subset mem
  have compared : Evaluates host m known' (isMetadata (.arrayMetadata .object) v)
      (.ofBool (Address.symbol (.arrayMetadata .object) = .symbol (.arrayMetadata .object))) :=
    isMetadata_evaluates (gives_of_mem mem) _
  rw [decide_eq_true rfl] at compared
  apply compared.bind
  intro isArray
  -- the object is an array, so the branch goes to the test of its element class
  apply Evaluates.testOrSkip
  · intro done check r words
    have word : isArray.word? r = some (.ofBool true) := words _ (List.mem_cons_self ..)
    simp [Term.target?, word, Word.ofBool, Word.int?]
  · have object : Gives ((isArray, .ofBool true) :: known') (.ofVar value) (.address a) :=
      gives_of_mem (List.mem_cons_of_mem _ (subset object))
    apply Evaluates.bind (Evaluates.fieldOf object)
    intro slot
    apply Evaluates.bind (Evaluates.load (gives_of_mem (List.mem_cons_self ..)) item)
    intro class'
    exact tests (List.mem_cons_self ..)

/-- An array of references is tested by the tag of its element class. -/
lemma itemClassTest_runs {a itemClass : Address} {receiver value : Var} {ranges : List TagRange}
    (object : (.ofVar value, .address a) ∈ known)
    (class' : m a = some (.ptr, .address (.symbol (.arrayMetadata .object))))
    (item : m (itemClassAddress a) = some (.ptr, .address itemClass))
    (tagged : m (tagAddress itemClass) = some (.i32, .int t)) (nonempty : ranges.isEmpty = false) :
    Triple host (Knows m known) (itemClassTest receiver value (tagInRanges ranges))
      (IsFlag receiver m (ranges.any (·.containsTag t))) :=
  itemTest_runs object class' item fun mem =>
    tagInRanges_evaluates (gives_of_mem mem) tagged nonempty

/-- The element class of an object that is no array of references is not looked at. -/
lemma itemTest_skips {a metadata : Address} {receiver value : Var} {test : Value → Emit Value}
    (moves : ∀ v, (test v).Moves) (object : (.ofVar value, .address a) ∈ known)
    (class' : m a = some (.ptr, .address metadata))
    (other : metadata ≠ .symbol (.arrayMetadata .object)) :
    Triple host (Knows m known) (itemClassTest receiver value test) (IsFlag receiver m false) := by
  apply objectTest_decides object class'
  intro v known' _ mem
  have compared : Evaluates host m known' (isMetadata (.arrayMetadata .object) v)
      (.ofBool (metadata = .symbol (.arrayMetadata .object))) :=
    isMetadata_evaluates (gives_of_mem mem) _
  rw [decide_eq_false other] at compared
  apply Decides.bind compared
  intro isArray
  apply Decides.skipTest
  · exact (Straight.define _ rfl).moves.bind fun _ =>
      (Straight.define _ rfl).moves.bind moves
  · intro done check r words
    have word : isArray.word? r = some (.ofBool false) := words _ (List.mem_cons_self ..)
    simp [Term.target?, word, Word.ofBool, Word.int?]

end ObjectBackend.Lowering
