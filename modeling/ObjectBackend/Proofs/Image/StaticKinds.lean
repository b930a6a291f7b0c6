import ObjectBackend.Proofs.Image.Tags
import ObjectBackend.Proofs.Lowering.Bodies

/-!
# Type tests decided by kinds

A variable may be known to refer to arrays of one kind, and a test on it leaves out what its kind
decides. Arrays have the tag of the root class, and a test on any other variable looks for that tag.
So the two agree on an array, except on a test for an interface of the root class
(`kinds_agree_iff`): there the tag passes, but the kind does not.
-/

namespace ObjectBackend

open Target

/-- A class and one of its ancestors that descends from it are the same. -/
lemma Program.Grounded.antisymm {p : Program} {c d : ClassDef} (groundedc : p.Grounded c)
    (groundedd : p.Grounded d) (up : d ∈ p.ancestors c.name) (down : c ∈ p.ancestors d.name) :
    c = d := by
  have memc := concreteClasses_subset groundedc.mem_concreteClasses
  have memd := concreteClasses_subset groundedd.mem_concreteClasses
  have below := (isPrefix_descent_iff memd groundedc).2 up
  have above := (isPrefix_descent_iff memc groundedd).2 down
  exact eq_of_descent_eq memc memd (above.eq_of_length (above.length_le.antisymm below.length_le))

namespace Backend

open Lowering (tagAddress tagIndex)

variable {p : Program} {settings : Settings} {b : Backend} {kind : ElementKind} {T : ClassDef}
  {h : Header} {cells : List (IrType × Constant)} {m : Memory}

/-- The tag in the metadata of arrays. -/
def arrayTag (b : Backend) : Int := (b.tags.tag? b.settings.rootClass).getD (-1)

/-- The tags of arrays in memory are those of the metadata that has been emitted. -/
def HasArrayTags (b : Backend) (m : Memory) : Prop :=
  ∀ kind cells tag,
    .data (.arrayMetadata kind) .data (.runtime .header) (.record cells) ∈ b.arrayMetadata →
    Reaches b.Defines (.runtime .header) tagIndex.toNat (Constant.i32 (.int tag)) cells →
    m (tagAddress (.symbol (.arrayMetadata kind))) = some (.i32, .int tag)

/-- What a load through the field of the tag reaches in the metadata of arrays. -/
lemma reaches_arrayTag {cell : IrType × Constant}
    (mem : .data (.arrayMetadata kind) .data (.runtime .header) (.record cells) ∈ b.arrayMetadata) :
    Reaches b.Defines (.runtime .header) tagIndex.toNat cell cells ↔
      cell = Constant.i32 (.int b.arrayTag) := by
  obtain ⟨_, _, eq⟩ := List.mem_map.1 mem
  obtain rfl := Constant.record.inj (Entry.data.inj eq).2.2.2
  constructor
  · intro reaches
    cases reaches with
    | here _ _ _ found => exact (Option.some.inj found).symm
  · rintro rfl
    refine .here (List.mem_cons_self ..) ?_ ?_ rfl
    · rw [List.map_append, List.map_map, List.map_map, ← List.map_const']
      exact List.prefix_rfl
    · rw [List.length_append]
      exact Nat.lt_add_right _ (by decide : 2 < 5)

/-- The tag of arrays is read from the metadata of each kind. -/
lemma HasArrayTags.tag_eq (tags : b.HasArrayTags m) (kind : ElementKind) :
    m (tagAddress (.symbol (.arrayMetadata kind))) = some (.i32, .int b.arrayTag) := by
  obtain ⟨cells, data⟩ := exists_arrayCells b kind
  exact tags kind cells _ data ((reaches_arrayTag data).2 rfl)

/-- Where the root class is above all classes, arrays pass a test for their tag just if the type is
an interface of it. -/
lemma any_arrayTag_iff_of_root (built : ofProgram p settings = .ok b) {r : ClassDef}
    (memr : r ∈ p.concreteClasses) (named : r.name = settings.rootClass)
    (below : ∀ d ∈ p.concreteClasses, r ∈ p.ancestors d.name) (memT : T ∈ p.classes)
    (other : T ≠ r) :
    ((b.tags.ranges? T.name).getD []).any (·.containsTag b.arrayTag) = true ↔
      T.isInterface = true ∧ p.isSubtype r.name T.name = true := by
  obtain ⟨_, tagged, _⟩ := ofProgram_spec built
  have grounded := fun c mem => TagMap.grounded_of_ofProgram tagged (c := c) mem
  have tag : b.arrayTag = (b.tags.tag? r.name).getD 0 := by
    rw [arrayTag, settings_eq built, ← named, TagMap.tag?_of_root tagged memr below]
    rfl
  rw [tag, TagMap.any_ranges tagged memr memT]
  split
  case isTrue isInterface => exact (and_iff_right isInterface).symm
  case isFalse isClass =>
    refine iff_of_false (fun passes => ?_) (fun given => isClass given.1)
    -- no other class is above the root
    have memT' := Program.mem_concreteClasses.2 ⟨memT, Bool.eq_false_iff.2 isClass⟩
    exact other ((grounded r memr).antisymm (grounded T memT') passes (below T memT')).symm

/-- Without classes there is no tag to look for. -/
lemma ranges_eq_nil (built : ofProgram p settings = .ok b) (none : p.concreteClasses = [])
    (memT : T ∈ p.classes) : (b.tags.ranges? T.name).getD [] = [] := by
  obtain ⟨_, tagged, _⟩ := ofProgram_spec built
  have isInterface : T.isInterface = true := by
    by_contra isClass
    have memT' := Program.mem_concreteClasses.2 ⟨memT, Bool.eq_false_iff.2 isClass⟩
    rw [none] at memT'
    cases memT'
  rw [TagMap.ranges?_of_isInterface tagged memT isInterface, TagMap.implementorRanges,
    TagMap.classRanges, none, List.map_nil, List.filter_nil, List.map_nil, TagRange.merge,
    List.mergeSort_nil]
  rfl

/-- Arrays pass a test for their tag just if the type is an interface of the root class. -/
lemma any_arrayTag_iff (built : ofProgram p settings = .ok b)
    (rooted : ∀ d ∈ p.concreteClasses, ∃ r ∈ p.ancestors d.name, r.name = settings.rootClass)
    (memT : T ∈ p.classes) (other : T.name ≠ settings.rootClass) :
    ((b.tags.ranges? T.name).getD []).any (·.containsTag b.arrayTag) = true ↔
      ∃ r ∈ p.concreteClasses, r.name = settings.rootClass ∧ T.isInterface = true ∧
        p.isSubtype r.name T.name = true := by
  obtain ⟨_, tagged, _⟩ := ofProgram_spec built
  have above : ∀ d ∈ p.concreteClasses,
      ∃ r ∈ p.concreteClasses, r ∈ p.ancestors d.name ∧ r.name = settings.rootClass := by
    intro d memd
    obtain ⟨r, up, named⟩ := rooted d memd
    have grounded := TagMap.grounded_of_ofProgram tagged memd
    exact ⟨r, (grounded.of_mem_ancestors up).mem_concreteClasses, up, named⟩
  -- names are distinct, so there is one root class at most
  have unique : ∀ r ∈ p.concreteClasses, ∀ r' ∈ p.concreteClasses,
      r.name = settings.rootClass → r'.name = settings.rootClass → r' = r := by
    intro r memr r' memr' named named'
    exact Program.eq_of_name_eq (Program.concreteClasses_subset memr')
      (Program.concreteClasses_subset memr) (named'.trans named.symm)
  by_cases exists_root : ∃ r ∈ p.concreteClasses, r.name = settings.rootClass
  · obtain ⟨r, memr, named⟩ := exists_root
    have below : ∀ d ∈ p.concreteClasses, r ∈ p.ancestors d.name := by
      intro d memd
      obtain ⟨r', memr', up, named'⟩ := above d memd
      rwa [← unique r memr r' memr' named named']
    have differs : T ≠ r := by
      rintro rfl
      exact other named
    rw [any_arrayTag_iff_of_root built memr named below memT differs]
    constructor
    · exact fun given => ⟨r, memr, named, given⟩
    · rintro ⟨r', memr', named', given⟩
      rwa [unique r memr r' memr' named named'] at given
  · have none : p.concreteClasses = [] := by
      rw [List.eq_nil_iff_forall_not_mem]
      intro d memd
      obtain ⟨r, memr, _, named⟩ := above d memd
      exact exists_root ⟨r, memr, named⟩
    rw [ranges_eq_nil built none memT]
    exact iff_of_false Bool.false_ne_true fun ⟨r, memr, named, _⟩ => exists_root ⟨r, memr, named⟩

end Backend

namespace Lowering

open Emit

variable {p : Program} {settings : Settings} {b : Backend} {c c₁ c₂ : Context} {host : Host}
  {receiver value v₁ v₂ r₁ r₂ : Var} {kind : ElementKind} {type item : ValueType} {m : Memory}
  {a : Address}

/-- A symbol for the metadata of a class, an interface or arrays. -/
inductive Describes (p : Program) : Symbol → Prop where
  | declared {C : ClassDef} : C ∈ p.classes → Describes p (.metadata C.name)
  | arrays (kind : ElementKind) : Describes p (.arrayMetadata kind)

/-- An array of a kind in memory. An array of references has the class that it was made for. -/
structure IsArray (p : Program) (m : Memory) (a : Address) (kind : ElementKind) : Prop where
  metadata : m a = some (.ptr, .address (.symbol (.arrayMetadata kind)))
  itemClass : kind = .object →
    ∃ s, Describes p s ∧ m (itemClassAddress a) = some (.ptr, .address (.symbol s))

/-- A type that can be tested for: a declared class or interface, or a type of arrays whose elements
are of such a class or of the root class, or are numbers or arrays. -/
def Testable (b : Backend) : ValueType → Prop
  | .object name => (b.program.lookup? name).isSome = true
  | .array (.object name) =>
    name = b.settings.rootClass ∨ (b.program.lookup? name).isSome = true
  | .array (.primitive _) | .array (.array _) => True
  | _ => False

/-- The type is an interface that the root class has. -/
def IsRootInterface (p : Program) (root : String) (type : ValueType) : Prop :=
  ∃ r ∈ p.concreteClasses, r.name = root ∧
    ∃ T ∈ p.interfaces, type = .object T.name ∧ p.isSubtype r.name T.name = true

section Code

variable {k : Kind} (held : c.kindOf value = .ok k) (isReference : k.isReference = true)
  (number : c.typeOf receiver = .ok .i32)

include held isReference number

/-- Once the variables have been checked, a test for a class or an interface is emitted. -/
lemma isInstance_object (name : String) :
    isInstance c receiver value (.object name) =
      (c.expectClass name >>= fun _ => .ok
        (if name = c.backend.settings.rootClass then nullTest receiver value
        else if k ≠ .object || (tagRanges c name).isEmpty then failTest receiver
        else objectTest receiver value (tagInRanges (tagRanges c name)))) := by
  rw [isInstance, Context.expectReference, Context.expect, held, number]
  change (if k.isReference = true then _ else _) >>= _ = _
  rw [if_pos isReference]
  change classTest c receiver value name = _
  rw [classTest, held]
  rfl

/-- Once the variables have been checked, a test for a type of arrays is emitted. -/
lemma isInstance_array (item : ValueType) :
    isInstance c receiver value (.array item) =
      if item.elementKind = .object then referenceArrayTest c receiver value item
      else .ok (if k = .array item.elementKind then nullTest receiver value
        else arrayTest receiver value item.elementKind) := by
  rw [isInstance, Context.expectReference, Context.expect, held, number]
  change (if k.isReference = true then _ else _) >>= _ = _
  rw [if_pos isReference]
  change (if _ then _ else if k = _ then Except.ok _ else Except.ok _) = _
  rw [apply_ite Except.ok]

/-- What is accepted as the type of a test does not depend on the kind of the reference. -/
lemma exists_isInstance_iff (type : ValueType) :
    (∃ test, isInstance c receiver value type = .ok test) ↔ Testable c.backend type := by
  have declared (name : String) (e : Emit Unit) :
      (∃ test, (c.expectClass name >>= fun _ => .ok e) = .ok test) ↔
        (c.backend.program.lookup? name).isSome = true := by
    rw [Context.expectClass, Context.program]
    split
    case isTrue found => exact ⟨fun _ => found, fun _ => ⟨e, rfl⟩⟩
    case isFalse missing =>
      constructor
      · rintro ⟨_, ⟨⟩⟩
      · exact fun found => absurd found missing
  cases type with
  | object name =>
    rw [isInstance_object held isReference number]
    exact declared name _
  | array item =>
    rw [isInstance_array held isReference number]
    cases item with
    | object name =>
      change (∃ test, referenceArrayTest c receiver value (.object name) = .ok test) ↔ _
      rw [referenceArrayTest, Testable]
      split
      case isTrue isRoot => exact ⟨fun _ => .inl isRoot, fun _ => ⟨_, rfl⟩⟩
      case isFalse other => exact (declared name _).trans (or_iff_right other).symm
    | array inner => exact ⟨fun _ => trivial, fun _ => ⟨_, rfl⟩⟩
    | primitive type =>
      rw [if_neg (by cases type <;> decide)]
      exact ⟨fun _ => trivial, fun _ => ⟨_, rfl⟩⟩
    | void =>
      constructor
      · rintro ⟨_, ⟨⟩⟩
      · exact False.elim
  | void | primitive _ =>
    constructor
    · rintro ⟨test, given⟩
      obtain ⟨_, _, given⟩ := Except.exists_of_bind_eq_ok given
      obtain ⟨_, _, given⟩ := Except.exists_of_bind_eq_ok given
      cases given
    · exact False.elim

end Code

/-- The tag in the metadata of a described type. -/
lemma exists_tag (built : Backend.ofProgram p settings = .ok b) (tags : b.HasTags m)
    (arrayTags : b.HasArrayTags m) {s : Symbol} (describes : Describes p s) :
    ∃ t, m (tagAddress (.symbol s)) = some (.i32, .int t) := by
  cases describes with
  | declared mem => exact ⟨_, tags.tag_eq built mem⟩
  | arrays kind => exact ⟨_, arrayTags.tag_eq kind⟩

/-- A test on the element class has one result, whatever variable refers to the array. -/
lemma exists_itemTest (host : Host) (isArray : IsArray p m a kind) {test : Value → Emit Value}
    (moves : ∀ v, (test v).Moves)
    (tests : ∀ s, Describes p s → ∃ x : Bool, ∀ {v : Value} {known : List (Value × Word)},
      (v, .address (.symbol s)) ∈ known → Evaluates host m known (test v) (.ofBool x)) :
    ∃ x, ∀ receiver value : Var, Triple host (Knows m [(.ofVar value, .address a)])
      (itemClassTest receiver value test) (IsFlag receiver m x) := by
  by_cases references : kind = .object
  · obtain rfl := references
    obtain ⟨s, describes, item⟩ := isArray.itemClass rfl
    obtain ⟨x, tests⟩ := tests s describes
    refine ⟨x, fun receiver value => ?_⟩
    exact itemTest_runs (List.mem_singleton_self _) isArray.metadata item tests
  · refine ⟨false, fun receiver value => ?_⟩
    apply itemTest_skips moves (List.mem_singleton_self _) isArray.metadata
    intro eq
    exact references (Symbol.arrayMetadata.inj (Address.symbol.inj eq))

/-- A test for arrays of references has one result, whatever variable refers to the array. -/
lemma exists_referenceArrayFlag (host : Host) (built : Backend.ofProgram p settings = .ok b)
    (tags : b.HasTags m) (arrayTags : b.HasArrayTags m) (isArray : IsArray p m a kind)
    (item : ValueType) :
    ∃ x, ∀ {c : Context} {receiver value : Var}, c.backend = b →
      Except.Ensures (Triple host (Knows m [(.ofVar value, .address a)]) · (IsFlag receiver m x))
        (referenceArrayTest c receiver value item) := by
  cases item with
  | object name =>
    by_cases isRoot : name = b.settings.rootClass
    · refine ⟨decide (Address.symbol (.arrayMetadata kind) = .symbol (.arrayMetadata .object)),
        fun {c receiver value} ofBackend => ?_⟩
      rw [referenceArrayTest, ofBackend, if_pos isRoot]
      exact .pure (arrayTest_runs (List.mem_singleton_self _) isArray.metadata .object)
    · generalize ranged : (b.tags.ranges? name).getD [] = ranges
      cases none : ranges.isEmpty with
      | true =>
        refine ⟨false, fun {c receiver value} ofBackend => ?_⟩
        rw [referenceArrayTest, tagRanges, ofBackend, if_neg isRoot, ranged]
        refine .bind fun _ _ => .pure ?_
        rw [if_pos none]
        exact failTest_runs receiver
      | false =>
        -- the item has some tag, whichever class it is of
        obtain ⟨x, flag⟩ := exists_itemTest host isArray
          (fun v => (tagInRanges_straight ranges v).moves) fun s describes => by
            obtain ⟨t, tagged⟩ := exists_tag built tags arrayTags describes
            exact ⟨_, fun mem => tagInRanges_evaluates (gives_of_mem mem) tagged none⟩
        refine ⟨x, fun {c receiver value} ofBackend => ?_⟩
        rw [referenceArrayTest, tagRanges, ofBackend, if_neg isRoot, ranged]
        refine .bind fun _ _ => .pure ?_
        rw [if_neg (Bool.eq_false_iff.1 none)]
        exact flag receiver value
  | array inner =>
    let arrays : Symbol := .arrayMetadata inner.elementKind
    obtain ⟨x, flag⟩ := exists_itemTest host isArray
      (fun v => (isMetadata_straight arrays v).moves) fun s _ =>
        ⟨_, fun mem => isMetadata_evaluates (gives_of_mem mem) arrays⟩
    exact ⟨x, fun {c receiver value} _ => .pure (flag receiver value)⟩
  | void | primitive _ => exact ⟨false, fun _ => .error _⟩

/-- A test for a type of arrays has one result, whether or not the variable is known to refer to
arrays of the kind. -/
lemma exists_arrayFlag (host : Host) (built : Backend.ofProgram p settings = .ok b)
    (tags : b.HasTags m) (arrayTags : b.HasArrayTags m) (isArray : IsArray p m a kind)
    (item : ValueType) :
    ∃ x, ∀ {c : Context} {receiver value : Var} {k : Kind}, c.backend = b →
      c.kindOf value = .ok k → (k = .array kind ∨ k = .object) → c.typeOf receiver = .ok .i32 →
      Except.Ensures (Triple host (Knows m [(.ofVar value, .address a)]) · (IsFlag receiver m x))
        (isInstance c receiver value (.array item)) := by
  by_cases references : item.elementKind = .object
  · obtain ⟨x, flag⟩ := exists_referenceArrayFlag host built tags arrayTags isArray item
    refine ⟨x, fun {c receiver value k} ofBackend held kinds number => ?_⟩
    have isReference : k.isReference = true := by rcases kinds with rfl | rfl <;> rfl
    rw [isInstance_array held isReference number, if_pos references]
    exact flag ofBackend
  · refine ⟨decide
      (Address.symbol (.arrayMetadata kind) = .symbol (.arrayMetadata item.elementKind)),
      fun {c receiver value k} _ held kinds number => ?_⟩
    have isReference : k.isReference = true := by rcases kinds with rfl | rfl <;> rfl
    have object : (Value.ofVar value, Word.address a) ∈ [(Value.ofVar value, Word.address a)] :=
      List.mem_singleton_self _
    rw [isInstance_array held isReference number, if_neg references]
    apply Except.Ensures.pure
    split
    case isTrue known =>
      -- the kind of the variable is that of the array
      obtain rfl : kind = item.elementKind := by
        rcases kinds with rfl | rfl
        · exact Kind.array.inj known
        · cases known
      rw [decide_eq_true rfl]
      exact nullTest_runs object
    case isFalse => exact arrayTest_runs object isArray.metadata item.elementKind

/-- A test for a class or an interface looks for the tag of arrays only if the variable is not known
to refer to one. -/
lemma isInstance_object_runs (host : Host) (built : Backend.ofProgram p settings = .ok b)
    (arrayTags : b.HasArrayTags m) (isArray : IsArray p m a kind) (ofBackend : c.backend = b)
    {k : Kind} (held : c.kindOf value = .ok k) (isReference : k.isReference = true)
    (number : c.typeOf receiver = .ok .i32) (name : String) :
    Except.Ensures (Triple host (Knows m [(.ofVar value, .address a)]) · (IsFlag receiver m
        (name = settings.rootClass || decide (k = .object) &&
          ((b.tags.ranges? name).getD []).any (·.containsTag b.arrayTag))))
      (isInstance c receiver value (.object name)) := by
  have object : (Value.ofVar value, Word.address a) ∈ [(Value.ofVar value, Word.address a)] :=
    List.mem_singleton_self _
  rw [isInstance_object held isReference number, tagRanges, ofBackend, Backend.settings_eq built]
  generalize (b.tags.ranges? name).getD [] = ranges
  refine .bind fun _ _ => .pure ?_
  split
  case isTrue isRoot =>
    rw [decide_eq_true isRoot, Bool.true_or]
    exact nullTest_runs object
  case isFalse other =>
    rw [decide_eq_false other, Bool.false_or]
    split
    case isTrue fails =>
      have fails : (decide (k = .object) && ranges.any (·.containsTag b.arrayTag)) = false := by
        rcases Bool.or_eq_true _ _ ▸ fails with array | empty
        · rw [decide_eq_false (of_decide_eq_true array), Bool.false_and]
        · rw [List.isEmpty_iff.1 empty, List.any_nil, Bool.and_false]
      rw [fails]
      exact failTest_runs receiver
    case isFalse looks =>
      rw [Bool.or_eq_true, not_or, decide_eq_true_eq, not_not, Bool.not_eq_true] at looks
      obtain ⟨isObject, nonempty⟩ := looks
      rw [decide_eq_true isObject, Bool.true_and]
      apply objectTest_runs object isArray.metadata
      intro v known _ mem
      exact tagInRanges_evaluates (gives_of_mem mem) (arrayTags.tag_eq kind) nonempty

/-- Arrays have the tag of just the interfaces of the root class, the root class itself apart. -/
lemma isRootInterface_iff (built : Backend.ofProgram p settings = .ok b)
    (rooted : ∀ d ∈ p.concreteClasses, ∃ r ∈ p.ancestors d.name, r.name = settings.rootClass)
    {T : ClassDef} (memT : T ∈ p.classes) :
    IsRootInterface p settings.rootClass (.object T.name) ↔ T.name ≠ settings.rootClass ∧
      ((b.tags.ranges? T.name).getD []).any (·.containsTag b.arrayTag) = true := by
  constructor
  · rintro ⟨r, memr, named, T', mem', type, subtype⟩
    obtain ⟨mem', isInterface⟩ := List.mem_filter.1 mem'
    obtain rfl := Program.eq_of_name_eq memT mem' (ValueType.object.inj type)
    have other : T.name ≠ settings.rootClass := by
      rw [← named]
      exact (Program.name_ne_of_isInterface memr memT isInterface).symm
    refine ⟨other, (Backend.any_arrayTag_iff built rooted memT other).2 ?_⟩
    exact ⟨r, memr, named, isInterface, subtype⟩
  · rintro ⟨other, passes⟩
    obtain ⟨r, memr, named, isInterface, subtype⟩ :=
      (Backend.any_arrayTag_iff built rooted memT other).1 passes
    exact ⟨r, memr, named, T, List.mem_filter.2 ⟨memT, isInterface⟩, rfl, subtype⟩

/-- A test is accepted of a variable that is known to refer to arrays of a kind just if it is
accepted of one that may refer to any object. On an array of the kind both yield the same result,
unless the type is an interface of the root class: then only the second finds it. -/
theorem kinds_agree_iff (built : Backend.ofProgram p settings = .ok b)
    (rooted : ∀ d ∈ p.concreteClasses, ∃ r ∈ p.ancestors d.name, r.name = settings.rootClass)
    (ofBackend₁ : c₁.backend = b) (ofBackend₂ : c₂.backend = b)
    (held₁ : c₁.kindOf v₁ = .ok (.array kind)) (held₂ : c₂.kindOf v₂ = .ok .object)
    (number₁ : c₁.typeOf r₁ = .ok .i32) (number₂ : c₂.typeOf r₂ = .ok .i32) (type : ValueType) :
    ((∃ test, isInstance c₁ r₁ v₁ type = .ok test) ↔
      ∃ test, isInstance c₂ r₂ v₂ type = .ok test) ∧
    ∀ test₁ test₂, isInstance c₁ r₁ v₁ type = .ok test₁ → isInstance c₂ r₂ v₂ type = .ok test₂ →
      ∀ host m a, b.HasTags m → b.HasArrayTags m → IsArray p m a kind →
        ∃ x₁ x₂ : Bool,
          Triple host (Knows m [(.ofVar v₁, .address a)]) test₁ (IsFlag r₁ m x₁) ∧
          Triple host (Knows m [(.ofVar v₂, .address a)]) test₂ (IsFlag r₂ m x₂) ∧
          (x₁ = true → x₂ = true) ∧
          (x₁ = x₂ ↔ ¬IsRootInterface p settings.rootClass type) := by
  have accepted₁ := exists_isInstance_iff held₁ rfl number₁ type
  have accepted₂ := exists_isInstance_iff held₂ rfl number₂ type
  rw [ofBackend₁] at accepted₁
  rw [ofBackend₂] at accepted₂
  refine ⟨accepted₁.trans accepted₂.symm, ?_⟩
  intro test₁ test₂ given₁ given₂ host m a tags arrayTags isArray
  have testable := accepted₁.1 ⟨_, given₁⟩
  cases type with
  | object name =>
    have runs₁ := isInstance_object_runs host built arrayTags isArray ofBackend₁ held₁
      rfl number₁ name _ given₁
    have runs₂ := isInstance_object_runs host built arrayTags isArray ofBackend₂ held₂
      rfl number₂ name _ given₂
    obtain ⟨T, found⟩ := Option.isSome_iff_exists.1 testable
    rw [(Backend.ofProgram_spec built).1] at found
    obtain ⟨memT, rfl⟩ := Program.lookup?_eq_some_iff.1 found
    -- the tags are compared only for a variable that holds an object
    have isArray : Kind.array kind ≠ .object := nofun
    rw [decide_eq_false isArray, Bool.false_and, Bool.or_false] at runs₁
    rw [decide_eq_true rfl, Bool.true_and] at runs₂
    refine ⟨_, _, runs₁, runs₂, fun isRoot => Bool.or_eq_true_iff.2 (.inl isRoot), ?_⟩
    rw [isRootInterface_iff built rooted memT]
    by_cases isRoot : T.name = settings.rootClass
    · simp [isRoot]
    · simp [isRoot]
  | array item =>
    -- a test for arrays comes to the same flag for both kinds
    obtain ⟨x, flag⟩ := exists_arrayFlag host built tags arrayTags isArray item
    have runs₁ := flag ofBackend₁ held₁ (.inl rfl) number₁ _ given₁
    have runs₂ := flag ofBackend₂ held₂ (.inr rfl) number₂ _ given₂
    refine ⟨x, x, runs₁, runs₂, fun passes => passes, ?_⟩
    rw [eq_self_iff_true, true_iff]
    rintro ⟨_, _, _, _, _, ⟨⟩, _⟩
  | void | primitive _ => exact testable.elim

/-- Test one reference that is known to be an array of numbers, and one that is not. -/
def sortBody (type : ValueType) : Body :=
  { kinds := [.array .int, .object, .int, .int]
    blocks :=
      [{ BasicBlock.empty with
          instructions := [.isInstance ⟨2⟩ ⟨0⟩ type, .isInstance ⟨3⟩ ⟨1⟩ type]
          terminator := .exit (some ⟨3⟩) }] }

/-- A method with the body. -/
def sortMethod (name : String) (type : ValueType) : MethodDef :=
  { signature := ⟨name, [.array (.primitive .int), .object "Root"], .primitive .int⟩
    isStatic := true, isNative := false, isAbstract := false, access := .anyClass
    body := some (sortBody type) }

/-- An interface without methods. -/
def storable : ClassDef := { ClassDef.empty "Storable" with isInterface := true }

/-- A root class with the interface, and with methods that test for arrays and for the interface. -/
def storedRoot : ClassDef :=
  { ClassDef.empty "Root" with
    interfaces := ["Storable"]
    methods :=
      [sortMethod "isNumbers" (.array (.primitive .int)),
       sortMethod "isStorable" (.object "Storable")] }

/-- The class and the interface. -/
def storing : Program :=
  { classes := [storedRoot, storable]
    entryPoint := none
    nodup := by decide }

/-- The context of one of the methods. -/
def sorting (b : Backend) (name : String) (type : ValueType) : Context :=
  .ofBody b storedRoot (sortMethod name type) (sortBody type)

/-- A function that does one of the tests. -/
def sortCode (c : Context) (test : Emit Unit) : Function Label :=
  (test.next (.initial c [] .empty)).draft.toFunction

/-- A memory with nothing but the tags and one array of numbers. -/
def numbersMemory (b : Backend) : Memory
  | .part (.symbol (.arrayMetadata _)) (.named (.runtime .header)) [0, 2] =>
    some (.i32, .int b.arrayTag)
  | .object 0 => some (.ptr, .address (.symbol (.arrayMetadata .int)))
  | a => b.tagMemory a

/-- The state in which a function finds the array in both its parameters. -/
def sortStart (b : Backend) : State Label :=
  .start (fun l => if l = .var ⟨0⟩ ∨ l = .var ⟨1⟩ then some (.address (.object 0)) else none)
    (numbersMemory b)

/-- The memory of the example holds the tags of the classes. -/
lemma hasTags_numbersMemory (built : Backend.ofProgram p settings = .ok b) :
    b.HasTags (numbersMemory b) := Backend.hasTags_tagMemory built

/-- The memory of the example holds the tags of arrays. -/
lemma hasArrayTags_numbersMemory (b : Backend) : b.HasArrayTags (numbersMemory b) := by
  intro kind cells tag mem reaches
  cases (Backend.reaches_arrayTag mem).1 reaches
  rfl

/-- The parameter of the example is an array of numbers. -/
lemma isArray_numbersMemory (b : Backend) : IsArray storing (numbersMemory b) (.object 0) .int :=
  ⟨rfl, nofun⟩

/-- Code that tests an array runs to its end, where the flag is in the register of the result. -/
lemma sortCode_runs {test : Emit Unit} {v : Var} {x : Bool} (param : v = ⟨0⟩ ∨ v = ⟨1⟩)
    (runs : Triple host (Knows (numbersMemory b) [(.ofVar v, .address (.object 0))]) test
      (IsFlag receiver (numbersMemory b) x)) :
    ∃ τ, (sortCode c test).Runs host (sortStart b) τ ∧
      τ.registers (.var receiver) = some (.ofBool x) := by
  have empty : (Progress.initial c [] .empty).At [] ⟨.entry, []⟩ [] :=
    ⟨.start .., List.forall_mem_nil _⟩
  have given : Knows (numbersMemory b) [(.ofVar v, .address (.object 0))] 0 (sortStart b).registers
      (numbersMemory b) := by
    refine ⟨rfl, List.forall_mem_singleton.2 ?_, List.forall_mem_singleton.2 trivial⟩
    rcases param with rfl | rfl <;> rfl
  obtain ⟨τ, steps, _, flag⟩ := runs.exists_run empty given
  exact ⟨τ, steps, flag⟩

/-- Each class of the example has the root among its ancestors. -/
lemma rooted_storing : ∀ d ∈ storing.concreteClasses,
    ∃ r ∈ storing.ancestors d.name, r.name = Backend.shortRoot.rootClass := by
  decide +kernel

/-- An array of numbers is or is not one by both tests. -/
theorem numbers_agree :
    ∃ b test₁ test₂, Backend.ofProgram storing Backend.shortRoot = .ok b ∧
      let c := sorting b "isNumbers" (.array (.primitive .int))
      isInstance c ⟨2⟩ ⟨0⟩ (.array (.primitive .int)) = .ok test₁ ∧
      isInstance c ⟨3⟩ ⟨1⟩ (.array (.primitive .int)) = .ok test₂ ∧
      ∀ host : Host, ∃ (x : Bool) (τ₁ τ₂ : State Label),
        (sortCode c test₁).Runs host (sortStart b) τ₁ ∧
        (sortCode c test₂).Runs host (sortStart b) τ₂ ∧
        τ₁.registers (.var ⟨2⟩) = some (.ofBool x) ∧
        τ₂.registers (.var ⟨3⟩) = some (.ofBool x) := by
  obtain ⟨b, built⟩ := Backend.exists_ofProgram (p := storing) rfl (by decide +kernel) (by decide)
    Backend.shortRoot
  let c := sorting b "isNumbers" (.array (.primitive .int))
  have held₁ : c.kindOf ⟨0⟩ = .ok (.array .int) := rfl
  have held₂ : c.kindOf ⟨1⟩ = .ok .object := rfl
  have number₁ : c.typeOf ⟨2⟩ = .ok .i32 := rfl
  have number₂ : c.typeOf ⟨3⟩ = .ok .i32 := rfl
  obtain ⟨accepted, agree⟩ := kinds_agree_iff built rooted_storing rfl rfl held₁ held₂ number₁
    number₂ (.array (.primitive .int))
  have given₁ : isInstance c ⟨2⟩ ⟨0⟩ (.array (.primitive .int)) = .ok (nullTest ⟨2⟩ ⟨0⟩) := rfl
  obtain ⟨test₂, given₂⟩ := accepted.1 ⟨_, given₁⟩
  refine ⟨b, _, test₂, built, given₁, given₂, fun host => ?_⟩
  obtain ⟨x₁, x₂, runs₁, runs₂, _, same⟩ := agree _ _ given₁ given₂ host _ _
    (hasTags_numbersMemory built) (hasArrayTags_numbersMemory b) (isArray_numbersMemory b)
  obtain rfl : x₁ = x₂ := same.2 (by rintro ⟨_, _, _, _, _, ⟨⟩, _⟩)
  obtain ⟨τ₁, steps₁, flag₁⟩ := sortCode_runs (c := c) (.inl rfl) runs₁
  obtain ⟨τ₂, steps₂, flag₂⟩ := sortCode_runs (c := c) (.inr rfl) runs₂
  exact ⟨x₁, τ₁, τ₂, steps₁, steps₂, flag₁, flag₂⟩

/-- An array of numbers is not storable by the test on a variable for arrays of numbers, but it is
by the other, since the root class is storable. -/
theorem numbers_are_and_are_not_storable :
    ∃ b test₁ test₂, Backend.ofProgram storing Backend.shortRoot = .ok b ∧
      (∀ d ∈ storing.concreteClasses, storedRoot ∈ storing.ancestors d.name) ∧
      let c := sorting b "isStorable" (.object "Storable")
      isInstance c ⟨2⟩ ⟨0⟩ (.object "Storable") = .ok test₁ ∧
      isInstance c ⟨3⟩ ⟨1⟩ (.object "Storable") = .ok test₂ ∧
      ∀ host : Host,
        (∃ τ, (sortCode c test₁).Runs host (sortStart b) τ ∧
          τ.registers (.var ⟨2⟩) = some (.int 0)) ∧
        (∃ τ, (sortCode c test₂).Runs host (sortStart b) τ ∧
          τ.registers (.var ⟨3⟩) = some (.int 1)) := by
  obtain ⟨b, built⟩ := Backend.exists_ofProgram (p := storing) rfl (by decide +kernel) (by decide)
    Backend.shortRoot
  let c := sorting b "isStorable" (.object "Storable")
  have declared : storable ∈ storing.classes := by decide
  have testable : Testable b (.object "Storable") := by
    rw [Testable, (Backend.ofProgram_spec built).1]
    rfl
  have held₁ : c.kindOf ⟨0⟩ = .ok (.array .int) := rfl
  have held₂ : c.kindOf ⟨1⟩ = .ok .object := rfl
  have number₁ : c.typeOf ⟨2⟩ = .ok .i32 := rfl
  have number₂ : c.typeOf ⟨3⟩ = .ok .i32 := rfl
  obtain ⟨test₁, given₁⟩ := (exists_isInstance_iff held₁ rfl number₁ _).2 testable
  obtain ⟨test₂, given₂⟩ := (exists_isInstance_iff held₂ rfl number₂ _).2 testable
  have passes : ((b.tags.ranges? "Storable").getD []).any (·.containsTag b.arrayTag) = true := by
    have marked : IsRootInterface storing "Root" (.object storable.name) :=
      ⟨storedRoot, by decide, rfl, storable, by decide, rfl, by decide +kernel⟩
    exact ((isRootInterface_iff built rooted_storing declared).1 marked).2
  refine ⟨b, test₁, test₂, built, by decide +kernel, given₁, given₂, fun host => ⟨?_, ?_⟩⟩
  · have runs := isInstance_object_runs host built (hasArrayTags_numbersMemory b)
      (isArray_numbersMemory b) rfl held₁ rfl number₁ _ _ given₁
    obtain ⟨τ, steps, flag⟩ := sortCode_runs (c := c) (.inl rfl) runs
    exact ⟨τ, steps, flag⟩
  · have runs := isInstance_object_runs host built (hasArrayTags_numbersMemory b)
      (isArray_numbersMemory b) rfl held₂ rfl number₂ _ _ given₂
    obtain ⟨τ, steps, flag⟩ := sortCode_runs (c := c) (.inr rfl) runs
    rw [passes] at flag
    exact ⟨τ, steps, flag⟩

end Lowering

end ObjectBackend
