import ObjectBackend.Proofs.Image.Closed
import ObjectBackend.Proofs.Target.SymbolText

/-!
# Names that are defined twice

The parts of a module define names of different kinds, and a part repeats a name only if it belongs
to a member that a class declares twice. So the texts of all names differ exactly if no class has
two static fields of one name or two methods of one signature with an entry (`names_nodup_iff`).
-/

namespace List

variable {α κ : Type} {f : α → κ}

/-- Lists whose elements are of different kinds have none in common. -/
lemma Forall₂.pairwise_disjoint {kinds : List κ} {parts : List (List α)}
    (sorted : Forall₂ (fun k part => ∀ a ∈ part, f a = k) kinds parts) (distinct : kinds.Nodup) :
    parts.Pairwise Disjoint := by
  induction sorted with
  | nil => exact .nil
  | @cons k part kinds parts first others ih =>
    obtain ⟨new, distinct⟩ := nodup_cons.1 distinct
    refine .cons (fun part' mem' a mem memo => ?_) (ih distinct)
    obtain ⟨k', memk, kind⟩ := others.flip.exists_of_mem mem'
    exact new (((first a mem).symm.trans (kind a memo)) ▸ memk)

end List

namespace ObjectBackend

open Target

namespace Target.Name

/-- Whether the text of a name is given from outside. -/
def isGiven : Name → Bool
  | symbol s => s.isGiven
  | type name => name.isGiven
  | verbatim _ => true

/-- Names are known from their texts, unless these are given from outside. -/
lemma eq_of_text_eq {n n' : Name} (given : n.isGiven = false) (given' : n'.isGiven = false)
    (eq : n.text = n'.text) : n = n' := by
  have mark {c c' : String} (different : c.toList.head? ≠ c'.toList.head?) (one : c.toList ≠ [])
      (one' : c'.toList ≠ []) (x y : String) : c ++ x ≠ c' ++ y := by
    intro eq
    have chars := congrArg (fun s : String => s.toList.head?) eq
    simp only [String.toList_append, List.head?_append_of_ne_nil _ one,
      List.head?_append_of_ne_nil _ one'] at chars
    exact different chars
  have behind {c x y : String} (eq : c ++ x = c ++ y) : x = y := by
    have chars := congrArg String.toList eq
    rw [String.toList_append, String.toList_append] at chars
    exact String.toList_inj.1 (List.append_cancel_left chars)
  cases n with
  | symbol s =>
    cases n' with
    | symbol s' => rw [Symbol.eq_of_text_eq given given' (behind eq)]
    | type t' => exact absurd eq (mark (by decide) (by decide) (by decide) _ _)
    | verbatim => cases given'
  | type t =>
    cases n' with
    | symbol s' => exact absurd eq (mark (by decide) (by decide) (by decide) _ _)
    | type t' => rw [TypeName.eq_of_text_eq given given' (behind eq)]
    | verbatim => cases given'
  | verbatim => cases given

/-- The part of a module that defines a name. -/
def place : Name → Nat
  | type (.runtime .header) => 1
  | type (.runtime _) => 0
  | type (.instances _) | type (.metadata _) => 2
  | symbol (.field ..) => 3
  | symbol (.method _) => 4
  | symbol (.initializer _) => 5
  | symbol (.metadata _) => 6
  | symbol (.arrayMetadata _) => 7
  | symbol (.fieldTable _) => 8
  | symbol (.runtime .stackRoots) => 9
  | symbol .main => 10
  | symbol (.literal _) | symbol (.literalChars _) => 11
  | symbol (.runtime .initStringPool) => 12
  | symbol (.handlers _) => 13
  | symbol (.runtime .callSites) | symbol (.runtime .callSiteCount) => 14
  | symbol (.runtime (.compare _)) => 15
  | symbol (.runtime _) => 0
  | symbol (.named _) | type (.named _) | verbatim _ => 16

/-- The class that a name belongs to. -/
def owner? : Name → Option String
  | type (.instances c) | type (.metadata c) | symbol (.field c _) => some c
  | symbol (.method m) => some m.className
  | _ => none

/-- A name that some part defines is not given from outside. -/
lemma isGiven_of_place_lt {n : Name} (lt : n.place < 16) : n.isGiven = false := by
  cases n with
  | symbol s =>
    cases s with
    | named => exact absurd lt (Nat.lt_irrefl 16)
    | _ => rfl
  | type t =>
    cases t with
    | named => exact absurd lt (Nat.lt_irrefl 16)
    | _ => rfl
  | verbatim => exact absurd lt (Nat.lt_irrefl 16)

end Target.Name

namespace Backend

variable {p : Program} {settings : Settings} {b : Backend} {es : List (Entry Label)} {pools : Pools}

/-- Every part defines the names of its own kinds. -/
lemma place_definitions (b : Backend) (pools : Pools) :
    List.Forall₂ (fun i part => ∀ n ∈ part, n.place = i) (List.range 16) (b.definitions pools) := by
  have listed {α : Type} {i : Nat} {f : α → List Name} (place : ∀ x, ∀ n ∈ f x, n.place = i)
      (xs : List α) : ∀ n ∈ xs.flatMap f, n.place = i := by
    intro n mem
    obtain ⟨x, _, mem⟩ := List.mem_flatMap.1 mem
    exact place x n mem
  have types (c : ClassDef) : ∀ n ∈ c.typeNames, n.place = 2 := by
    rw [ClassDef.typeNames]
    split <;> simp [Name.place]
  have main : ∀ n ∈ (b.program.entryPoint.map fun _ => Name.symbol .main).toList,
      n.place = 10 := by
    cases b.program.entryPoint <;> simp [Name.place]
  have literals (id : Nat) : ∀ n ∈ [Name.symbol (.literalChars id), .symbol (.literal id)],
      n.place = 11 := by
    simp [Name.place]
  have statics (c : ClassDef) : ∀ n ∈ c.staticNames, n.place = 3 :=
    List.forall_mem_map.2 fun _ _ => rfl
  have methods (c : ClassDef) : ∀ n ∈ c.methodNames, n.place = 4 :=
    List.forall_mem_map.2 fun _ _ => rfl
  exact .cons (by decide) <| .cons (by decide) <| .cons (listed types _) <|
    .cons (listed statics _) <| .cons (listed methods _) <|
    .cons (List.forall_mem_map.2 fun _ _ => rfl) <| .cons (List.forall_mem_map.2 fun _ _ => rfl) <|
    .cons (by decide) <| .cons (List.forall_mem_map.2 fun _ _ => rfl) <| .cons (by decide) <|
    .cons main <| .cons (listed literals _) <| .cons (by decide) <|
    .cons (List.forall_mem_map.2 fun _ _ => rfl) <| .cons (by decide) <| .cons (by decide) .nil

/-- The sorted classes have different names. -/
lemma nodup_sortedClasses (p : Program) : (p.sortedClasses.map (·.name)).Nodup :=
  ((List.mergeSort_perm p.classes _).map _).nodup_iff.2 p.nodup

/-- What belongs to different classes differs. -/
lemma nodup_flatMap_iff {f : ClassDef → List Name}
    (owned : ∀ c, ∀ n ∈ f c, n.owner? = some c.name) :
    (p.sortedClasses.flatMap f).Nodup ↔ ∀ c ∈ p.classes, (f c).Nodup := by
  have disjoint : p.sortedClasses.Pairwise (Function.onFun List.Disjoint f) := by
    refine (List.pairwise_map.1 (nodup_sortedClasses p)).imp fun {c d} ne n mem mem' => ne ?_
    exact Option.some.inj ((owned c n mem).symm.trans (owned d n mem'))
  rw [List.nodup_flatMap, and_iff_left disjoint]
  simp only [Program.sortedClasses, List.mem_mergeSort]

/-- What is named after classes differs. -/
lemma nodup_map_name {cs : List ClassDef} {f : String → Name} (inj : Function.Injective f)
    (sub : cs.Sublist p.sortedClasses) : (cs.map fun c => f c.name).Nodup := by
  have names := ((sub.map (·.name)).nodup (nodup_sortedClasses p)).map inj
  rwa [List.map_map] at names

/-- The structure types of a class belong to it. -/
lemma owner?_typeNames (c : ClassDef) : ∀ n ∈ c.typeNames, n.owner? = some c.name := by
  rw [ClassDef.typeNames]
  split <;> simp [Name.owner?]

/-- A class has no structure type twice. -/
lemma nodup_typeNames (c : ClassDef) : c.typeNames.Nodup := by
  rw [ClassDef.typeNames]
  split <;> simp

/-- The names of the static fields of a class differ just if the fields have different names. -/
lemma nodup_staticNames (c : ClassDef) :
    c.staticNames.Nodup ↔ (c.staticFields.map (·.name)).Nodup := by
  have inj : Function.Injective fun name => Name.symbol (.field c.name name) := by
    rintro _ _ ⟨⟩
    rfl
  rw [ClassDef.staticNames, ← List.nodup_map_iff inj, List.map_map]
  rfl

/-- The names of the methods of a class differ just if the methods that have entries have different
signatures. -/
lemma nodup_methodNames (c : ClassDef) :
    c.methodNames.Nodup ↔ ((c.methods.filter MethodDef.hasEntry).map (·.signature)).Nodup := by
  have inj : Function.Injective fun s => Name.symbol (.method ⟨c.name, s⟩) := by
    rintro _ _ ⟨⟩
    rfl
  rw [ClassDef.methodNames, ← List.nodup_map_iff inj, List.map_map]
  rfl

/-- No two literals share a name. -/
lemma nodup_literals (count : Nat) : (Literals.names count).Nodup := by
  rw [Literals.names, List.nodup_flatMap]
  refine ⟨fun id _ => by simp, List.nodup_range.imp fun ne n mem mem' => ?_⟩
  rcases List.mem_pair.1 mem with rfl | rfl <;> simp at mem' <;> exact ne mem'

/-- No two tables of handlers share a name. -/
lemma nodup_handlerNames (t : CallSites) : t.handlerNames.Nodup := by
  have inj : Function.Injective fun id => Name.symbol (.handlers id) := by
    rintro _ _ ⟨⟩
    rfl
  have numbers :
      ((t.sites.zipIdx.filter fun entry => !entry.1.handled.isEmpty).map (·.2)).Nodup := by
    refine (List.filter_sublist.map _).nodup ?_
    rw [List.zipIdx_map_snd]
    exact List.nodup_range'
  have names := numbers.map inj
  rwa [List.map_map] at names

/-- A module defines a name twice only if a class declares a static field or a method with an entry
twice. -/
lemma nodup_definitions_iff :
    (b.definitions pools).flatten.Nodup ↔
      ∀ c ∈ b.program.classes, (c.staticFields.map (·.name)).Nodup ∧
        ((c.methods.filter MethodDef.hasEntry).map (·.signature)).Nodup := by
  have statics : ∀ c : ClassDef, ∀ n ∈ c.staticNames, n.owner? = some c.name := fun c =>
    List.forall_mem_map.2 fun _ _ => rfl
  have methods : ∀ c : ClassDef, ∀ n ∈ c.methodNames, n.owner? = some c.name := fun c =>
    List.forall_mem_map.2 fun _ _ => rfl
  have named {f : String → Symbol} (inj : ∀ a a', f a = f a' → a = a') :
      Function.Injective fun name => Name.symbol (f name) := fun a a' eq =>
    inj a a' (Name.symbol.inj eq)
  rw [List.nodup_flatten,
    and_iff_left ((place_definitions b pools).pairwise_disjoint List.nodup_range)]
  simp only [definitions, List.forall_mem_cons, nodup_flatMap_iff owner?_typeNames,
    nodup_flatMap_iff statics, nodup_flatMap_iff methods, nodup_staticNames, nodup_methodNames]
  constructor
  · rintro ⟨_, _, _, statics, methods, _⟩ c memc
    exact ⟨statics c memc, methods c memc⟩
  · intro nodup
    refine ⟨by decide, List.nodup_singleton _, fun c _ => nodup_typeNames c,
      fun c memc => (nodup c memc).1, fun c memc => (nodup c memc).2,
      nodup_map_name (named fun _ _ => Symbol.initializer.inj) List.filter_sublist,
      nodup_map_name (named fun _ _ => Symbol.metadata.inj) (.refl _), by decide,
      nodup_map_name (named fun _ _ => Symbol.fieldTable.inj) List.filter_sublist,
      List.nodup_singleton _, ?_, nodup_literals _, List.nodup_singleton _, nodup_handlerNames _,
      by decide, by decide, List.forall_mem_nil _⟩
    cases b.program.entryPoint <;> simp

/-- No two definitions or declarations of a module have the same name exactly if no class declares
two static fields of one name, or two methods of one signature that have an entry. -/
theorem names_nodup_iff (built : ofProgram p settings = .ok b)
    (emitted : b.entries.run .empty = .ok (es, pools)) :
    ((es.filterMap Entry.name?).map Name.text).Nodup ↔
      ∀ c ∈ p.classes, (c.staticFields.map (·.name)).Nodup ∧
        ((c.methods.filter MethodDef.hasEntry).map (·.signature)).Nodup := by
  obtain ⟨rfl, -, -⟩ := ofProgram_spec built
  have plain : ∀ n ∈ (b.definitions pools).flatten, n.isGiven = false := by
    intro n mem
    obtain ⟨part, mem, memn⟩ := List.mem_flatten.1 mem
    obtain ⟨i, memi, place⟩ := (place_definitions b pools).flip.exists_of_mem mem
    exact Name.isGiven_of_place_lt (place n memn ▸ List.mem_range.1 memi)
  have distinct : (b.definitions pools).flatten.Nodup ↔ _ := nodup_definitions_iff
  rw [(entries_made built emitted).names, ← distinct]
  exact ⟨List.Nodup.of_map _, fun nodup => nodup.map_on fun n mem n' mem' =>
    Name.eq_of_text_eq (plain n mem) (plain n' mem')⟩

/-- A method that does nothing. -/
def idle : MethodDef :=
  { signature := ⟨"f", [], .void⟩, isStatic := true, isNative := false, isAbstract := false
    access := .anyClass
    body := some { kinds := [], blocks := [{ BasicBlock.empty with terminator := .exit none }] } }

/-- A class that declares a method twice. -/
def twins : Program :=
  { classes := [{ ClassDef.empty "A" with methods := [idle, idle] }]
    entryPoint := none
    nodup := by decide }

/-- Both declarations become functions of one name. -/
theorem twins_define_twice :
    ∃ b es pools, ofProgram twins .default = .ok b ∧ b.entries.run .empty = .ok (es, pools) ∧
      ((es.filterMap Entry.name?).map Name.text).count "@m1_A1_fV" = 2 ∧
      ¬((es.filterMap Entry.name?).map Name.text).Nodup := by
  have computed : ((ofProgram twins .default).toOption.bind fun b =>
      (b.entries.run .empty).toOption.map fun r =>
        ((r.1.filterMap Entry.name?).map Name.text).count "@m1_A1_fV") = some 2 := by
    cbv
  obtain ⟨b, ⟨es, pools⟩, built, emitted, twice⟩ := Except.exists_of_toOption_bind_map computed
  refine ⟨b, es, pools, built, emitted, twice, fun nodup => ?_⟩
  have once := List.nodup_iff_count_le_one.1 nodup "@m1_A1_fV"
  rw [twice] at once
  exact absurd once (by decide)

/-- A class whose members differ has a module whose names differ. -/
theorem clock_names_nodup :
    ∃ b es pools, ofProgram Lowering.clockProgram .default = .ok b ∧
      b.entries.run .empty = .ok (es, pools) ∧
      ((es.filterMap Entry.name?).map Name.text).Nodup := by
  have computed : ((ofProgram Lowering.clockProgram .default).toOption.bind fun b =>
      (b.entries.run .empty).toOption.map fun _ => ()) = some () := by
    cbv
  obtain ⟨b, ⟨es, pools⟩, built, emitted, _⟩ := Except.exists_of_toOption_bind_map computed
  exact ⟨b, es, pools, built, emitted, (names_nodup_iff built emitted).2 (by decide)⟩

end Backend

end ObjectBackend
