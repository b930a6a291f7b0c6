import ObjectBackend.Proofs.Hierarchy.Names
import ObjectBackend.Proofs.Source.Depth
import ObjectBackend.Proofs.Source.Reals

/-!
# Programs that have been loaded

What is known of a program that has been read from a document. What is written of it nests no more
deeply than the document did, or than a dozen containers if the document was flatter. The
long reals of the program are finite, as numbers beyond their range are not read; a short real may
have been rounded to infinity.
-/

namespace ObjectBackend

open Floating
open Json (Manner RecordReader depth_object_le depth_ofList_le depth_le_of_mem_children)
open Json.RecordReader (Ensures required withDefault optional nullable)

/-- What is written of a part of a program nests no more deeply than a bound, and the long reals of
the part are finite. -/
structure Storable (n : Nat) (document : Json) (reals : List RealConstant) : Prop where
  depth_le : document.depth ≤ n
  finite : ∀ value, .long value ∈ reals → value.isFinite = true

namespace Storable

variable {α : Type} {n : Nat} {write : α → Json} {reals : α → List RealConstant}

/-- A list is storable if its items are, with one container around them. -/
lemma list {items : List α} (each : ∀ a ∈ items, Storable n (write a) (reals a)) :
    Storable (n + 1) (.ofList write items) (items.flatMap reals) where
  depth_le := depth_ofList_le.2 fun a mem => (each a mem).depth_le
  finite value mem := by
    obtain ⟨a, inside, mem⟩ := List.mem_flatMap.1 mem
    exact (each a inside).finite value mem

variable {key : String} {read : Json → Option α}

section List

variable (each : ∀ document a, document.depth ≤ n → read document = some a →
  Storable n (write a) (reals a))

include each

/-- A list is storable if what is read of each item is. -/
lemma of_toList? {document : Json} {items : List α} (le : document.depth ≤ n + 1)
    (given : document.toList? read = some items) :
    Storable (n + 1) (.ofList write items) (items.flatMap reals) :=
  list (Json.forall_of_toList? each (fun _ => depth_le_of_mem_children le) given)

/-- A list that must be there is storable if whatever is read as an item of it is. -/
lemma required : Ensures (·.depth ≤ n + 1)
    (fun items => Storable (n + 1) (.ofList write items) (items.flatMap reals))
    (required key (Json.toList? read)) :=
  .required fun _ _ => of_toList? each

/-- A part that is a list is storable if whatever is read as an item of it is. -/
lemma withDefault : Ensures (·.depth ≤ n + 1)
    (fun items => Storable (n + 1) (.ofList write items) (items.flatMap reals))
    (withDefault key [] (Json.toList? read)) :=
  .withDefault (list (List.forall_mem_nil _)) fun _ _ => of_toList? each

/-- A part that may be missing is storable if whatever is read as that part is. -/
lemma optional : Ensures (·.depth ≤ n)
    (fun value => Storable n (.ofOption write value) (value.toList.flatMap reals))
    (optional key read) := by
  refine .optional ⟨Nat.zero_le n, by simp⟩ fun document a le given => ?_
  have storable := each document a le given
  exact ⟨storable.depth_le, by simpa using storable.finite⟩

end List

end Storable

/-- Numbers beyond the range are not read as long reals. -/
lemma Json.isFinite_of_toBinary64? {document : Json} {x : Binary64}
    (given : document.toBinary64? = some x) : x.isFinite = true := by
  cases document with
  | number n => exact Numeral.isFinite_of_toBinary64? given
  | _ => cases given

variable {n : Nat} {document : Json}

/-- What is written of a type that has been read nests no more deeply than what has been read. -/
lemma ValueType.depth_le {manner : Manner} {type : ValueType}
    (given : ofJson? manner document = some type) : type.toJson.depth ≤ document.depth := by
  fun_induction ofJson? manner document generalizing type with
  | case1 name =>
    obtain ⟨p, -, rfl⟩ := Option.map_eq_some_iff.1 given
    simp [toJson, Json.depthOfMembers]
  | case2 name =>
    obtain ⟨p, -, rfl⟩ := Option.map_eq_some_iff.1 given
    simp [toJson, Json.depthOfMembers]
  | case3 item ih =>
    obtain ⟨inner, read, rfl⟩ := Option.map_eq_some_iff.1 given
    simpa [toJson, Json.depthOfMembers] using ih read
  | case4 =>
    cases given
    exact Nat.zero_le _
  | case5 => cases given

/-- A signature nests no more deeply than a bound on what it has been read of. -/
lemma Signature.ensures {manner : Manner} (enough : 1 ≤ n) :
    Ensures (·.depth ≤ n) (fun s : Signature => ∀ member ∈ s.members, member.2.depth ≤ n)
      (reader manner) := by
  obtain ⟨n, rfl⟩ := Nat.exists_eq_add_of_le' enough
  refine .bind .required_any fun name _ => ?_
  refine .bind (Q := fun params => (Json.ofList ValueType.toJson params).depth ≤ n + 1)
    (.withDefault (Nat.le_add_left 1 n) ?_) fun params paramsLe => ?_
  · intro document params le given
    have each := Json.forall_of_toList? (fun _ _ le given => (ValueType.depth_le given).trans le)
      (fun _ => depth_le_of_mem_children le) given
    exact depth_ofList_le.2 each
  refine .bind (Q := fun result => result.toJson.depth ≤ n + 1)
    (.withDefault (Nat.zero_le _) ?_) fun result resultLe => .pure ?_
  · exact fun document type le given => (ValueType.depth_le given).trans le
  · simp [members, paramsLe, resultLe]

/-- A reference to a method nests no more deeply than a bound on what it has been read of. -/
lemma MethodRef.depth_le {m : MethodRef} (enough : 2 ≤ n) (le : document.depth ≤ n)
    (given : ofJson? document = some m) : m.toJson.depth ≤ n := by
  obtain ⟨n, rfl⟩ := Nat.exists_eq_add_of_le' enough
  refine Ensures.of_toMixedRecord? (Q := fun m => m.toJson.depth ≤ n + 2) ?_
    (fun _ => depth_le_of_mem_children le) given
  refine .bind .required_any fun name _ => ?_
  refine .bind (Signature.ensures (Nat.le_add_left 1 n)) fun s each => .pure ?_
  exact depth_object_le.2 (List.forall_mem_cons.2 ⟨Nat.zero_le _, each⟩)

namespace Instruction

/-- Each operand is read from a part, and is no deeper than that part or than two containers. -/
lemma ensures (enough : 2 ≤ n) (name : String) :
    Ensures (·.depth ≤ n) (fun i : Instruction => Storable (n + 1) (i.toJson .own) i.reals)
      (reader name) := by
  obtain ⟨n, rfl⟩ := Nat.exists_eq_add_of_le' enough
  have type (key : String) :
      Ensures (·.depth ≤ n + 2) (fun type => type.toJson.depth ≤ n + 2) (reader.type key) :=
    .required fun document type le given => (ValueType.depth_le given).trans le
  have method : Ensures (·.depth ≤ n + 2) (fun m => m.toJson.depth ≤ n + 2)
      (required "method" MethodRef.ofJson?) :=
    .required fun document m le given => MethodRef.depth_le enough le given
  have long : Ensures (·.depth ≤ n + 2) (fun x => x.isFinite = true)
      (required "value" Json.toBinary64?) :=
    .required fun document x _ given => Json.isFinite_of_toBinary64? given
  unfold reader
  split
  -- the parts of each operation in turn, of which only these three matter
  all_goals
    repeat
      refine .bind (by first
        | exact type _
        | exact method
        | exact long
        | exact .required_any
        | exact .nullable_any) fun _ _ => ?_
    first
    | exact .failure
    | exact .pure ⟨depth_toJson_le.2 (by simp [operands, Operand.toJson, *]), by simp [reals, *]⟩

/-- An instruction that has been read is storable. -/
lemma storable {i : Instruction} (enough : 3 ≤ n) (le : document.depth ≤ n)
    (given : ofJson? document = some i) : Storable n (i.toJson .own) i.reals := by
  obtain ⟨n, rfl⟩ := Nat.exists_eq_add_of_le' enough
  exact Ensures.of_toTagged? (Q := fun i => Storable (n + 3) (i.toJson .own) i.reals)
    (ensures (Nat.le_add_left 2 n)) (fun _ => depth_le_of_mem_children le) given

end Instruction

/-- A block that has been read is storable. -/
lemma BasicBlock.storable {b : BasicBlock} (enough : 5 ≤ n) (le : document.depth ≤ n)
    (given : ofJson? document = some b) : Storable n (b.toJson .own) b.reals := by
  obtain ⟨n, rfl⟩ := Nat.exists_eq_add_of_le' enough
  refine Ensures.of_toRecord? (Q := fun b => Storable (n + 5) (b.toJson .own) b.reals) ?_
    (fun _ => depth_le_of_mem_children le) given
  refine .bind .withDefault_any fun phis _ => ?_
  refine .bind (Storable.withDefault fun _ _ => Instruction.storable (Nat.le_add_left 3 n))
    fun instructions kept => ?_
  refine .bind .required_any fun terminator _ => ?_
  refine .bind .withDefault_any fun tryCatches _ => ?_
  refine .bind .optional_any fun exceptionVariable _ => .pure ?_
  exact ⟨depth_toJson_le (Nat.le_add_left 4 n) kept.depth_le, kept.finite⟩

/-- A body that has been read is storable. -/
lemma Body.storable {b : Body} (enough : 7 ≤ n) (le : document.depth ≤ n)
    (given : ofJson? document = some b) : Storable n (b.toJson .own) b.reals := by
  obtain ⟨n, rfl⟩ := Nat.exists_eq_add_of_le' enough
  refine Ensures.of_toRecord? (Q := fun b => Storable (n + 7) (b.toJson .own) b.reals) ?_
    (fun _ => depth_le_of_mem_children le) given
  refine .bind .required_any fun kinds _ => ?_
  refine .bind (Storable.required fun _ _ => BasicBlock.storable (Nat.le_add_left 5 n))
    fun blocks kept => .pure ?_
  exact ⟨depth_toJson_le (by omega) kept.depth_le, kept.finite⟩

/-- An initial value that has been read is storable. -/
lemma InitialValue.storable {v : InitialValue} (enough : 1 ≤ n)
    (given : ofJson? document = some v) : Storable n v.toJson v.reals := by
  refine Ensures.of_toRecord? (P := fun _ => True) (Q := fun v => Storable n v.toJson v.reals) ?_
    (fun _ _ => trivial) given
  refine .bind .required_any fun kind _ => .required fun document v _ given => ?_
  refine ⟨v.depth_toJson.le.trans enough, ?_⟩
  unfold ofKind? at given
  split at given
  case h_6 => cases given
  all_goals obtain ⟨x, read, rfl⟩ := Option.map_eq_some_iff.1 given
  case h_4 => simpa [reals] using Json.isFinite_of_toBinary64? read
  all_goals simp [reals]

/-- A field that has been read is storable. -/
lemma FieldDef.storable {f : FieldDef} (enough : 2 ≤ n) (le : document.depth ≤ n)
    (given : ofJson? document = some f) : Storable n f.toJson f.reals := by
  obtain ⟨n, rfl⟩ := Nat.exists_eq_add_of_le' enough
  refine Ensures.of_toRecord? (Q := fun f => Storable (n + 2) f.toJson f.reals) ?_
    (fun _ => depth_le_of_mem_children le) given
  refine .bind .required_any fun name _ => ?_
  refine .bind .withDefault_any fun isStatic _ => ?_
  refine .bind (Q := fun type => type.toJson.depth ≤ n + 1) (.required ?_) fun type typeLe => ?_
  · exact fun document type le given => (ValueType.depth_le given).trans le
  refine .bind (Storable.optional fun _ _ _ => InitialValue.storable (Nat.le_add_left 1 n))
    fun initial kept => .pure ?_
  exact ⟨depth_toJson_le (Nat.le_add_left 1 n) typeLe, kept.finite⟩

/-- A method that has been read is storable. -/
lemma MethodDef.storable {m : MethodDef} (enough : 8 ≤ n) (le : document.depth ≤ n)
    (given : ofJson? document = some m) : Storable n m.toJson m.reals := by
  obtain ⟨n, rfl⟩ := Nat.exists_eq_add_of_le' enough
  refine Ensures.of_toMixedRecord? (Q := fun m => Storable (n + 8) m.toJson m.reals) ?_
    (fun _ => depth_le_of_mem_children le) given
  refine .bind (Signature.ensures (by omega)) fun signature each => ?_
  refine .bind .withDefault_any fun isStatic _ => ?_
  refine .bind .withDefault_any fun isNative _ => ?_
  refine .bind .withDefault_any fun isAbstract _ => ?_
  refine .bind .withDefault_any fun access _ => ?_
  refine .bind (Storable.optional fun _ _ => Body.storable (Nat.le_add_left 7 n))
    fun body kept => .pure ?_
  exact ⟨depth_toJson_le each kept.depth_le, kept.finite⟩

/-- A class that has been read is storable. -/
lemma ClassDef.storable {c : ClassDef} (enough : 10 ≤ n) (le : document.depth ≤ n)
    (given : ofJson? document = some c) : Storable n c.toJson c.reals := by
  obtain ⟨n, rfl⟩ := Nat.exists_eq_add_of_le' enough
  refine Ensures.of_toRecord? (Q := fun c => Storable (n + 10) c.toJson c.reals) ?_
    (fun _ => depth_le_of_mem_children le) given
  refine .bind .required_any fun name _ => ?_
  refine .bind .optional_any fun parent _ => ?_
  refine .bind .withDefault_any fun interfaces _ => ?_
  refine .bind .withDefault_any fun isInterface _ => ?_
  refine .bind .withDefault_any fun isAbstract _ => ?_
  refine .bind (Storable.withDefault fun _ _ => FieldDef.storable (by omega))
    fun fields kept => ?_
  refine .bind (Storable.withDefault fun _ _ => MethodDef.storable (Nat.le_add_left 8 n))
    fun methods kept' => .pure ?_
  refine ⟨depth_toJson_le (by omega) kept.depth_le kept'.depth_le, fun value mem => ?_⟩
  exact (List.mem_append.1 mem).elim (kept.finite value) (kept'.finite value)

namespace Program

variable {p : Program}

/-- A program that has been read of a document is storable. -/
lemma storable (enough : 12 ≤ n) (le : document.depth ≤ n)
    (given : partsOfJson? document = some (p.classes, p.entryPoint)) :
    Storable n p.toJson p.reals := by
  obtain ⟨n, rfl⟩ := Nat.exists_eq_add_of_le' enough
  have parts : Storable (n + 11) (.ofList ClassDef.toJson p.classes) p.reals ∧
      (Json.ofOption MethodRef.toJson p.entryPoint).depth ≤ n + 11 := by
    refine Ensures.of_toRecord?
      (Q := fun parts => Storable (n + 11) (.ofList ClassDef.toJson parts.1)
        (parts.1.flatMap ClassDef.reals) ∧ (Json.ofOption MethodRef.toJson parts.2).depth ≤ n + 11)
      ?_ (fun _ => depth_le_of_mem_children le) given
    refine .bind (Storable.withDefault fun _ _ => ClassDef.storable (Nat.le_add_left 10 n))
      fun classes kept => ?_
    refine .bind
      (.optional (Q := fun entry => (Json.ofOption MethodRef.toJson entry).depth ≤ n + 11)
        (Nat.zero_le _) ?_) fun entryPoint le => .pure ⟨kept, le⟩
    exact fun document m => MethodRef.depth_le (by omega)
  exact ⟨depth_toJson_le parts.1.depth_le parts.2, parts.1.finite⟩

/-- A program that a library has read can be written as a document that does not nest too deeply,
and its long reals are finite. -/
theorem storable_of_readWith {library : Json.Library} (lawful : library.Lawful) {text : String}
    (loaded : readWith library text = .ok p) : Storable Json.maxDepth p.toJson p.reals := by
  rw [readWith] at loaded
  split at loaded
  case h_1 => cases loaded
  case h_2 document given =>
    rw [ofJson] at loaded
    split at loaded
    case h_1 => cases loaded
    case h_2 classes entryPoint parts =>
      obtain ⟨rfl, rfl⟩ := ofClasses_eq_ok.1 loaded
      exact storable (by decide) (lawful.depth_le given) parts

end Program

end ObjectBackend
