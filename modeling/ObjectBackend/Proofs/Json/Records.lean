import Mathlib.Tactic.Lemma
import ObjectBackend.Json.Record

/-!
# Records with named parts

What the readers of parts find in an object. A part is looked up by its key (`part?`) and the
members stay as they are, so that each part is read from all of them.

What is read of a record follows from its parts, whether they are named or listed: a reader
`Ensures` a property of the record if it has been given parts of some property.
-/

namespace ObjectBackend.Json

variable {α : Type}

/-- The part of a key, if there is one; there must not be several. -/
def part? (key : String) (members : List (String × Json)) : Option (Option Json) :=
  match members.filter (·.1 = key) with
  | [] => some none
  | [(_, json)] => some (some json)
  | _ => none

/-- A part that is found is one of the members. -/
lemma mem_of_part? {key : String} {members : List (String × Json)} {document : Json}
    (found : part? key members = some (some document)) : document ∈ members.map (·.2) := by
  rw [part?] at found
  split at found
  case h_2 key' document' single =>
    cases found
    have mem : (key', document) ∈ members.filter (·.1 = key) := single ▸ List.mem_singleton_self _
    exact List.mem_map_of_mem (List.mem_filter.1 mem).1
  all_goals cases found

/-- What is read of a part that may be null. -/
def orNull? (read : Json → Option α) : Json → Option (Option α)
  | .null => some none
  | json => (read json).map some

namespace RecordReader

variable (key : String) (members : List (String × Json)) (read : Json → Option α)

/-- Among named members, the next part is looked up by its key. -/
lemma run_next? : (next? key).run (.named members) =
    (part? key members).map fun part => (part, .named members) := by
  change StateT.run (match members.filter (·.1 = key) with
    | [] => pure none
    | [(_, json)] => pure (some json)
    | _ => failure : RecordReader (Option Json)) (.named members) = _
  rw [part?]
  split <;> rfl

/-- A value that does not depend on the parts takes none of them. -/
lemma run_liftM (value : Option α) (parts : Parts) :
    (liftM value : RecordReader α).run parts = value.map fun a => (a, parts) := by
  cases value <;> rfl

/-- A value that does not depend on the parts may be wrapped. -/
lemma run_some (value : Option α) (parts : Parts) :
    (do return some (← value) : RecordReader (Option α)).run parts =
      (value.map some).map fun a => (a, parts) := by
  cases value <;> rfl

/-- A required part is read of the member with its key. -/
@[simp] lemma run_required : (required key read).run (.named members) =
    (part? key members).join.bind fun json => (read json).map fun a => (a, .named members) := by
  rw [required, StateT.run_bind, run_next?]
  rcases part? key members with _ | _ | json
  · rfl
  · rfl
  · exact run_liftM (read json) _

/-- A part with a default is read of the member with its key, if there is one. -/
@[simp] lemma run_withDefault (default : α) :
    (withDefault key default read).run (.named members) =
      (part? key members).bind fun part =>
        (part.elim (some default) read).map fun a => (a, .named members) := by
  rw [withDefault, StateT.run_bind, run_next?]
  rcases part? key members with _ | _ | json
  · rfl
  · rfl
  · exact run_liftM (read json) _

/-- An optional part is read of the member with its key, if there is one and it is not null. -/
@[simp] lemma run_optional : (optional key read).run (.named members) =
    (part? key members).bind fun part =>
      (part.elim (some none) (orNull? read)).map fun a => (a, .named members) := by
  rw [optional, StateT.run_bind, run_next?]
  rcases part? key members with _ | _ | json
  · rfl
  · rfl
  · cases json with
    | null => rfl
    | _ => exact run_some (read _) _

/-- A part that may be null is read of the member with its key, if there is one and it is not null.
-/
@[simp] lemma run_nullable : (nullable key read).run (.named members) =
    (part? key members).bind fun part =>
      (part.elim (some none) (orNull? read)).map fun a => (a, .named members) := by
  rw [nullable, StateT.run_bind, run_next?]
  rcases part? key members with _ | _ | json
  · rfl
  · rfl
  · cases json with
    | null => rfl
    | _ => exact run_some (read _) _

end RecordReader

/-- Every result has been computed for an element of the list. -/
lemma exists_of_mem_of_mapM_eq_some {α β : Type} {f : α → Option β} {xs : List α} {ys : List β}
    (succeeds : xs.mapM f = some ys) {b : β} (mem : b ∈ ys) : ∃ a ∈ xs, f a = some b := by
  induction xs generalizing ys with
  | nil =>
    cases succeeds
    cases mem
  | cons x xs ih =>
    rw [List.mapM_cons] at succeeds
    obtain ⟨y, given, more⟩ := Option.bind_eq_some_iff.1 succeeds
    obtain ⟨ys', others, made⟩ := Option.bind_eq_some_iff.1 more
    cases made
    rcases List.mem_cons.1 mem with rfl | mem
    · exact ⟨x, List.mem_cons_self, given⟩
    · obtain ⟨a, mem, given⟩ := ih others mem
      exact ⟨a, List.mem_cons_of_mem x mem, given⟩

/-- What stands directly inside of a document. -/
def children : Json → List Json
  | .array items => items
  | .object members => members.map (·.2)
  | _ => []

/-- The documents of parts. -/
def Parts.documents : Parts → List Json
  | .named members => members.map (·.2)
  | .listed items => items

/-- A reader that is given parts of one property makes values of another one, and leaves parts of
the first property. -/
def RecordReader.Ensures (P : Json → Prop) (Q : α → Prop) (reader : RecordReader α) : Prop :=
  ∀ parts a rest, (∀ document ∈ parts.documents, P document) →
    reader.run parts = some (a, rest) → Q a ∧ ∀ document ∈ rest.documents, P document

namespace RecordReader.Ensures

variable {β : Type} {P : Json → Prop} {Q : α → Prop} {R : β → Prop} {read : Json → Option α}

/-- A reader that takes no part ensures what holds of its result. -/
lemma pure {a : α} (holds : Q a) : Ensures P Q (Pure.pure a) := by
  rintro parts _ _ each ⟨⟩
  exact ⟨holds, each⟩

/-- A reader that fails ensures anything. -/
lemma failure : Ensures P Q failure := by
  rintro parts a rest each ⟨⟩

/-- Readers ensure one after the other what each needs of the one before. -/
lemma bind {reader : RecordReader α} {next : α → RecordReader β} (first : Ensures P Q reader)
    (step : ∀ a, Q a → Ensures P R (next a)) : Ensures P R (reader >>= next) := by
  intro parts b rest each run
  obtain ⟨middle, run, run'⟩ := Option.bind_eq_some_iff.1 run
  obtain ⟨holds, each⟩ := first parts middle.1 middle.2 each run
  exact step middle.1 holds middle.2 b rest each run'

/-- A value that does not depend on the parts ensures what is known of it. -/
lemma liftM {value : Option α} (holds : ∀ a, value = some a → Q a) :
    Ensures P Q (liftM value : RecordReader α) := by
  intro parts a rest each run
  rw [run_liftM] at run
  obtain ⟨_, given, made⟩ := Option.map_eq_some_iff.1 run
  cases made
  exact ⟨holds a given, each⟩

/-- The next part is one of the parts. -/
lemma next? (key : String) :
    Ensures P (fun part => ∀ document, part = some document → P document) (next? key) := by
  intro parts part rest each run
  cases parts with
  | named members =>
    rw [run_next?] at run
    obtain ⟨part, found, made⟩ := Option.map_eq_some_iff.1 run
    cases made
    refine ⟨?_, each⟩
    rintro document rfl
    exact each document (mem_of_part? found)
  | listed items =>
    cases items with
    | nil =>
      cases run
      exact ⟨by simp, each⟩
    | cons item items =>
      cases run
      obtain ⟨first, others⟩ := List.forall_mem_cons.1 each
      exact ⟨by simpa using first, others⟩

variable {key : String}

/-- A required part ensures what is read of any part. -/
lemma required (holds : ∀ document a, P document → read document = some a → Q a) :
    Ensures P Q (required key read) := by
  refine (next? key).bind fun part each => ?_
  cases part with
  | none => exact failure
  | some document => exact liftM fun a given => holds document a (each document rfl) given

/-- A part with a default ensures what is read of any part, if the default has it too. -/
lemma withDefault {default : α} (holdsDefault : Q default)
    (holds : ∀ document a, P document → read document = some a → Q a) :
    Ensures P Q (withDefault key default read) := by
  refine (next? key).bind fun part each => ?_
  cases part with
  | none => exact pure holdsDefault
  | some document => exact liftM fun a given => holds document a (each document rfl) given

/-- Nothing is asked of a required part. -/
lemma required_any : Ensures P (fun _ => True) (RecordReader.required key read) :=
  required fun _ _ _ _ => trivial

/-- Nothing is asked of a part with a default. -/
lemma withDefault_any {default : α} :
    Ensures P (fun _ => True) (RecordReader.withDefault key default read) :=
  withDefault trivial fun _ _ _ _ => trivial

variable {Q : Option α → Prop}

/-- An optional part ensures what is read of any part, if a missing one has it too. -/
lemma optional (absent : Q none)
    (holds : ∀ document a, P document → read document = some a → Q (some a)) :
    Ensures P Q (optional key read) := by
  refine (next? key).bind fun part each => ?_
  split
  · exact pure absent
  · exact pure absent
  · refine (liftM fun a given => given).bind fun a given => ?_
    exact pure (holds _ a (each _ rfl) given)

/-- A part that may be null ensures what is read of any part, if a missing one has it too. -/
lemma nullable (absent : Q none)
    (holds : ∀ document a, P document → read document = some a → Q (some a)) :
    Ensures P Q (nullable key read) := by
  refine (next? key).bind fun part each => ?_
  have looked : Ensures P (fun _ => True) (get : RecordReader Parts) := by
    rintro parts _ _ each ⟨⟩
    exact ⟨trivial, each⟩
  refine looked.bind fun parts _ => ?_
  split
  · exact pure absent
  · exact failure
  · exact pure absent
  · refine (liftM fun a given => given).bind fun a given => ?_
    exact pure (holds _ a (each _ rfl) given)

/-- Nothing is asked of an optional part. -/
lemma optional_any : Ensures P (fun _ => True) (RecordReader.optional key read) :=
  optional trivial fun _ _ _ _ => trivial

/-- Nothing is asked of a part that may be null. -/
lemma nullable_any : Ensures P (fun _ => True) (RecordReader.nullable key read) :=
  nullable trivial fun _ _ _ _ => trivial

end RecordReader.Ensures

section Documents

open RecordReader

variable {P : Json → Prop} {Q : α → Prop} {reader : RecordReader α}
  {document : Json} {a : α}

/-- A record that is read from a document is made of what stands directly inside of it. -/
lemma RecordReader.Ensures.of_toRecord? (ensures : reader.Ensures P Q)
    (each : ∀ child ∈ document.children, P child)
    (given : toRecord? reader document = some a) : Q a := by
  cases document with
  | object members =>
    obtain ⟨⟨_, rest⟩, run, rfl⟩ := Option.map_eq_some_iff.1 given
    exact (ensures (.named members) _ rest each run).1
  | array items =>
    change ofItems? reader items = some a at given
    rw [ofItems?] at given
    split at given
    case h_1 value run =>
      cases given
      exact (ensures (.listed items) a _ each run).1
    case h_2 => cases given
  | _ => cases given

/-- What the reader of a record ensures holds of what is read of a record among other members. -/
lemma RecordReader.Ensures.of_toMixedRecord? {keys : List String} (ensures : reader.Ensures P Q)
    (each : ∀ child ∈ document.children, P child)
    (given : toMixedRecord? keys reader document = some a) : Q a := by
  cases document with
  | object members =>
    rw [toMixedRecord?] at given
    split at given
    · exact ensures.of_toRecord? each given
    · cases given
  | _ => cases given

/-- The parts of a tagged record are of one property whatever its tag is. -/
lemma RecordReader.Ensures.of_toTagged? {tag : String} {reader : String → RecordReader α}
    (ensures : ∀ name, (reader name).Ensures P Q) (each : ∀ child ∈ document.children, P child)
    (given : toTagged? tag reader document = some a) : Q a := by
  rw [toTagged?] at given
  split at given
  · have named : (RecordReader.required tag toText?).Ensures P (fun _ => True) :=
      Ensures.required fun _ _ _ _ => trivial
    exact (named.bind fun name _ => ensures name).of_toRecord? each given
  · cases given

/-- What holds of what is read of each item holds of the items of a list. -/
lemma forall_of_toList? {read : Json → Option α} {items : List α}
    (holds : ∀ document a, P document → read document = some a → Q a)
    (each : ∀ child ∈ document.children, P child)
    (given : document.toList? read = some items) : ∀ a ∈ items, Q a := by
  intro a mem
  cases document with
  | array documents =>
    obtain ⟨item, mem, given⟩ := exists_of_mem_of_mapM_eq_some given mem
    exact holds item a (each item mem) given
  | _ => cases given

end Documents

end ObjectBackend.Json
