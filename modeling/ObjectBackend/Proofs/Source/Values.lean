import ObjectBackend.Proofs.Source.Documents

/-!
# Values read back

What is read of the values a program is made of after they have been written. Integers, lists and
optional parts are read as they were; what is read of a real is named (`Binary32.reread?`,
`Binary64.reread?`) and not always the same real. A document that can be written is readable with
all its parts (`Json.IsWritable.isReadable`), so that they may be held back.
-/

namespace ObjectBackend

open Floating
open Json (RecordReader part? orNull?)

/-- What is read of a short real that has been written. -/
def Floating.Binary32.reread? (x : Binary32) : Option Binary32 :=
  (Json.ofBinary32 .own x).toBinary32?

/-- What is read of a long real that has been written. -/
def Floating.Binary64.reread? (x : Binary64) : Option Binary64 :=
  (Json.ofBinary64 x).toBinary64?

namespace Json

variable {α β : Type}

/-- A writable document can be read with all its parts. -/
lemma IsWritable.isReadable {value : Json} (writable : value.IsWritable) :
    value.isReadable = true := by
  induction writable with
  | @array items each ih =>
    rw [Json.isReadable]
    clear each
    induction items with
    | nil => rfl
    | cons item items more =>
      obtain ⟨first, others⟩ := List.forall_mem_cons.1 ih
      rw [areReadable, first, more others, Bool.and_self]
  | @object members each ih =>
    rw [Json.isReadable]
    clear each
    induction members with
    | nil => rfl
    | cons member members more =>
      obtain ⟨first, others⟩ := List.forall_mem_cons.1 ih
      rw [membersReadable, first, more others, Bool.and_self]
  | _ => simp only [Json.isReadable]

/-- A list is read item by item. -/
lemma toList?_ofList {read : Json → Option β} {write : α → Json} {f : α → Option β}
    (back : ∀ a, read (write a) = f a) (items : List α) :
    (ofList write items).toList? read = items.mapM f := by
  rw [ofList, toList?, List.mapM_map, Function.comp_def]
  simp only [back]

/-- A list is read as it was if each item is. -/
lemma toList?_ofList_self {read : Json → Option α} {write : α → Json}
    (back : ∀ a, read (write a) = some a) (items : List α) :
    (ofList write items).toList? read = some items :=
  (toList?_ofList back items).trans (List.mapM_pure.trans (congrArg some (List.map_id' items)))

/-- An optional part is read back if what is written of a value is not null. -/
lemma orNull?_ofOption {read : Json → Option β} {write : α → Json} {f : α → Option β}
    (back : ∀ a, read (write a) = f a) (notNull : ∀ a, write a ≠ .null) (value : Option α) :
    orNull? read (ofOption write value) = value.mapM f := by
  cases value with
  | none => rfl
  | some a =>
    rw [ofOption, Option.mapM_some, ← back]
    have other := notNull a
    cases json : write a with
    | null => exact absurd json other
    | _ => rfl

/-- A part that may be missing is read as it was if any value is, and none is written as null. -/
lemma orNull?_ofOption_self {read : Json → Option α} {write : α → Json}
    (back : ∀ a, read (write a) = some a) (notNull : ∀ a, write a ≠ .null) (value : Option α) :
    orNull? read (ofOption write value) = some value := by
  rw [orNull?_ofOption back notNull]
  cases value <;> rfl

/-- An integer is read of its numeral. -/
lemma toInt?_ofInt (n : Int) : (Numeral.ofInt n).toInt? = some n := by
  simp only [Numeral.toInt?, Numeral.ofInt, List.isEmpty_nil, and_self, if_true,
    digitsValue_toDigits, decide_eq_true_eq]
  split
  case isTrue negative => rw [if_neg (by omega)]; congr 1; omega
  case isFalse => congr 1; omega

/-- An integer is read within bounds that it keeps. -/
lemma toIntWithin?_ofInt {least greatest n : Int} (ge : least ≤ n) (le : n ≤ greatest) :
    (ofInt n).toIntWithin? least greatest = some n := by
  rw [ofInt, toIntWithin?, toInt?_ofInt]
  simp [ge, le]

/-- A number of four bytes is read as it was. -/
lemma toUInt32?_ofInt (n : UInt32) : (ofInt n.toNat).toUInt32? = some n := by
  have less := n.toNat_lt
  rw [toUInt32?, toIntWithin?_ofInt (by omega) (by rw [UInt32.size]; omega)]
  simp

/-- An integer is read as it was. -/
@[simp] lemma toInt32?_ofInt (n : Int32) : (ofInt n.toInt).toInt32? = some n := by
  rw [toInt32?, toIntWithin?_ofInt n.minValue_le_toInt n.toInt_le]
  simp

/-- A long integer is read as it was. -/
@[simp] lemma toInt64?_ofInt (n : Int64) : (ofInt n.toInt).toInt64? = some n := by
  rw [toInt64?, toIntWithin?_ofInt n.minValue_le_toInt n.toInt_le]
  simp

/-- A record is read of the members of an object by name. -/
lemma toRecord?_object (reader : RecordReader α) (members : List (String × Json)) :
    toRecord? reader (.object members) = (reader.run (.named members)).map (·.1) := rfl

/-- A record among other members is read of the members of a writable object by name. -/
lemma toMixedRecord?_object {keys : List String} {reader : RecordReader α}
    {members : List (String × Json)} (writable : (object members).IsWritable) :
    toMixedRecord? keys reader (.object members) = (reader.run (.named members)).map (·.1) := by
  have readable : (members.all fun member => keys.contains member.1 || member.2.isReadable) =
      true := by
    refine List.all_eq_true.2 fun member mem => ?_
    rw [(isWritable_object.1 writable member mem).isReadable, Bool.or_true]
  exact if_pos readable

/-- A tagged record is read of the members of a writable object by the reader for its tag. -/
lemma toTagged?_object {tag name : String} {reader : String → RecordReader α}
    {members : List (String × Json)} (writable : (object members).IsWritable)
    (tagged : part? tag members = some (some (.string name))) :
    toTagged? tag reader (.object members) = ((reader name).run (.named members)).map (·.1) := by
  rw [toTagged?, if_pos writable.isReadable, toRecord?_object, StateT.run_bind,
    RecordReader.run_required, tagged]
  rfl

/-- A string is read as its text. -/
@[simp] lemma toText?_string (text : String) : (string text).toText? = some text := rfl

/-- A truth value is read as it was. -/
@[simp] lemma toBool?_bool (value : Bool) : (bool value).toBool? = some value := rfl

end Json

end ObjectBackend
