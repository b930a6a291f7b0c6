import ObjectBackend.Json.Value

/-!
# Records in JSON

How data with named parts is read from a document. A record is written as an object, or as an array
that gives the parts in their order. A `RecordReader` takes the parts one after another, in that
order, so that it serves both ways of writing. A part is required, optional (missing or null) or has
a default (missing, but not null). In an object each part that is asked for may stand only once, and
all other members are skipped.

The readers of single values stand here too: texts, truth values, integers of a range, lists and
named choices.
-/

namespace ObjectBackend.Json

open Floating

/-- The text a document consists of. -/
def toText? : Json → Option String
  | .string text => some text
  | _ => none

/-- The truth value a document consists of. -/
def toBool? : Json → Option Bool
  | .bool value => some value
  | _ => none

/-- The integer a document consists of, if it lies between two bounds, both included. -/
def toIntWithin? (least greatest : Int) : Json → Option Int
  | .number n => n.toInt?.filter fun value => least ≤ value && value ≤ greatest
  | _ => none

/-- The unsigned 32-bit number a document consists of. -/
def toUInt32? (json : Json) : Option UInt32 :=
  (json.toIntWithin? 0 (UInt32.size - 1 : Nat)).map fun value => UInt32.ofNat value.toNat

/-- The signed 32-bit number a document consists of. -/
def toInt32? (json : Json) : Option Int32 :=
  (json.toIntWithin? Int32.minValue.toInt Int32.maxValue.toInt).map Int32.ofInt

/-- The signed 64-bit number a document consists of. -/
def toInt64? (json : Json) : Option Int64 :=
  (json.toIntWithin? Int64.minValue.toInt Int64.maxValue.toInt).map Int64.ofInt

/-- The real a document consists of. -/
def toBinary64? : Json → Option Binary64
  | .number n => n.toBinary64?
  | _ => none

/-- Whether an integer fits in 64 bits, with or without a sign. -/
def isWord (value : Int) : Bool := Int64.minValue.toInt ≤ value && value < (UInt64.size : Int)

/-- The short real a document consists of. An integer of 64 bits is rounded once; any other number
is read as a long real and rounded again. -/
def toBinary32? : Json → Option Binary32
  | .number n =>
    match n.toInt?.filter isWord with
    | some value => some (.ofDatum (.finite (value < 0) value.natAbs 0))
    | none => n.toBinary64?.map Binary64.narrow
  | _ => none

/-- The items of an array, each read the same way. -/
def toList? {α : Type} (item : Json → Option α) : Json → Option (List α)
  | .array items => items.mapM item
  | _ => none

/-- The two items of an array of two. -/
def toPair? {α β : Type} (first : Json → Option α) (second : Json → Option β) :
    Json → Option (α × β)
  | .array [a, b] => do some (← first a, ← second b)
  | _ => none

/-- How the name of a choice is read. Parts that are held back while the form of their record is
not known are read loosely, all others strictly. -/
inductive Manner where
  | strict
  | loose
deriving DecidableEq

/-- What may stand under the name of a choice that has no parts: null, and read loosely also an
object without members. -/
def isNothing : Manner → Json → Bool
  | _, .null => true
  | .loose, .object [] => true
  | _, _ => false

/-- The name of a choice without parts, given alone or as the only key of an object. -/
def toName? (manner : Manner) : Json → Option String
  | .string name => some name
  | .object [(name, value)] => if isNothing manner value then some name else none
  | _ => none

/-- The one of the given choices that a document names. -/
def toChoice? {α : Type} (manner : Manner) (choices : List α) (name : α → String) (json : Json) :
    Option α := do
  let given ← json.toName? manner
  choices.find? (name · = given)

/-- The parts of a record: members by their keys, or the items that have not been taken. -/
inductive Parts where
  | named (members : List (String × Json))
  | listed (items : List Json)

/-- A reader that takes parts of a record. -/
abbrev RecordReader := StateT Parts Option

namespace RecordReader

variable {α : Type}

/-- Take the next part, which has the given key, if there is one. -/
def next? (key : String) : RecordReader (Option Json) := do
  match ← get with
  | .named members =>
    match members.filter (·.1 = key) with
    | [] => return none
    | [(_, json)] => return some json
    | _ => failure
  | .listed [] => return none
  | .listed (item :: items) =>
    set (Parts.listed items)
    return some item

/-- Take a part that must be there. -/
def required (key : String) (read : Json → Option α) : RecordReader α := do
  match ← next? key with
  | some json => liftM (read json)
  | none => failure

/-- Take a part with a default, which stands for it if it is missing. -/
def withDefault (key : String) (default : α) (read : Json → Option α) : RecordReader α := do
  match ← next? key with
  | some json => liftM (read json)
  | none => return default

/-- Take a part that may be missing or null. -/
def optional (key : String) (read : Json → Option α) : RecordReader (Option α) := do
  match ← next? key with
  | none | some .null => return none
  | some json => return some (← read json)

/-- Take a part that may be null, and may be missing unless the parts are listed. -/
def nullable (key : String) (read : Json → Option α) : RecordReader (Option α) := do
  match ← next? key, ← get with
  | none, .named _ => return none
  | none, .listed _ => failure
  | some .null, _ => return none
  | some json, _ => return some (← read json)

/-- Read the parts that stand as the members of an object. -/
def ofMembers? (reader : RecordReader α) (members : List (String × Json)) : Option α :=
  (reader.run (.named members)).map (·.1)

/-- Read the parts that stand as the items of an array. None may be left over. -/
def ofItems? (reader : RecordReader α) (items : List Json) : Option α :=
  match reader.run (.listed items) with
  | some (value, .listed []) => some value
  | _ => none

end RecordReader

variable {α : Type}

/-- The record a document writes. -/
def toRecord? (reader : RecordReader α) : Json → Option α
  | .object members => reader.ofMembers? members
  | .array items => reader.ofItems? items
  | _ => none

/-- The record of a document whose first part says which other parts there are. The others are held
back until it has been seen, so all parts must be readable, also those that are skipped. -/
def toTagged? (tag : String) (reader : String → RecordReader α) (json : Json) : Option α :=
  if json.isReadable then json.toRecord? (do reader (← RecordReader.required tag toText?)) else none

/-- The record of an object in which only the members of the given keys are read at once. The others
are held back, as they may be parts of a part, and must be readable. -/
def toMixedRecord? (keys : List String) (reader : RecordReader α) : Json → Option α
  | .object members =>
    if members.all fun (key, value) => keys.contains key || value.isReadable then
      reader.ofMembers? members
    else none
  | _ => none

end ObjectBackend.Json
