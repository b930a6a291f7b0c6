import ObjectBackend.Toml.Scan

/-!
# Flat TOML documents

A document whose lines give values to keys, where every value is a string or a truth value. Tables,
dotted keys, other values and repeated keys are refused.
-/

namespace ObjectBackend.Toml

/-- A value of a flat document. -/
inductive Scalar where
  | text (value : String)
  | truth (value : Bool)
deriving DecidableEq

/-- A value. -/
def Scalar.scan : List Char → Option (Scalar × List Char)
  | 't' :: rest => (scanWord ['r', 'u', 'e'] rest).map (.truth true, ·)
  | 'f' :: rest => (scanWord ['a', 'l', 's', 'e'] rest).map (.truth false, ·)
  | chars => (scanString chars).map fun (value, rest) => (.text (String.ofList value), rest)

/-- A key and its value, with the end of the line. -/
def scanEntry (text : List Char) : Option ((String × Scalar) × List Char) := do
  let (key, rest) ← scanKey text
  let rest ← scanWord ['='] (skipBlanks rest)
  let (value, rest) ← Scalar.scan (skipBlanks rest)
  let rest ← scanLineEnd rest
  some ((String.ofList key, value), rest)

/-- The entries of a text; `fuel` bounds the number of its lines. -/
def scanEntries : Nat → List Char → Option (List (String × Scalar))
  | 0, text => if text.all fun c => isBlank c || c = '\n' then some [] else none
  | fuel + 1, text =>
    match text.dropWhile fun c => isBlank c || c = '\n' with
    | [] => some []
    | '#' :: rest => do scanEntries fuel (← scanLineEnd ('#' :: rest))
    | text => do
      let (entry, rest) ← scanEntry text
      let entries ← scanEntries fuel rest
      some (entry :: entries)

/-- The entries of a document, which may start with a byte order mark. -/
def readEntries? (text : String) : Option (List (String × Scalar)) := do
  let chars :=
    match text.toList with
    | '\ufeff' :: rest => joinBreaks rest
    | chars => joinBreaks chars
  let entries ← scanEntries chars.length chars
  if (entries.map (·.1)).Nodup then some entries else none

end ObjectBackend.Toml
