/-!
# Flaws of JSON texts

What can be wrong with a text that should be a document, and where. A place is a number of bytes, as
the text is written in UTF-8; it is kept as the number of bytes that lie behind it, because that is
known while a text is being taken apart, and told as a line and a column.
-/

namespace ObjectBackend.Json

/-- What can be wrong with a text. -/
inductive Defect where
  | endInValue
  | endInString
  | endInArray
  | endInObject
  /-- No value starts with this character. -/
  | noValue
  /-- A word other than the three with a meaning. -/
  | noWord
  /-- A member starts with something other than a string. -/
  | noKey
  | noColon
  /-- Something other than a comma or the bracket follows an item. -/
  | noItemEnd
  /-- Something other than a comma or the brace follows a member. -/
  | noMemberEnd
  | trailingComma
  | trailingText
  | badNumber
  | outOfRange
  | badEscape
  | controlCharacter
  /-- The first half of a surrogate pair that is not followed by a unit. -/
  | halfPair
  /-- A unit that is not the half of a surrogate pair that it should be. -/
  | strayHalf
  | tooDeep
deriving DecidableEq

/-- A defect in words. -/
def Defect.description : Defect → String
  | .endInValue => "EOF while parsing a value"
  | .endInString => "EOF while parsing a string"
  | .endInArray => "EOF while parsing a list"
  | .endInObject => "EOF while parsing an object"
  | .noValue => "expected value"
  | .noWord => "expected ident"
  | .noKey => "key must be a string"
  | .noColon => "expected `:`"
  | .noItemEnd => "expected `,` or `]`"
  | .noMemberEnd => "expected `,` or `\x7d`"
  | .trailingComma => "trailing comma"
  | .trailingText => "trailing characters"
  | .badNumber => "invalid number"
  | .outOfRange => "number out of range"
  | .badEscape => "invalid escape"
  | .controlCharacter => "control character (\\u0000-\\u001F) found while parsing a string"
  | .halfPair => "unexpected end of hex escape"
  | .strayHalf => "lone leading surrogate in hex escape"
  | .tooDeep => "recursion limit exceeded"

/-- A defect and its place. -/
structure Flaw where
  defect : Defect
  /-- How many bytes of the text lie behind the place. -/
  left : Nat
deriving DecidableEq

/-- The number of bytes of a text. -/
def byteLength (text : List Char) : Nat := text.foldl (fun n c => n + c.utf8Size) 0

namespace Flaw

/-- A defect so many bytes into the rest of a text. -/
def within (defect : Defect) (bytes : Nat) (rest : List Char) : Flaw :=
  { defect, left := byteLength rest - bytes }

/-- A defect of the first character of the rest of a text, or another one if nothing is left. -/
def before (rest : List Char) (atEnd otherwise : Defect) : Flaw :=
  if rest.isEmpty then { defect := atEnd, left := 0 } else within otherwise 1 rest

/-- The line and the column that lie so many bytes behind a line and a column. -/
def advance (line column bytes : Nat) : List Char → Nat × Nat
  | [] => (line, column)
  | c :: rest =>
    if bytes < c.utf8Size then (line, column + bytes)
    else if c = '\n' then advance (line + 1) 0 (bytes - c.utf8Size) rest
    else advance line (column + c.utf8Size) (bytes - c.utf8Size) rest

/-- A flaw of a text in words. Lines are counted from one; the column is the number of bytes from
the start of the line to the place. -/
def message (f : Flaw) (text : String) : String :=
  let chars := text.toList
  let (line, column) := advance 1 0 (byteLength chars - f.left) chars
  s!"{f.defect.description} at line {line} column {column}"

end Flaw

end ObjectBackend.Json
