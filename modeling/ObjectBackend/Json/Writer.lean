import ObjectBackend.Json.Value
import ObjectBackend.Text.Units

/-!
# Writing JSON

Documents as text, either on one line or over many lines with an indentation of two spaces. Inside
quotes the control characters are escaped, the common ones by a letter, and nothing else but the
quote and the backslash is. An exponent always has its sign.
-/

namespace ObjectBackend.Json

open Text

/-- One character as it stands inside quotes. -/
def escapeChar (c : Char) : List Char :=
  match c with
  | '"' => ['\\', '"']
  | '\\' => ['\\', '\\']
  | '\n' => ['\\', 'n']
  | '\t' => ['\\', 't']
  | '\r' => ['\\', 'r']
  | '\x08' => ['\\', 'b']
  | '\x0c' => ['\\', 'f']
  | c => if c.toNat < 0x20 then ['\\', 'u'] ++ fixedHex 4 c.toNat else [c]

/-- A string between quotes. -/
def quoted (text : String) : String :=
  "\"" ++ String.ofList (text.toList.flatMap escapeChar) ++ "\""

/-- A line break followed by `depth` levels of indentation. -/
def lineBreak (depth : Nat) : String :=
  "\n" ++ String.ofList (List.replicate (2 * depth) ' ')

mutual

/-- A document over many lines, its first line standing at `depth` levels of indentation. -/
def pretty (depth : Nat) : Json → String
  | .null | .unreadable => "null"
  | .bool true => "true"
  | .bool false => "false"
  | .number n => n.text .written
  | .string s => quoted s
  | .array [] => "[]"
  | .array (item :: items) =>
    "[" ++ lineBreak (depth + 1) ++ pretty (depth + 1) item ++ prettyItems (depth + 1) items
      ++ lineBreak depth ++ "]"
  | .object [] => "\x7b\x7d"
  | .object ((key, value) :: members) =>
    "\x7b" ++ lineBreak (depth + 1) ++ quoted key ++ ": " ++ pretty (depth + 1) value
      ++ prettyMembers (depth + 1) members ++ lineBreak depth ++ "\x7d"

/-- The further items of an array, each after a comma and a line break. -/
def prettyItems (depth : Nat) : List Json → String
  | [] => ""
  | item :: items => "," ++ lineBreak depth ++ pretty depth item ++ prettyItems depth items

/-- The further members of an object, each after a comma and a line break. -/
def prettyMembers (depth : Nat) : List (String × Json) → String
  | [] => ""
  | (key, value) :: members =>
    "," ++ lineBreak depth ++ quoted key ++ ": " ++ pretty depth value
      ++ prettyMembers depth members

end

mutual

/-- A document on one line. -/
def compact : Json → String
  | .null | .unreadable => "null"
  | .bool true => "true"
  | .bool false => "false"
  | .number n => n.text .written
  | .string s => quoted s
  | .array [] => "[]"
  | .array (item :: items) => "[" ++ compact item ++ compactItems items ++ "]"
  | .object [] => "\x7b\x7d"
  | .object ((key, value) :: members) =>
    "\x7b" ++ quoted key ++ ":" ++ compact value ++ compactMembers members ++ "\x7d"

/-- The further items of an array, each after a comma. -/
def compactItems : List Json → String
  | [] => ""
  | item :: items => "," ++ compact item ++ compactItems items

/-- The further members of an object, each after a comma. -/
def compactMembers : List (String × Json) → String
  | [] => ""
  | (key, value) :: members =>
    "," ++ quoted key ++ ":" ++ compact value ++ compactMembers members

end

end ObjectBackend.Json
