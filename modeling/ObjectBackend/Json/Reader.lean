import ObjectBackend.Json.Flaw
import ObjectBackend.Json.Value
import ObjectBackend.Text.Units

/-!
# Reading JSON

A text is first cut into tokens and the tokens are then read one by one. `Token.scan` takes one
token off a text and always leaves a shorter one; `Reader.step` reads a token in a state that holds
the containers part way through as a list of frames, so no recursion is needed and the nesting depth
is the length of that list. Strings admit no raw control characters and no unknown escapes; nothing
may follow the value. What is written correctly but cannot be read becomes `Json.unreadable`: an
unpaired surrogate, a number out of range and a container more than `maxDepth` deep. A text that
writes no document is refused; the scanners tell the flaw that stops them.
-/

namespace ObjectBackend.Json

open Floating Text

/-- How deep containers may nest to be read. -/
def maxDepth : Nat := 127

/-- The blank characters between tokens. -/
def isBlank (c : Char) : Bool := c == ' ' || c == '\t' || c == '\n' || c == '\r'

/-- A lexical unit of a document. -/
inductive Token where
  | openBracket
  | closeBracket
  | openBrace
  | closeBrace
  | comma
  | colon
  | null
  | bool (value : Bool)
  | number (value : Numeral)
  /-- A string; a flaw if its escapes spell no text. -/
  | string (value : Except Flaw String)

/-- The character a one-letter escape stands for. -/
def simpleEscape? : Char → Option Char
  | '"' => some '"'
  | '\\' => some '\\'
  | '/' => some '/'
  | 'b' => some '\x08'
  | 'f' => some '\x0c'
  | 'n' => some '\n'
  | 'r' => some '\r'
  | 't' => some '\t'
  | _ => none

/-- The character of a surrogate pair. -/
def surrogatePair? (high low : Nat) : Option Char :=
  if 0xD800 ≤ high ∧ high < 0xDC00 ∧ 0xDC00 ≤ low ∧ low < 0xE000 then
    scalar? (0x10000 + (high - 0xD800) * 0x400 + (low - 0xDC00))
  else none

/-- A part of a string as it is written: a character, or a code unit given by its number, and what
follows that. -/
inductive Piece where
  | char (c : Char)
  | unit (value : Nat) (rest : List Char)

/-- Put a piece in front of what has been scanned. -/
def push (piece : Piece) :
    List Piece × Except Flaw (List Char) → List Piece × Except Flaw (List Char)
  | (pieces, rest) => (piece :: pieces, rest)

/-- The flaw of an escape whose four hexadecimal digits are not all there. -/
def badUnit (digits : List Char) : Flaw :=
  if byteLength digits < 4 then { defect := .endInString, left := 0 }
  else .within .badEscape 4 digits

/-- The pieces of a string up to its closing quote or its first flaw, and what follows the quote. -/
def scanString : List Char → List Piece × Except Flaw (List Char)
  | '"' :: rest => ([], .ok rest)
  | '\\' :: 'u' :: a :: b :: c :: d :: rest =>
    match hexNumber? [a, b, c, d] with
    | some unit => push (.unit unit rest) (scanString rest)
    | none => ([], .error (badUnit (a :: b :: c :: d :: rest)))
  | '\\' :: 'u' :: rest => ([], .error (badUnit rest))
  | '\\' :: letter :: rest =>
    match simpleEscape? letter with
    | some c => push (.char c) (scanString rest)
    | none => ([], .error (.within .badEscape 1 (letter :: rest)))
  | char :: rest =>
    if char = '\\' then ([], .error { defect := .endInString, left := 0 })
    else if char.toNat < 0x20 then ([], .error (.within .controlCharacter 1 (char :: rest)))
    else push (.char char) (scanString rest)
  | [] => ([], .error { defect := .endInString, left := 0 })

/-- The flaw of the first half of a surrogate pair, by what follows it instead of a unit. -/
def brokenPair : List Char → Flaw
  | '\\' :: 'u' :: digits => badUnit digits
  | '\\' :: rest => .before rest .endInString .halfPair
  | rest => .before rest .endInString .halfPair

/-- The characters that pieces spell. A surrogate must be one of a pair of adjacent units. -/
def spell : List Piece → Except Flaw (List Char)
  | [] => .ok []
  | .char c :: rest => (c :: ·) <$> spell rest
  | .unit unit after :: rest =>
    match scalar? unit with
    | some c => (c :: ·) <$> spell rest
    | none =>
      if 0xDC00 ≤ unit then .error (.within .strayHalf 0 after)
      else
        match rest with
        | .unit low after :: rest =>
          match surrogatePair? unit low with
          | some c => (c :: ·) <$> spell rest
          | none => .error (.within .strayHalf 0 after)
        | _ => .error (brokenPair after)

/-- The string token whose pieces and rest have been scanned. Of two flaws the first one counts. -/
def ofPieces : List Piece × Except Flaw (List Char) → Except Flaw (Token × List Char)
  | (pieces, .ok rest) => .ok (.string (String.ofList <$> spell pieces), rest)
  | (pieces, .error flaw) => do
    let _ ← spell pieces
    .error flaw

/-- The digits a text starts with, at least one. -/
def scanDigits (text : List Char) : Except Flaw (List Char × List Char) :=
  let digits := text.takeWhile Char.isDigit
  if digits.isEmpty then .error (.before text .endInValue .badNumber)
  else .ok (digits, text.dropWhile Char.isDigit)

/-- The whole part of a numeral: zero, or digits that do not start with zero. -/
def scanWhole (text : List Char) : Except Flaw (List Char × List Char) := do
  let (digits, rest) ← scanDigits text
  match digits with
  | '0' :: _ :: _ => .error (.within .badNumber 1 (text.drop 1))
  | _ => .ok (digits, rest)

/-- The fraction of a numeral, if a point follows. -/
def scanFraction : List Char → Except Flaw (List Char × List Char)
  | '.' :: rest => scanDigits rest
  | text => .ok ([], text)

/-- The exponent of a numeral, if its mark follows. -/
def scanExponent : List Char → Except Flaw (Option Int × List Char)
  | [] => .ok (none, [])
  | mark :: rest =>
    if mark = 'e' ∨ mark = 'E' then
      match rest with
      | '-' :: rest => do
        let (digits, rest) ← scanDigits rest
        .ok (some (-(digitsValue digits : Int)), rest)
      | '+' :: rest => do
        let (digits, rest) ← scanDigits rest
        .ok (some (digitsValue digits : Int), rest)
      | rest => do
        let (digits, rest) ← scanDigits rest
        .ok (some (digitsValue digits : Int), rest)
    else .ok (none, mark :: rest)

/-- A numeral without its sign. -/
def scanUnsigned (negative : Bool) (text : List Char) : Except Flaw (Token × List Char) := do
  let (whole, rest) ← scanWhole text
  let (fraction, rest) ← scanFraction rest
  let (exponent, rest) ← scanExponent rest
  .ok (.number { negative, whole, fraction, exponent }, rest)

/-- The rest of a text after a word it starts with. -/
def scanWord : List Char → List Char → Except Flaw (List Char)
  | [], rest => .ok rest
  | c :: word, rest =>
    if rest.head? = some c then scanWord word rest.tail
    else .error (.before rest .endInValue .noWord)

/-- The token a text starts with. -/
def Token.scan : List Char → Except Flaw (Token × List Char)
  | '[' :: rest => .ok (.openBracket, rest)
  | ']' :: rest => .ok (.closeBracket, rest)
  | '\x7b' :: rest => .ok (.openBrace, rest)
  | '\x7d' :: rest => .ok (.closeBrace, rest)
  | ',' :: rest => .ok (.comma, rest)
  | ':' :: rest => .ok (.colon, rest)
  | '"' :: rest => ofPieces (scanString rest)
  | 'n' :: rest => (.null, ·) <$> scanWord ['u', 'l', 'l'] rest
  | 't' :: rest => (.bool true, ·) <$> scanWord ['r', 'u', 'e'] rest
  | 'f' :: rest => (.bool false, ·) <$> scanWord ['a', 'l', 's', 'e'] rest
  | '-' :: rest => scanUnsigned true rest
  | text =>
    if text.head?.any Char.isDigit then scanUnsigned false text
    else .error (.before text .endInValue .noValue)

/-- The tokens of a text; `fuel` bounds their number, and no token is empty. -/
def Token.scanAll : Nat → List Char → Option (List Token)
  | 0, text => if text.all isBlank then some [] else none
  | fuel + 1, text =>
    match text.dropWhile isBlank with
    | [] => some []
    | text => do
      let (token, rest) ← (Token.scan text).toOption
      let tokens ← Token.scanAll fuel rest
      some (token :: tokens)

/-- A container part way through: what has been read, latest first, and the key in progress. -/
inductive Frame where
  | items (done : List Json)
  | members (done : List (Option String × Json)) (key : Option String)

/-- What a reader may meet next, and the containers around it. -/
inductive Reader where
  /-- A value must start. -/
  | expectValue (frames : List Frame)
  /-- An array has just been opened. -/
  | firstItem (frames : List Frame)
  /-- An object has just been opened. -/
  | firstKey (frames : List Frame)
  /-- A further member must start. -/
  | expectKey (done : List (Option String × Json)) (frames : List Frame)
  /-- The colon after a key must come. -/
  | expectColon (done : List (Option String × Json)) (key : Option String) (frames : List Frame)
  /-- A value has just been completed. -/
  | complete (value : Json) (frames : List Frame)

/-- The number a numeral writes. -/
def ofNumeral (n : Numeral) : Json := if n.toBinary64?.isSome then .number n else .unreadable

/-- The value of a string. -/
def ofString : Except Flaw String → Json
  | .ok text => .string text
  | .error _ => .unreadable

/-- The array that is closed inside so many containers, its items given latest first. -/
def closeArray (depth : Nat) (done : List Json) : Json :=
  if depth < maxDepth then .array done.reverse else .unreadable

/-- The object that is closed inside so many containers, its members given latest first. -/
def closeObject (depth : Nat) (done : List (Option String × Json)) : Json :=
  match done.reverse.mapM fun (key, value) => key.map (·, value) with
  | some members => if depth < maxDepth then .object members else .unreadable
  | none => .unreadable

namespace Reader

/-- Start a value with a token. -/
def start (frames : List Frame) : Token → Option Reader
  | .openBracket => some (.firstItem frames)
  | .openBrace => some (.firstKey frames)
  | .null => some (.complete .null frames)
  | .bool b => some (.complete (.bool b) frames)
  | .number n => some (.complete (ofNumeral n) frames)
  | .string s => some (.complete (ofString s) frames)
  | _ => none

/-- Give a completed value to the innermost container, and read the token after it. -/
def resume (value : Json) : List Frame → Token → Option Reader
  | .items done :: frames, .comma => some (.expectValue (.items (value :: done) :: frames))
  | .items done :: frames, .closeBracket =>
    some (.complete (closeArray frames.length (value :: done)) frames)
  | .members done key :: frames, .comma => some (.expectKey ((key, value) :: done) frames)
  | .members done key :: frames, .closeBrace =>
    some (.complete (closeObject frames.length ((key, value) :: done)) frames)
  | _, _ => none

/-- Read one token. -/
def step : Reader → Token → Option Reader
  | .expectValue frames, token => start frames token
  | .firstItem frames, .closeBracket => some (.complete (closeArray frames.length []) frames)
  | .firstItem frames, token => start (.items [] :: frames) token
  | .firstKey frames, .closeBrace => some (.complete (closeObject frames.length []) frames)
  | .firstKey frames, .string key => some (.expectColon [] key.toOption frames)
  | .expectKey done frames, .string key => some (.expectColon done key.toOption frames)
  | .expectColon done key frames, .colon => some (.expectValue (.members done key :: frames))
  | .complete value frames, token => resume value frames token
  | _, _ => none

end Reader

/-- The document that tokens spell. -/
def ofTokens? (tokens : List Token) : Option Json := do
  match ← tokens.foldlM Reader.step (.expectValue []) with
  | .complete value [] => some value
  | _ => none

/-- The document that a text writes. -/
def read? (text : String) : Option Json :=
  let chars := text.toList
  (Token.scanAll chars.length chars).bind ofTokens?

end ObjectBackend.Json
