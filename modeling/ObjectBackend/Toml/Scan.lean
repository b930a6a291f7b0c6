import ObjectBackend.Text.Units

/-!
# Scanning TOML

The scanners of keys, strings and line ends. Each takes what it reads off the characters of a text
and gives the rest. Line breaks are single line feeds here; a carriage return that is not part of a
break is not allowed anywhere.
-/

namespace ObjectBackend.Toml

open Text

/-- The characters that separate the parts of a line. -/
def isBlank (c : Char) : Bool := c = ' ' || c = '\t'

/-- The characters that may stand in comments and strings: no control character but the tab. -/
def isPlain (c : Char) : Bool := c = '\t' || 0x20 ≤ c.toNat && c.toNat ≠ 0x7f

/-- The characters of keys that are not quoted. -/
def isBare (c : Char) : Bool := c.isAlphanum || c = '_' || c = '-'

/-- The characters without the blanks they start with. -/
def skipBlanks (text : List Char) : List Char := text.dropWhile isBlank

/-- Write every line break as a single line feed. -/
def joinBreaks : List Char → List Char
  | '\r' :: '\n' :: rest => '\n' :: joinBreaks rest
  | c :: rest => c :: joinBreaks rest
  | [] => []

/-- The character that a one-letter escape stands for. -/
def simpleEscape? : Char → Option Char
  | '"' => some '"'
  | '\\' => some '\\'
  | 'b' => some '\x08'
  | 'f' => some '\x0c'
  | 'n' => some '\n'
  | 'r' => some '\r'
  | 't' => some '\t'
  | _ => none

/-- The character with a hexadecimal number. -/
def numbered? (digits : List Char) : Option Char := (hexNumber? digits).bind scalar?

/-- Put a character in front of what has been read. -/
def push (c : Char) : List Char × List Char → List Char × List Char
  | (read, rest) => (c :: read, rest)

/-- The contents of a string in double quotes, after the opening one. -/
def scanBasic : List Char → Option (List Char × List Char)
  | [] => none
  | '"' :: rest => some ([], rest)
  | '\\' :: 'u' :: a :: b :: c :: d :: rest => do
    let char ← numbered? [a, b, c, d]
    (scanBasic rest).map (push char)
  | '\\' :: 'U' :: a :: b :: c :: d :: e :: f :: g :: h :: rest => do
    let char ← numbered? [a, b, c, d, e, f, g, h]
    (scanBasic rest).map (push char)
  | '\\' :: letter :: rest => do
    let char ← simpleEscape? letter
    (scanBasic rest).map (push char)
  | c :: rest => if c ≠ '\\' && isPlain c then (scanBasic rest).map (push c) else none

/-- The contents of a string in single quotes, after the opening one. -/
def scanLiteral : List Char → Option (List Char × List Char)
  | [] => none
  | '\'' :: rest => some ([], rest)
  | c :: rest => if isPlain c then (scanLiteral rest).map (push c) else none

/-- The end of a string in triple quotes: up to two more quotes belong to the contents. -/
def closeLong (quote : Char) : List Char → List Char × List Char
  | c :: d :: rest =>
    if c ≠ quote then ([], c :: d :: rest)
    else if d ≠ quote then ([c], d :: rest)
    else ([c, d], rest)
  | [c] => if c = quote then ([c], []) else ([], [c])
  | [] => ([], [])

/-- Whether a line breaks after blanks only. -/
def breaksLine (text : List Char) : Bool := (skipBlanks text).head? = some '\n'

/-- The contents of a string in triple double quotes, after the opening ones. A backslash at the end
of a line takes all blanks and breaks after it away; the flag says that these are being skipped. -/
def scanLongBasic : Bool → List Char → Option (List Char × List Char)
  | _, [] => none
  | skipping, c :: rest =>
    if skipping && (isBlank c || c = '\n') then scanLongBasic true rest
    else if c = '"' then
      match rest with
      | '"' :: '"' :: rest => some (closeLong '"' rest)
      | rest => (scanLongBasic false rest).map (push '"')
    else if c = '\\' then
      if breaksLine rest then scanLongBasic true rest
      else
        match rest with
        | 'u' :: a :: b :: c :: d :: rest => do
          let char ← numbered? [a, b, c, d]
          (scanLongBasic false rest).map (push char)
        | 'U' :: a :: b :: c :: d :: e :: f :: g :: h :: rest => do
          let char ← numbered? [a, b, c, d, e, f, g, h]
          (scanLongBasic false rest).map (push char)
        | letter :: rest => do
          let char ← simpleEscape? letter
          (scanLongBasic false rest).map (push char)
        | [] => none
    else if c = '\n' || isPlain c then (scanLongBasic false rest).map (push c)
    else none

/-- The contents of a string in triple single quotes, after the opening ones. -/
def scanLongLiteral : List Char → Option (List Char × List Char)
  | [] => none
  | '\'' :: '\'' :: '\'' :: rest => some (closeLong '\'' rest)
  | c :: rest => if c = '\n' || isPlain c then (scanLongLiteral rest).map (push c) else none

/-- The characters without the line break they start with. -/
def skipBreak : List Char → List Char
  | '\n' :: rest => rest
  | text => text

/-- A string in any of the four kinds of quotes. -/
def scanString : List Char → Option (List Char × List Char)
  | '"' :: '"' :: '"' :: rest => scanLongBasic false (skipBreak rest)
  | '"' :: rest => scanBasic rest
  | '\'' :: '\'' :: '\'' :: rest => scanLongLiteral (skipBreak rest)
  | '\'' :: rest => scanLiteral rest
  | _ => none

/-- A key, with or without quotes. -/
def scanKey : List Char → Option (List Char × List Char)
  | '"' :: rest => scanBasic rest
  | '\'' :: rest => scanLiteral rest
  | text =>
    if (text.takeWhile isBare).isEmpty then none
    else some (text.takeWhile isBare, text.dropWhile isBare)

/-- The rest of a text after a word it starts with. -/
def scanWord : List Char → List Char → Option (List Char)
  | [], rest => some rest
  | c :: word, d :: rest => if c = d then scanWord word rest else none
  | _ :: _, [] => none

/-- The end of a line: blanks and a comment, and the break unless the text ends. -/
def scanLineEnd (text : List Char) : Option (List Char) :=
  let rest :=
    match skipBlanks text with
    | '#' :: comment => comment.dropWhile isPlain
    | rest => rest
  match rest with
  | [] => some []
  | '\n' :: rest => some rest
  | _ => none

end ObjectBackend.Toml
