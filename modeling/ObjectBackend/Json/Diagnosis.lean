import ObjectBackend.Json.Reader

/-!
# The first flaw of a JSON text

`Json.flaw?` finds the first thing that is wrong with a text, with a place. It walks through the
text as the reader does, and it also minds what the reader lets pass as `Json.unreadable`. A text
without a flaw writes a document (`isSome_read?`), which `Json.readWhole` returns.
-/

namespace ObjectBackend.Json

namespace Reader

/-- What is wrong if the text ends here, and what if a token follows that cannot be used. -/
def defects : Reader → Defect × Defect
  | .expectValue _ => (.endInValue, .noValue)
  | .firstItem _ => (.endInArray, .noValue)
  | .firstKey _ => (.endInObject, .noKey)
  | .expectKey .. => (.endInValue, .noKey)
  | .expectColon .. => (.endInObject, .noColon)
  | .complete _ (.items _ :: _) => (.endInArray, .noItemEnd)
  | .complete _ (.members .. :: _) => (.endInObject, .noMemberEnd)
  | .complete _ [] => (.endInValue, .trailingText)

/-- The flaw of a text in which a token follows that cannot be used, or none at all. -/
def objection : Reader → List Char → Flaw
  | .expectValue (.items _ :: _), ']' :: rest => .within .trailingComma 1 (']' :: rest)
  | .expectKey .., '\x7d' :: rest => .within .trailingComma 1 ('\x7d' :: rest)
  | reader, text => .before text reader.defects.1 reader.defects.2

/-- The flaw of a text that ends here. -/
def flawAtEnd? : Reader → Option Flaw
  | .complete _ [] => none
  | reader => some (reader.objection [])

/-- Whether a text starts as what may come next does. Then a flaw inside of it is its own. -/
def admits : Reader → List Char → Bool
  | .expectValue _, _ => true
  | .firstItem _, _ => true
  | .firstKey _, '"' :: _ => true
  | .expectKey .., '"' :: _ => true
  | _, _ => false

end Reader

/-- The flaw of a token that can be skipped and not read. It starts a text and leaves a rest; the
reader has taken it and is in a new state. -/
def blemish? (token : Token) (text rest : List Char) (reader : Reader) : Option Flaw :=
  match token, reader with
  | .string (.error flaw), _ => some flaw
  | .number n, _ => if n.toBinary64?.isSome then none else some (.within .outOfRange 0 rest)
  | .openBracket, .firstItem frames | .openBrace, .firstKey frames =>
    if frames.length < maxDepth then none else some (.within .tooDeep 1 text)
  | _, _ => none

/-- The first flaw of the rest of a text, for a reader in some state; `fuel` bounds the number of
tokens. -/
def flawFrom? : Nat → Reader → List Char → Option Flaw
  | 0, reader, text => if text.all isBlank then reader.flawAtEnd? else some (reader.objection text)
  | fuel + 1, reader, text =>
    match text.dropWhile isBlank with
    | [] => reader.flawAtEnd?
    | text =>
      match Token.scan text with
      | .error flaw => some (if reader.admits text then flaw else reader.objection text)
      | .ok (token, rest) =>
        match reader.step token with
        | none => some (reader.objection text)
        | some next => (blemish? token text rest next).or (flawFrom? fuel next rest)

/-- The first flaw of a text. -/
def flaw? (text : String) : Option Flaw :=
  let chars := text.toList
  flawFrom? chars.length (.expectValue []) chars

/-- A reader that can stop here has read a document. -/
theorem eq_complete_of_flawAtEnd? {reader : Reader} (h : reader.flawAtEnd? = none) :
    ∃ value, reader = .complete value [] := by
  unfold Reader.flawAtEnd? at h
  split at h
  · exact ⟨_, rfl⟩
  · cases h

/-- If the rest of a text has no flaw, its tokens lead to a document. -/
theorem foldlM_step_of_flawFrom? {fuel : Nat} {reader : Reader} {text : List Char}
    (h : flawFrom? fuel reader text = none) : ∃ tokens, Token.scanAll fuel text = some tokens ∧
      ∃ value, tokens.foldlM Reader.step reader = some (.complete value []) := by
  induction fuel generalizing reader text with
  | zero =>
    unfold flawFrom? at h
    split at h
    case isTrue blank =>
      obtain ⟨value, rfl⟩ := eq_complete_of_flawAtEnd? h
      exact ⟨[], by simp [Token.scanAll, blank], value, rfl⟩
    case isFalse => cases h
  | succ fuel ih =>
    unfold flawFrom? at h
    unfold Token.scanAll
    generalize text.dropWhile isBlank = text at *
    cases text with
    | nil =>
      obtain ⟨value, rfl⟩ := eq_complete_of_flawAtEnd? h
      exact ⟨[], rfl, value, rfl⟩
    | cons c text =>
      dsimp only at h
      split at h
      case h_1 => cases h
      case h_2 token rest scanned =>
        split at h
        case h_1 => cases h
        case h_2 next stepped =>
          obtain ⟨_, later⟩ := Option.or_eq_none_iff.1 h
          obtain ⟨tokens, all, value, done⟩ := ih later
          refine ⟨token :: tokens, ?_, value, ?_⟩
          · simp [scanned, all, Except.toOption]
          · simp [List.foldlM_cons, stepped, done]

/-- A text without a flaw writes a document. -/
theorem isSome_read? {text : String} (h : flaw? text = none) : (read? text).isSome := by
  obtain ⟨tokens, all, value, done⟩ := foldlM_step_of_flawFrom? h
  simp [read?, ofTokens?, all, done]

/-- The document that a text writes, if nothing is wrong with it, or its first flaw. -/
def readWhole (text : String) : Except Flaw Json :=
  match h : flaw? text with
  | some flaw => .error flaw
  | none => .ok ((read? text).get (isSome_read? h))

end ObjectBackend.Json
