import ObjectBackend.Json.Library
import ObjectBackend.Proofs.Json.Reading
import ObjectBackend.Proofs.Json.Records

/-!
# How deeply documents nest

A document that has been read from a text nests no more deeply than documents may
(`depth_le_of_read?`). Each value that the reader holds leaves room for the containers around it: a
container that is closed in too many others is not kept.
-/

namespace ObjectBackend.Json

/-- What stands directly inside of a document nests less deeply. -/
lemma depth_le_of_mem_children {n : Nat} {document child : Json} (le : document.depth ≤ n + 1)
    (mem : child ∈ document.children) : child.depth ≤ n := by
  cases document with
  | array items =>
    rw [children] at mem
    exact depth_array_le.1 le child mem
  | object members =>
    obtain ⟨member, inside, rfl⟩ := List.mem_map.1 mem
    exact depth_object_le.1 le member inside
  | _ => cases mem

/-- A value that may stand inside so many containers. -/
def Fits (around : Nat) (value : Json) : Prop := value.depth ≤ maxDepth - around

/-- Each value of the open containers fits. -/
inductive FramesFit : List Frame → Prop
  | nil : FramesFit []
  | items {done : List Json} {frames : List Frame}
    (each : ∀ value ∈ done, value.Fits (frames.length + 1)) (others : FramesFit frames) :
    FramesFit (.items done :: frames)
  | members {done : List (Option String × Json)} {key : Option String} {frames : List Frame}
    (each : ∀ member ∈ done, member.2.Fits (frames.length + 1)) (others : FramesFit frames) :
    FramesFit (.members done key :: frames)

/-- Each value that a reader holds fits. -/
def Reader.Holds : Reader → Prop
  | .expectValue frames | .firstItem frames | .firstKey frames => FramesFit frames
  | .expectKey done frames | .expectColon done _ frames =>
    (∀ member ∈ done, member.2.Fits (frames.length + 1)) ∧ FramesFit frames
  | .complete value frames => value.Fits frames.length ∧ FramesFit frames

variable {around : Nat}

/-- A value that is no container fits anywhere. -/
lemma fits_of_depth_eq_zero {value : Json} (flat : value.depth = 0) : value.Fits around := by
  rw [Fits, flat]
  exact Nat.zero_le _

/-- An array fits where it is closed if its items fit one container deeper. -/
lemma fits_closeArray {done : List Json} (each : ∀ value ∈ done, value.Fits (around + 1)) :
    (closeArray around done).Fits around := by
  rw [closeArray]
  split
  case isTrue less =>
    have room : maxDepth - around = maxDepth - (around + 1) + 1 := by omega
    rw [Fits, room, depth_array_le]
    simpa [Fits] using each
  case isFalse => exact fits_of_depth_eq_zero rfl

/-- An object fits where it is closed if its members fit one container deeper. -/
lemma fits_closeObject {done : List (Option String × Json)}
    (each : ∀ member ∈ done, member.2.Fits (around + 1)) :
    (closeObject around done).Fits around := by
  rw [closeObject]
  split
  case h_1 members keyed =>
    split
    case isTrue less =>
      have room : maxDepth - around = maxDepth - (around + 1) + 1 := by omega
      rw [Fits, room, depth_object_le]
      intro member mem
      obtain ⟨entry, held, named⟩ := exists_of_mem_of_mapM_eq_some keyed mem
      obtain ⟨key, -, rfl⟩ := Option.map_eq_some_iff.1 named
      exact each entry (List.mem_reverse.1 held)
    case isFalse => exact fits_of_depth_eq_zero rfl
  case h_2 => exact fits_of_depth_eq_zero rfl

namespace Reader

variable {reader next : Reader} {frames : List Frame} {token : Token}

/-- A reader that takes the first token of a value keeps what it holds within bounds. -/
lemma holds_start (fit : FramesFit frames) (started : start frames token = some next) :
    next.Holds := by
  cases token with
  | openBracket | openBrace =>
    cases started
    exact fit
  | null | bool =>
    cases started
    exact ⟨fits_of_depth_eq_zero rfl, fit⟩
  | number n =>
    cases started
    refine ⟨fits_of_depth_eq_zero ?_, fit⟩
    rw [ofNumeral]
    split <;> rfl
  | string s =>
    cases started
    refine ⟨fits_of_depth_eq_zero ?_, fit⟩
    cases s <;> rfl
  | _ => cases started

/-- A reader that goes on after a value keeps what it holds within bounds. -/
lemma holds_resume {value : Json} (fits : value.Fits frames.length) (fit : FramesFit frames)
    (resumed : resume value frames token = some next) : next.Holds := by
  cases fit with
  | nil => cases resumed
  | items each others =>
    have each := List.forall_mem_cons.2 ⟨fits, each⟩
    cases token with
    | comma =>
      cases resumed
      exact .items each others
    | closeBracket =>
      cases resumed
      exact ⟨fits_closeArray each, others⟩
    | _ => cases resumed
  | @members done key _ each others =>
    have each : ∀ member ∈ (key, value) :: done, _ := List.forall_mem_cons.2 ⟨fits, each⟩
    cases token with
    | comma =>
      cases resumed
      exact ⟨each, others⟩
    | closeBrace =>
      cases resumed
      exact ⟨fits_closeObject each, others⟩
    | _ => cases resumed

/-- A step of the reader keeps what it holds within bounds. -/
lemma holds_step (holds : reader.Holds) (stepped : reader.step token = some next) :
    next.Holds := by
  cases reader with
  | expectValue frames => exact holds_start holds stepped
  | firstItem frames =>
    by_cases empty : token = .closeBracket
    · subst empty
      cases stepped
      exact ⟨fits_closeArray (List.forall_mem_nil _), holds⟩
    · rw [awaits_firstItem frames token empty] at stepped
      exact holds_start (.items (List.forall_mem_nil _) holds) stepped
  | firstKey frames =>
    cases token with
    | closeBrace =>
      cases stepped
      exact ⟨fits_closeObject (List.forall_mem_nil _), holds⟩
    | string key =>
      cases stepped
      exact ⟨List.forall_mem_nil _, holds⟩
    | _ => cases stepped
  | expectKey done frames =>
    cases token with
    | string key =>
      cases stepped
      exact holds
    | _ => cases stepped
  | expectColon done key frames =>
    cases token with
    | colon =>
      cases stepped
      exact .members holds.1 holds.2
    | _ => cases stepped
  | complete value frames => exact holds_resume holds.1 holds.2 stepped

/-- A run of the reader keeps what it holds within bounds. -/
lemma holds_foldlM {tokens : List Token} (holds : reader.Holds)
    (stepped : tokens.foldlM step reader = some next) : next.Holds := by
  induction tokens generalizing reader with
  | nil =>
    cases stepped
    exact holds
  | cons token tokens ih =>
    obtain ⟨middle, first, others⟩ := Option.bind_eq_some_iff.1 stepped
    exact ih (holds_step holds first) others

end Reader

/-- A document that is read from a text nests no more deeply than documents may. -/
theorem depth_le_of_read? {text : String} {document : Json} (given : read? text = some document) :
    document.depth ≤ maxDepth := by
  obtain ⟨tokens, -, spelled⟩ := Option.bind_eq_some_iff.1 given
  obtain ⟨reader, read, complete⟩ := Option.bind_eq_some_iff.1 spelled
  have start : (Reader.expectValue []).Holds := FramesFit.nil
  have holds := Reader.holds_foldlM start read
  cases reader with
  | complete value frames =>
    cases frames with
    | nil =>
      cases complete
      exact holds.1
    | cons => cases complete
  | _ => cases complete

/-- What is relied on of a library. What numbers are worth is told by documents and not by texts, so
a library only has to keep how they are written. -/
structure Library.Lawful (library : Library) : Prop where
  /-- A document that nests no more deeply than documents may is read back. -/
  reads_back : ∀ {document : Json}, document.IsWritable → document.depth ≤ maxDepth →
    library.read? (library.write document) = some document
  /-- Texts that nest more deeply are refused. -/
  depth_le : ∀ {text : String} {document : Json}, library.read? text = some document →
    document.depth ≤ maxDepth

/-- The writer over many lines and the strict reader make such a library. -/
theorem lawful_library : library.Lawful where
  reads_back := read?_pretty
  depth_le := depth_le_of_read?

end ObjectBackend.Json
