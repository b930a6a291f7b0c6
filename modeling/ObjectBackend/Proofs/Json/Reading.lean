import ObjectBackend.Proofs.Json.Scanning

/-!
# Reading what has been written

A document that is written over many lines is read back as the same document (`read?_pretty`), if
its numbers are plain and in range and it does not nest more deeply than documents may. The reader
is followed through the text: it takes a value where it awaits one, whatever containers it is in,
and has it complete before what follows.
-/

namespace ObjectBackend.Json

open Floating

mutual

/-- How many containers there are around the innermost part of a document, itself included. -/
def depth : Json → Nat
  | .array items => depthOfItems items + 1
  | .object members => depthOfMembers members + 1
  | _ => 0

/-- The greatest depth of items. -/
def depthOfItems : List Json → Nat
  | [] => 0
  | item :: items => max item.depth (depthOfItems items)

/-- The greatest depth of the values of members. -/
def depthOfMembers : List (String × Json) → Nat
  | [] => 0
  | (_, value) :: members => max value.depth (depthOfMembers members)

end

section Depth

variable {n : Nat} {items : List Json} {members : List (String × Json)}

/-- Items nest no more deeply than a bound just if each item does not. -/
lemma depthOfItems_le : depthOfItems items ≤ n ↔ ∀ item ∈ items, item.depth ≤ n := by
  induction items with
  | nil => simp [depthOfItems]
  | cons item items ih => rw [depthOfItems, max_le_iff, ih, List.forall_mem_cons]

/-- Members nest no more deeply than a bound just if each value does not. -/
lemma depthOfMembers_le : depthOfMembers members ≤ n ↔ ∀ member ∈ members, member.2.depth ≤ n := by
  induction members with
  | nil => simp [depthOfMembers]
  | cons member members ih => rw [depthOfMembers, max_le_iff, ih, List.forall_mem_cons]

/-- An array is one container more around its items. -/
@[simp] lemma depth_array (items : List Json) : (array items).depth = depthOfItems items + 1 := by
  rw [depth]

/-- An object is one container more around its members. -/
@[simp] lemma depth_object (members : List (String × Json)) :
    (object members).depth = depthOfMembers members + 1 := by
  rw [depth]

/-- The bound on an array is a bound on its items that is smaller by one. -/
lemma depth_array_le : (array items).depth ≤ n + 1 ↔ ∀ item ∈ items, item.depth ≤ n := by
  rw [depth_array, Nat.add_le_add_iff_right, depthOfItems_le]

/-- The bound on an object is a bound on its members that is smaller by one. -/
lemma depth_object_le :
    (object members).depth ≤ n + 1 ↔ ∀ member ∈ members, member.2.depth ≤ n := by
  rw [depth_object, Nat.add_le_add_iff_right, depthOfMembers_le]

/-- The items of an array nest less deeply than the array. -/
lemma depth_lt_array {item : Json} (mem : item ∈ items) : item.depth < (array items).depth := by
  rw [depth_array]
  exact Nat.lt_succ_of_le (depthOfItems_le.1 le_rfl item mem)

/-- The members of an object nest less deeply than the object. -/
lemma depth_lt_object {member : String × Json} (mem : member ∈ members) :
    member.2.depth < (object members).depth := by
  rw [depth_object]
  exact Nat.lt_succ_of_le (depthOfMembers_le.1 le_rfl member mem)

end Depth

/-- A document is writable if all its parts can be read and its numbers are plain and in range. -/
inductive IsWritable : Json → Prop
  | null : IsWritable .null
  | bool (value : Bool) : IsWritable (.bool value)
  | number {n : Numeral} (plain : n.IsPlain) (inRange : n.toBinary64?.isSome = true) :
    IsWritable (.number n)
  | string (text : String) : IsWritable (.string text)
  | array {items : List Json} (each : ∀ item ∈ items, IsWritable item) : IsWritable (.array items)
  | object {members : List (String × Json)} (each : ∀ member ∈ members, IsWritable member.2) :
    IsWritable (.object members)

/-- A reader that goes on with a text reads a document. -/
def Reads (reader : Reader) (text : List Char) (document : Json) : Prop :=
  ∀ fuel, text.length ≤ fuel → ∃ tokens, Token.scanAll fuel text = some tokens ∧
    tokens.foldlM Reader.step reader = some (.complete document [])

/-- A reader takes the next value as one inside of these containers. -/
def Reader.Awaits (frames : List Frame) (reader : Reader) : Prop :=
  ∀ token, token ≠ .closeBracket → reader.step token = Reader.start frames token

/-- A reader that expects a value awaits it. -/
lemma Reader.awaits_expectValue (frames : List Frame) :
    Reader.Awaits frames (.expectValue frames) := fun _ _ => rfl

/-- A reader that has just opened an array awaits the first item. -/
lemma Reader.awaits_firstItem (frames : List Frame) :
    Reader.Awaits (.items [] :: frames) (.firstItem frames) := by
  intro token other
  cases token with
  | closeBracket => exact absurd rfl other
  | _ => rfl

namespace Reads

variable {reader next : Reader} {text rest : List Char} {token : Token} {document : Json}

/-- A complete document has been read at the end of the text. -/
lemma finish : Reads (.complete document []) [] document := fun fuel _ =>
  ⟨[], by cases fuel <;> rfl, rfl⟩

/-- A text that the reader is followed through is read as the document. -/
lemma read?_eq {text : String} (reads : Reads (.expectValue []) text.toList document) :
    read? text = some document := by
  obtain ⟨tokens, scanned, read⟩ := reads _ le_rfl
  rw [read?, scanned, Option.bind_some, ofTokens?, read]
  rfl

/-- A blank character changes nothing for the reader. -/
lemma blank {c : Char} (isBlank : isBlank c = true) (reads : Reads reader text document) :
    Reads reader (c :: text) document := by
  intro fuel enough
  cases fuel with
  | zero => cases enough
  | succ fuel =>
    obtain ⟨tokens, scanned, read⟩ := reads (fuel + 1) (Nat.le_of_succ_le enough)
    refine ⟨tokens, ?_, read⟩
    rw [Token.scanAll] at scanned ⊢
    rw [List.dropWhile_cons_of_pos isBlank]
    exact scanned

/-- Blank characters change nothing for the reader. -/
lemma blanks {front : List Char} (areBlank : ∀ c ∈ front, isBlank c = true)
    (reads : Reads reader text document) : Reads reader (front ++ text) document := by
  induction front with
  | nil => exact reads
  | cons c front ih =>
    obtain ⟨first, others⟩ := List.forall_mem_cons.1 areBlank
    exact (ih others).blank first

/-- A line break with its indentation changes nothing for the reader. -/
lemma lineBreak {depth : Nat} (reads : Reads reader text document) :
    Reads reader ((Json.lineBreak depth).toList ++ text) document := by
  have chars : (Json.lineBreak depth).toList = '\n' :: List.replicate (2 * depth) ' ' := by
    simp [Json.lineBreak]
  rw [chars]
  refine reads.blanks (List.forall_mem_cons.2 ⟨rfl, fun c mem => ?_⟩)
  rw [List.eq_of_mem_replicate mem]
  rfl

/-- No token starts with a blank. -/
lemma isBlank_eq_false {c : Char} (scanned : Token.scan (c :: text) = .ok (token, rest)) :
    isBlank c = false := by
  refine Bool.eq_false_iff.2 fun blank => ?_
  simp only [isBlank, Bool.or_eq_true, beq_iff_eq] at blank
  rcases blank with ((rfl | rfl) | rfl) | rfl <;> cases scanned

/-- The reader takes the token that the text starts with. -/
lemma step {front : List Char} (scanned : Token.scan (front ++ rest) = .ok (token, rest))
    (nonempty : front ≠ []) (stepped : reader.step token = some next)
    (reads : Reads next rest document) : Reads reader (front ++ rest) document := by
  intro fuel enough
  obtain ⟨c, front, rfl⟩ := List.exists_cons_of_ne_nil nonempty
  rw [List.cons_append] at scanned enough ⊢
  cases fuel with
  | zero => cases enough
  | succ fuel =>
    have enough : rest.length ≤ fuel := by
      simp only [List.length_cons, List.length_append] at enough
      omega
    obtain ⟨tokens, all, read⟩ := reads fuel enough
    refine ⟨token :: tokens, ?_, ?_⟩
    · rw [Token.scanAll, List.dropWhile_cons_of_neg (by simp [isBlank_eq_false scanned])]
      simp [scanned, all, Except.toOption]
    · rw [List.foldlM_cons, stepped]
      exact read

/-- The reader takes the mark that the text starts with. -/
lemma mark {c : Char} (scanned : ∀ rest, Token.scan (c :: rest) = .ok (token, rest))
    (stepped : reader.step token = some next) (reads : Reads next rest document) :
    Reads reader (c :: rest) document := by
  change Reads reader ([c] ++ rest) document
  exact .step (scanned rest) (List.cons_ne_nil _ _) stepped reads

end Reads

section Text

variable {frames : List Frame} {reader : Reader} {value : Json} {rest : List Char} {document : Json}

/-- A value may end before a line break. -/
lemma endsValue_lineBreak (depth : Nat) : EndsValue ((lineBreak depth).toList ++ rest) := by
  have chars : (lineBreak depth).toList = '\n' :: List.replicate (2 * depth) ' ' := by
    simp [lineBreak]
  rw [chars]
  exact endsValue_cons (.inr rfl)

/-- A value may end before more items or the end of the array. -/
lemma endsValue_prettyItems (depth : Nat) (items : List Json) (ends : EndsValue rest) :
    EndsValue ((prettyItems depth items).toList ++ rest) := by
  cases items with
  | nil => simpa [prettyItems] using ends
  | cons item items =>
    simp only [prettyItems, String.toList_append, List.append_assoc]
    exact endsValue_cons (.inl rfl)

/-- A value may end before more members or the end of the object. -/
lemma endsValue_prettyMembers (depth : Nat) (members : List (String × Json))
    (ends : EndsValue rest) : EndsValue ((prettyMembers depth members).toList ++ rest) := by
  cases members with
  | nil => simpa [prettyMembers] using ends
  | cons member members =>
    simp only [prettyMembers, String.toList_append, List.append_assoc]
    exact endsValue_cons (.inl rfl)

/-- What is written of a value is read as the value, wherever it is awaited. -/
def ReadsBack (value : Json) : Prop :=
  ∀ {depth frames reader rest document}, Reader.Awaits frames reader →
    value.depth + frames.length ≤ maxDepth → EndsValue rest →
    Reads (.complete value frames) rest document →
      Reads reader ((value.pretty depth).toList ++ rest) document

/-- The further items of an array are read up to the bracket. -/
lemma reads_prettyItems {depth : Nat} {done items : List Json}
    (each : ∀ item ∈ items, ReadsBack item)
    (fits : ∀ item ∈ items, item.depth + (frames.length + 1) ≤ maxDepth)
    (room : frames.length < maxDepth)
    (reads : Reads (.complete (.array (done.reverse ++ value :: items)) frames) rest document) :
    Reads (.complete value (.items done :: frames))
      ((prettyItems (depth + 1) items).toList ++ ((lineBreak depth).toList ++ ']' :: rest))
      document := by
  induction items generalizing value done with
  | nil =>
    rw [prettyItems, String.toList_empty, List.nil_append]
    refine .lineBreak (.mark (fun _ => rfl) rfl ?_)
    rw [closeArray, if_pos room, List.reverse_cons]
    exact reads
  | cons item items ih =>
    obtain ⟨first, others⟩ := List.forall_mem_cons.1 each
    obtain ⟨firstFits, othersFit⟩ := List.forall_mem_cons.1 fits
    simp only [prettyItems, String.toList_append, List.append_assoc]
    refine .mark (fun _ => rfl) rfl (.lineBreak (first (Reader.awaits_expectValue _) firstFits
      (endsValue_prettyItems _ _ (endsValue_lineBreak _)) (ih others othersFit ?_)))
    rw [List.reverse_cons, List.append_assoc]
    exact reads

/-- Members of which all keys are known. -/
def Keyed (done : List (Option String × Json)) (members : List (String × Json)) : Prop :=
  done.reverse = members.map fun member => (some member.1, member.2)

/-- A member that is kept with its key is one more member of the object. -/
lemma keyed_cons {done : List (Option String × Json)} {members : List (String × Json)}
    {key : String} (keyed : Keyed done members) :
    Keyed ((some key, value) :: done) (members ++ [(key, value)]) := by
  rw [Keyed, List.reverse_cons, keyed, List.map_append]
  rfl

/-- The members that are kept with their keys make the object, where there is room. -/
lemma closeObject_eq {depth : Nat} {done : List (Option String × Json)}
    {members : List (String × Json)} (room : depth < maxDepth) (keyed : Keyed done members) :
    closeObject depth done = .object members := by
  have each : members.mapM (fun member => some member) = some members :=
    List.mapM_pure.trans (congrArg some (List.map_id' members))
  rw [closeObject, keyed, List.mapM_map]
  simp only [Function.comp_def, Option.map_some, each, if_pos room]

/-- The further members of an object are read up to the brace. -/
lemma reads_prettyMembers {depth : Nat} {key : String} {done : List (Option String × Json)}
    {before members : List (String × Json)}
    (each : ∀ member ∈ members, ReadsBack member.2)
    (fits : ∀ member ∈ members, member.2.depth + (frames.length + 1) ≤ maxDepth)
    (room : frames.length < maxDepth)
    (keyed : Keyed done before)
    (reads : Reads (.complete (.object (before ++ (key, value) :: members)) frames) rest document) :
    Reads (.complete value (.members done (some key) :: frames))
      ((prettyMembers (depth + 1) members).toList ++ ((lineBreak depth).toList ++ '\x7d' :: rest))
      document := by
  induction members generalizing value key done before with
  | nil =>
    rw [prettyMembers, String.toList_empty, List.nil_append]
    refine .lineBreak (.mark (fun _ => rfl) rfl ?_)
    rw [closeObject_eq room (keyed_cons keyed)]
    exact reads
  | cons member members ih =>
    obtain ⟨first, others⟩ := List.forall_mem_cons.1 each
    obtain ⟨firstFits, othersFit⟩ := List.forall_mem_cons.1 fits
    obtain ⟨nextKey, next⟩ := member
    simp only [prettyMembers, String.toList_append, List.append_assoc]
    exact .mark (fun _ => rfl) rfl (.lineBreak (.step (scan_quoted nextKey _)
      (quoted_ne_nil nextKey) rfl (.mark (fun _ => rfl) rfl (.blank rfl
        (first (Reader.awaits_expectValue _) firstFits
          (endsValue_prettyMembers _ _ (endsValue_lineBreak _))
          (ih others othersFit (keyed_cons keyed) (by simpa using reads)))))))

/-- A writable document is read back, wherever it is awaited. -/
lemma IsWritable.readsBack (writable : value.IsWritable) : ReadsBack value := by
  induction writable with
  | null =>
    intro depth frames reader rest document awaits _ _ reads
    rw [pretty]
    exact .step rfl (by simp) (awaits .null nofun) reads
  | bool b =>
    intro depth frames reader rest document awaits _ _ reads
    cases b with
    | false =>
      rw [pretty]
      exact .step rfl (by simp) (awaits (.bool false) nofun) reads
    | true =>
      rw [pretty]
      exact .step rfl (by simp) (awaits (.bool true) nofun) reads
  | number plain inRange =>
    intro depth frames reader rest document awaits _ ends reads
    rw [pretty]
    refine .step (scan_numeral plain ends) (text_ne_nil plain) (awaits (.number _) nofun) ?_
    rw [ofNumeral, if_pos inRange]
    exact reads
  | string text =>
    intro depth frames reader rest document awaits _ _ reads
    rw [pretty]
    exact .step (scan_quoted text rest) (quoted_ne_nil text) (awaits (.string _) nofun) reads
  | @array items each ih =>
    intro depth frames reader rest document awaits fits _ reads
    have room : frames.length < maxDepth := by
      rw [Json.depth] at fits
      omega
    cases items with
    | nil =>
      rw [pretty]
      refine .mark (fun _ => rfl) (awaits .openBracket nofun) (.mark (fun _ => rfl) rfl ?_)
      rw [closeArray, if_pos room]
      exact reads
    | cons item items =>
      -- the items are read one frame deeper than the array
      obtain ⟨first, others⟩ := List.forall_mem_cons.1 ih
      have inside : ∀ x ∈ item :: items, x.depth + (frames.length + 1) ≤ maxDepth := by
        intro x mem
        have deeper := depth_lt_array mem
        omega
      obtain ⟨firstFits, othersFit⟩ := List.forall_mem_cons.1 inside
      simp only [pretty, String.toList_append, List.append_assoc]
      exact .mark (fun _ => rfl) (awaits .openBracket nofun) (.lineBreak
        (first (Reader.awaits_firstItem frames) firstFits
          (endsValue_prettyItems _ _ (endsValue_lineBreak _))
          (reads_prettyItems others othersFit room reads)))
  | @object members each ih =>
    intro depth frames reader rest document awaits fits _ reads
    have room : frames.length < maxDepth := by
      rw [Json.depth] at fits
      omega
    have keyed : Keyed [] [] := rfl
    cases members with
    | nil =>
      rw [pretty]
      refine .mark (fun _ => rfl) (awaits .openBrace nofun) (.mark (fun _ => rfl) rfl ?_)
      rw [closeObject_eq room keyed]
      exact reads
    | cons member members =>
      obtain ⟨key, value⟩ := member
      -- a member is its key and its value, which is read one frame deeper
      obtain ⟨first, others⟩ := List.forall_mem_cons.1 ih
      have inside : ∀ x ∈ (key, value) :: members, x.2.depth + (frames.length + 1) ≤ maxDepth := by
        intro x mem
        have deeper := depth_lt_object mem
        omega
      obtain ⟨firstFits, othersFit⟩ := List.forall_mem_cons.1 inside
      simp only [pretty, String.toList_append, List.append_assoc]
      exact .mark (fun _ => rfl) (awaits .openBrace nofun) (.lineBreak
        (.step (scan_quoted key _) (quoted_ne_nil key) rfl (.mark (fun _ => rfl) rfl (.blank rfl
          (first (Reader.awaits_expectValue _) firstFits
            (endsValue_prettyMembers _ _ (endsValue_lineBreak _))
            (reads_prettyMembers others othersFit room keyed reads))))))

/-- A document that nests no more deeply than documents may is read back from its text. -/
theorem read?_pretty (writable : value.IsWritable) (fits : value.depth ≤ maxDepth) :
    read? (value.pretty 0) = some value := by
  have reads : Reads (.expectValue []) ((value.pretty 0).toList ++ []) value :=
    writable.readsBack (Reader.awaits_expectValue []) fits endsValue_nil .finish
  rw [List.append_nil] at reads
  exact reads.read?_eq

end Text

end ObjectBackend.Json
