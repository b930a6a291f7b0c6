import ObjectBackend.Proofs.Target.Texts

/-!
# Code without comments

Comments in functions stand on lines of their own, told by how these start. So the text of an entry
without these lines is the text of the entry without its comments (`Entry.leavesOut`), if comments
stay on their lines and registers have plain names.
-/

namespace ObjectBackend

open Text

namespace Target

/-- Whether a line of text is a comment in a function. -/
def startsComment (l : List Char) : Bool := "  ; ".toList.isPrefixOf l

/-- A block without its comments. -/
def Block.uncommented {ℓ σ : Type} (b : Block ℓ σ) : Block ℓ σ :=
  { b with lines := b.lines.filter fun l => !l.isComment }

/-- A function without its comments. -/
def Function.uncommented {ℓ : Type} (f : Function ℓ) : Function ℓ :=
  { f with blocks := f.blocks.map Block.uncommented }

/-- An entry without the comments in its function, if it is one. -/
def Entry.uncommented {ℓ : Type} : Entry ℓ → Entry ℓ
  | define f => .define f.uncommented
  | e => e

/-- A comment stays on its line, and the registers of other lines have plain names. -/
def Line.IsNeat {ℓ σ : Type} : Line ℓ σ → Prop
  | comment text => OneLine text
  | l => ∀ v ∈ l.values, v.HasPlainRegister

/-- Whether a line is neat is decided by its texts. -/
instance {ℓ σ : Type} : DecidablePred (@Line.IsNeat ℓ σ)
  | .comment text => inferInstanceAs (Decidable (OneLine text))
  | .run i => inferInstanceAs (Decidable (∀ v ∈ i.operands, v.HasPlainRegister))
  | .define receiver i =>
    inferInstanceAs (Decidable (∀ v ∈ receiver :: i.operands, v.HasPlainRegister))
  | .phi receiver _ incomings =>
    inferInstanceAs (Decidable (∀ v ∈ receiver :: incomings.map (·.1), v.HasPlainRegister))
  | .leave t => inferInstanceAs (Decidable (∀ v ∈ t.operands, v.HasPlainRegister))

/-- The registers of a function have plain names, and its comments stay on their lines. -/
structure Function.IsNeat {ℓ : Type} (f : Function ℓ) : Prop where
  parameters : ∀ o ∈ f.parameters, o.value.HasPlainRegister
  lines : ∀ b ∈ f.blocks, ∀ l ∈ b.lines, l.IsNeat

/-- What an entry contains besides names stays on its line. -/
def Entry.IsNeat {ℓ : Type} : Entry ℓ → Prop
  | comment text | sourceName text | dataLayout text | targetTriple text => OneLine text
  | data _ _ _ contents => ∀ v ∈ contents.values, v.HasPlainRegister
  | define f => f.IsNeat
  | blank | typeDef _ _ | external _ _ | declare _ _ _ => True

/-- A plain text stays on its line. -/
lemma Plain.oneLine {s : String} (plain : Plain s) : OneLine s := plain.mono fun _ both => both.1

/-- Code does not start a comment. -/
lemma Plain.startsComment_eq {s : String} (plain : Plain s) : startsComment s.toList = false := by
  rw [← Bool.not_eq_true, startsComment, List.isPrefixOf_iff_prefix]
  intro starts
  exact (plain ';' (starts.subset (by decide))).2 rfl

/-- A comment starts as comments do. -/
lemma startsComment_comment (text : String) :
    startsComment ("  " ++ ("; " ++ text)).toList = true := by
  have start : "  ".toList ++ "; ".toList = "  ; ".toList := by decide
  refine List.isPrefixOf_iff_prefix.2 ⟨text.toList, ?_⟩
  rw [String.toList_append, String.toList_append, ← List.append_assoc, start]

/-- A line of code is left. -/
lemma Plain.leavesOut {s : String} (plain : Plain s) :
    LeavesOut startsComment (s ++ "\n") (s ++ "\n") :=
  .keep plain.oneLine plain.startsComment_eq

/-- A line of code is left, whatever the line break is written with. -/
lemma Plain.leavesOut_end {s t : String} (plain : Plain (s ++ t)) :
    LeavesOut startsComment (s ++ (t ++ "\n")) (s ++ (t ++ "\n")) :=
  .keep_end plain.oneLine plain.startsComment_eq

section Functions

variable {l : Line Label Label} {b : Block Label Label} {f : Function Label}

/-- A neat line that is no comment is plain if the names in it are. -/
lemma Line.plain_text (code : l.isComment = false) (neat : l.IsNeat)
    (named : ∀ n ∈ l.names, Plain n.text) : Plain l.text := by
  cases l with
  | comment text => cases code
  | run instr => exact instr.plain_text named neat
  | define receiver instr =>
    obtain ⟨namedReceiver, namedInstr⟩ := List.forall_mem_append.1 named
    obtain ⟨own, others⟩ := List.forall_mem_cons.1 neat
    exact (receiver.plain_text namedReceiver own).append (by decide)
      |>.append (instr.plain_text namedInstr others)
  | phi receiver type incomings =>
    obtain ⟨namedHead, namedIncomings⟩ := List.forall_mem_append.1 named
    obtain ⟨namedReceiver, namedType⟩ := List.forall_mem_append.1 namedHead
    obtain ⟨own, others⟩ := List.forall_mem_cons.1 neat
    have bracket : Plain "[ " := by decide
    have listed : Plain (String.intercalate ", " (incomings.map fun (value, source) =>
        "[ " ++ value.text ++ ", %" ++ BlockLabel.text source ++ " ]")) := by
      refine consistsOf_intercalate (by decide) (List.forall_mem_map.2 ?_)
      rintro ⟨value, source⟩ mem
      have plain := value.plain_text
        (fun n memn => namedIncomings n (List.mem_flatMap.2 ⟨_, mem, memn⟩))
        (others value (List.mem_map.2 ⟨_, mem, rfl⟩))
      exact bracket.append plain |>.append (by decide) |>.append (plain_labelText source)
        |>.append (by decide)
    exact (receiver.plain_text namedReceiver own).append (by decide)
      |>.append (type.plain_text namedType) |>.append (by decide) |>.append listed
  | leave term => exact term.plain_text named neat

/-- The text of a block without comments leaves out the comment lines of its text. -/
lemma Block.leavesOut (neat : ∀ l ∈ b.lines, l.IsNeat) (named : ∀ n ∈ b.names, Plain n.text) :
    LeavesOut startsComment b.text b.uncommented.text := by
  have indent : Plain "  " := by decide
  have label : Plain (BlockLabel.text b.label ++ ":") :=
    (plain_labelText b.label).append (by decide)
  refine label.leavesOut_end.append (.join_filter (fun l mem code => ?_) fun l mem comment => ?_)
  · have plain := l.plain_text (by simpa using code) (neat l mem)
      fun n memn => named n (List.mem_flatMap.2 ⟨l, mem, memn⟩)
    exact Plain.leavesOut (indent.append plain)
  · cases l with
    | comment text =>
      have start : OneLine "; " := by decide
      exact .drop (indent.oneLine.append (start.append (neat _ mem))) (startsComment_comment text)
    | _ => cases comment

/-- The text of a function without comments leaves out the comment lines of its text. -/
lemma Function.leavesOut (neat : f.IsNeat) (named : ∀ n ∈ f.names, Plain n.text)
    (name : Plain (Name.symbol f.name).text) :
    LeavesOut startsComment f.text f.uncommented.text := by
  obtain ⟨namedHead, namedBlocks⟩ := List.forall_mem_append.1 named
  obtain ⟨namedResult, namedParameters⟩ := List.forall_mem_append.1 namedHead
  have word : Plain "define " := by decide
  have symbol := (consistsOf_append.1 name).2
  have parameters := plain_operandsText namedParameters (List.forall_mem_map.2 neat.parameters)
  have head : Plain ("define " ++ f.result.text ++ " @" ++ f.name.text ++ operandsText f.parameters
      ++ " \x7b") :=
    word.append (f.result.plain_text namedResult) |>.append (by decide) |>.append symbol
      |>.append parameters |>.append (by decide)
  have blocks : LeavesOut startsComment
      (String.intercalate "\n" (f.blocks.map Block.text))
      (String.intercalate "\n" (f.blocks.map fun b => b.uncommented.text)) :=
    .intercalate (.keep (s := "") (by decide) (by decide)) fun b mem =>
      b.leavesOut (neat.lines b mem) fun n memn => namedBlocks n (List.mem_flatMap.2 ⟨b, mem, memn⟩)
  have last : Plain "\x7d" := by decide
  rw [Function.text, Function.text, Function.uncommented, List.map_map]
  exact (head.leavesOut_end.append blocks).append last.leavesOut

end Functions

namespace Constant

mutual

/-- A constant with plain names and registers is plain. -/
theorem plain_text (constant : Constant) (named : ∀ n ∈ constant.names, Plain n.text)
    (own : ∀ v ∈ constant.values, v.HasPlainRegister) : Plain constant.text := by
  match constant with
  | .value v => exact v.plain_text named (own v (List.mem_singleton_self v))
  | .record fields =>
    have brace : Plain "\x7b " := by decide
    exact brace.append (consistsOf_intercalate (by decide) (plain_texts fields named own))
      |>.append (by decide)
  | .sequence [] => exact (by decide : Plain "zeroinitializer")
  | .sequence (item :: items) =>
    have bracket : Plain "[" := by decide
    have listed := plain_texts (item :: items) named own
    exact bracket.append (consistsOf_intercalate (by decide) listed) |>.append (by decide)

/-- A constant behind its type is plain if its names and registers are. -/
theorem plain_typedText (item : IrType × Constant) (named : ∀ n ∈ typedNames item, Plain n.text)
    (own : ∀ v ∈ typedValues item, v.HasPlainRegister) : Plain (typedText item) := by
  match item with
  | (type, constant) =>
    obtain ⟨namedType, namedConstant⟩ := List.forall_mem_append.1 named
    exact (type.plain_text namedType).append (by decide)
      |>.append (plain_text constant namedConstant own)

/-- Constants with plain names and registers are plain. -/
theorem plain_texts (items : List (IrType × Constant)) (named : ∀ n ∈ namesOf items, Plain n.text)
    (own : ∀ v ∈ valuesOf items, v.HasPlainRegister) : ∀ s ∈ texts items, Plain s := by
  match items with
  | [] => exact List.forall_mem_nil _
  | item :: items =>
    obtain ⟨first, others⟩ := List.forall_mem_append.1 named
    obtain ⟨ownFirst, ownOthers⟩ := List.forall_mem_append.1 own
    exact List.forall_mem_cons.2 ⟨plain_typedText item first ownFirst,
      plain_texts items others ownOthers⟩

end

end Constant

/-- The words for how data is stored are plain. -/
lemma Storage.plain_text (s : Storage) : Plain s.text := by cases s <;> decide

section Headings

variable {start text : String}

/-- A comment in a function is indented. -/
lemma startsComment_append {c : Char} (starts : start.toList.head? = some c) (visible : c ≠ ' ')
    (text : String) : startsComment (start ++ text).toList = false := by
  obtain ⟨rest, eq⟩ := List.head?_eq_some_iff.1 starts
  have indented : "  ; ".toList = ' ' :: [' ', ';', ' '] := by decide
  rw [startsComment, String.toList_append, eq, indented, List.cons_append,
    List.isPrefixOf_cons_cons, beq_false_of_ne visible.symm, Bool.false_and]

/-- A line that says something about the module is left. -/
lemma leavesOut_quoted {c : Char} (one : OneLine start) (holds : OneLine text)
    (starts : start.toList.head? = some c) (visible : c ≠ ' ') :
    LeavesOut startsComment (start ++ text ++ "\"\n") (start ++ text ++ "\"\n") := by
  refine .keep_end (t := "\"") (one.append holds |>.append (by decide)) ?_
  rw [String.append_assoc]
  exact startsComment_append starts visible _

end Headings

/-- The text of an entry without the lines that are comments is that of the entry without its
comments. -/
theorem Entry.leavesOut {e : Entry Label} (neat : e.IsNeat) (named : ∀ n ∈ e.names, Plain n.text)
    (name : ∀ n, e.name? = some n → Plain n.text) :
    LeavesOut startsComment e.text e.uncommented.text := by
  cases e with
  | blank => exact .keep (s := "") (by decide) (by decide)
  | comment text =>
    have start : OneLine "; " := by decide
    exact .keep (start.append neat) (startsComment_append (c := ';') (by decide) (by decide) text)
  | sourceName name => exact leavesOut_quoted (c := 's') (by decide) neat (by decide) (by decide)
  | dataLayout layout => exact leavesOut_quoted (c := 't') (by decide) neat (by decide) (by decide)
  | targetTriple triple =>
    exact leavesOut_quoted (c := 't') (by decide) neat (by decide) (by decide)
  | typeDef name fields =>
    have head := name _ rfl
    have type := (IrType.struct fields).plain_text (by rwa [IrType.names, IrType.namesOf_eq])
    exact Plain.leavesOut (head.append (by decide) |>.append type)
  | external symbol type =>
    have head := name _ rfl
    exact Plain.leavesOut (head.append (by decide) |>.append (type.plain_text named))
  | declare result symbol parameters =>
    obtain ⟨namedResult, namedParameters⟩ := List.forall_mem_append.1 named
    have word : Plain "declare " := by decide
    have plainSymbol := (consistsOf_append.1 (name _ rfl)).2
    have types : ∀ s ∈ parameters.map IrType.text, Plain s := List.forall_mem_map.2 fun type mem =>
      type.plain_text fun n memn => namedParameters n (List.mem_flatMap.2 ⟨type, mem, memn⟩)
    have line : Plain ("declare " ++ result.text ++ " @" ++ symbol.text ++ "("
        ++ String.intercalate ", " (parameters.map IrType.text) ++ ")") :=
      word.append (result.plain_text namedResult) |>.append (by decide) |>.append plainSymbol
        |>.append (by decide) |>.append (consistsOf_intercalate (by decide) types)
        |>.append (by decide)
    exact line.leavesOut_end
  | data symbol storage type contents =>
    obtain ⟨namedType, namedContents⟩ := List.forall_mem_append.1 named
    have head := name _ rfl
    exact Plain.leavesOut (head.append (by decide) |>.append storage.plain_text
      |>.append (by decide) |>.append (type.plain_text namedType) |>.append (by decide)
      |>.append (contents.plain_text namedContents neat))
  | define f => exact f.leavesOut neat named (name _ rfl)

end Target

end ObjectBackend
