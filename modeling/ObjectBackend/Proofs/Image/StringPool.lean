import ObjectBackend.Proofs.Image.Emission
import ObjectBackend.Proofs.Objects.Layout
import ObjectBackend.Proofs.Target.Names
import ObjectBackend.Proofs.Target.SymbolText

/-!
# The numbers of literals

Texts become literals one after the other, in whatever parts of a module they are used. However
often each of them is used, the literals are the different texts in the order of their first uses
(`Literals.texts_internAll`), the index has each of them once (`Literals.index_internAll`), and the
number of a text is its position among them (`Literals.numbers_internAll`). So a number once given
stands for the same text ever after, and for no other (`Literals.pool_numbers_texts`). Each literal
is rendered as one object and one array of characters.
-/

namespace List

variable {α β : Type}

/-- Of what is made of the elements of a list and their positions, only one position has a part. -/
lemma flatMap_zipIdx_of_unique {xs : List α} {x : α} {i : Nat} (at' : xs[i]? = some x)
    {f : α × Nat → List β} (others : ∀ e ∈ xs.zipIdx, e.2 ≠ i → f e = []) :
    xs.zipIdx.flatMap f = f (x, i) := by
  obtain ⟨lt, rfl⟩ := getElem?_eq_some_iff.1 at'
  have split : xs = xs.take i ++ xs[i] :: xs.drop (i + 1) := by
    rw [← drop_eq_getElem_cons, take_append_drop]
  have before : (xs.take i).length = i := length_take_of_le (Nat.le_of_lt lt)
  have parts : xs.zipIdx =
      (xs.take i).zipIdx ++ (xs[i], i) :: (xs.drop (i + 1)).zipIdx (i + 1) := by
    conv_lhs => rw [split]
    rw [zipIdx_append, before, Nat.zero_add, zipIdx_cons]
  have none {ys : List (α × Nat)} (sub : ∀ e ∈ ys, e ∈ xs.zipIdx ∧ e.2 ≠ i) : ys.flatMap f = [] :=
    flatMap_eq_nil_iff.2 fun e mem => others e (sub e mem).1 (sub e mem).2
  rw [parts, flatMap_append, flatMap_cons, none, none, nil_append, append_nil]
  · intro e mem
    have le : i + 1 ≤ e.2 := le_snd_of_mem_zipIdx mem
    exact ⟨parts ▸ mem_append_right _ (mem_cons_of_mem _ mem), Nat.ne_of_gt le⟩
  · intro e mem
    have lt : e.2 < i := by simpa [before] using snd_lt_of_mem_zipIdx mem
    exact ⟨parts ▸ mem_append_left _ mem, Nat.ne_of_lt lt⟩

end List

namespace ObjectBackend

open Target

namespace Literals

variable {l : Literals} {text : String} {texts : List String}

/-- The numbers of some texts that are used one after the other, and the literals behind them. -/
def internAll (l : Literals) : List String → List Nat × Literals
  | [] => ([], l)
  | text :: texts =>
    let (id, l) := l.intern text
    let (ids, l) := l.internAll texts
    (id :: ids, l)

/-- The first of some texts is used before the others. -/
lemma internAll_cons : l.internAll (text :: texts) =
    ((l.intern text).1 :: ((l.intern text).2.internAll texts).1,
      ((l.intern text).2.internAll texts).2) := rfl

section Step

/-- The literals are different texts, as the index has one position for each. -/
lemma nodup_texts (l : Literals) : l.texts.Nodup := by
  refine List.nodup_iff_injective_getElem.2 fun i j same => Fin.ext ?_
  have same : l.texts[i.val] = l.texts[j.val] := same
  have first := (l.indexed _ _).2 (List.getElem?_eq_getElem i.isLt)
  have second := (l.indexed _ _).2 (List.getElem?_eq_getElem j.isLt)
  rw [same, second] at first
  exact (Option.some.inj first).symm

/-- The index finds the position of a text that is a literal. -/
lemma lookup_of_mem (mem : text ∈ l.texts) : l.index.lookup text = some (l.texts.idxOf text) := by
  have lt := List.idxOf_lt_length_iff.2 mem
  rw [l.indexed, List.getElem?_eq_getElem lt, List.getElem_idxOf lt]

/-- The index does not find a text that is no literal. -/
lemma lookup_of_notMem (new : text ∉ l.texts) : l.index.lookup text = none :=
  Option.eq_none_iff_forall_ne_some.2 fun _ found =>
    new (List.mem_of_getElem? ((l.indexed ..).1 found))

/-- A text that is a literal has its position for a number. -/
lemma intern_of_mem (mem : text ∈ l.texts) : l.intern text = (l.texts.idxOf text, l) := by
  rw [intern]
  split
  case h_1 id found =>
    rw [lookup_of_mem mem] at found
    rw [Option.some.inj found]
  case h_2 none =>
    rw [lookup_of_mem mem] at none
    cases none

/-- A text that is none becomes the last one. -/
lemma intern_of_notMem (new : text ∉ l.texts) :
    l.intern text = (l.texts.length, l.add text (lookup_of_notMem new)) := by
  rw [intern]
  split
  case h_1 found =>
    rw [lookup_of_notMem new] at found
    cases found
  case h_2 => rfl

/-- The number of a text is its position among the literals behind it. -/
lemma intern_fst (l : Literals) (text : String) :
    (l.intern text).1 = (l.intern text).2.texts.idxOf text := by
  by_cases mem : text ∈ l.texts
  · rw [intern_of_mem mem]
  · rw [intern_of_notMem mem, add, List.idxOf_append_of_notMem mem, List.idxOf_cons_self,
      Nat.add_zero]

/-- A text that is used is a literal. -/
lemma mem_texts_intern (l : Literals) (text : String) : text ∈ (l.intern text).2.texts := by
  by_cases mem : text ∈ l.texts
  · rwa [intern_of_mem mem]
  · rw [intern_of_notMem mem]
    exact List.mem_append_right _ (List.mem_singleton_self _)

/-- Literals keep their positions. -/
lemma prefix_intern (l : Literals) (text : String) : l.texts <+: (l.intern text).2.texts := by
  by_cases mem : text ∈ l.texts
  · rw [intern_of_mem mem]
  · rw [intern_of_notMem mem]
    exact List.prefix_append _ _

/-- An index with one entry for each text gets one more for a new text. -/
lemma index_intern (once : l.index = l.texts.zipIdx.reverse) (text : String) :
    (l.intern text).2.index = (l.intern text).2.texts.zipIdx.reverse := by
  by_cases mem : text ∈ l.texts
  · rwa [intern_of_mem mem]
  · rw [intern_of_notMem mem, add]
    dsimp only
    rw [List.zipIdx_append, List.reverse_append, once]
    simp

end Step

section Runs

/-- Literals keep their positions, however many are added. -/
lemma prefix_internAll (l : Literals) (texts : List String) :
    l.texts <+: (l.internAll texts).2.texts := by
  induction texts generalizing l with
  | nil => exact List.prefix_rfl
  | cons text texts ih => exact (l.prefix_intern text).trans (ih _)

/-- The index has one entry for each text, however many are added. -/
lemma index_internAll (once : l.index = l.texts.zipIdx.reverse) (texts : List String) :
    (l.internAll texts).2.index = (l.internAll texts).2.texts.zipIdx.reverse := by
  induction texts generalizing l with
  | nil => exact once
  | cons text texts ih => exact ih (index_intern once text)

/-- The literals that are added are the new texts in the order of their first uses. -/
lemma texts_internAll (l : Literals) (texts : List String) :
    (l.internAll texts).2.texts = l.texts ++ (texts.removeAll l.texts).eraseDups := by
  induction texts generalizing l with
  | nil => exact (List.append_nil _).symm
  | cons text texts ih =>
    rw [internAll_cons, ih]
    by_cases mem : text ∈ l.texts
    · rw [intern_of_mem mem]
      simp [List.removeAll, mem]
    · rw [intern_of_notMem mem, add]
      simp [List.removeAll, mem, List.eraseDups_cons, List.filter_filter, Bool.and_comm,
        beq_eq_decide]

/-- The number of each text is its position among the literals behind all of them. -/
lemma numbers_internAll (l : Literals) (texts : List String) :
    (l.internAll texts).1 = texts.map (l.internAll texts).2.texts.idxOf := by
  induction texts generalizing l with
  | nil => rfl
  | cons text texts ih =>
    rw [internAll_cons, List.map_cons, ih, intern_fst]
    dsimp only
    congr 1
    exact (prefix_internAll _ texts).idxOf_eq_of_mem (mem_texts_intern l text)

/-- All texts that are used are literals. -/
lemma mem_texts_internAll (mem : text ∈ texts) : text ∈ (l.internAll texts).2.texts := by
  rw [texts_internAll, List.mem_append, List.mem_eraseDups, List.removeAll, List.mem_filter]
  by_cases old : text ∈ l.texts
  · exact .inl old
  · exact .inr ⟨mem, by simpa using old⟩

/-- More texts take nothing away from what comes before them. -/
lemma internAll_append (l : Literals) (texts more : List String) :
    l.internAll (texts ++ more) =
      ((l.internAll texts).1 ++ ((l.internAll texts).2.internAll more).1,
        ((l.internAll texts).2.internAll more).2) := by
  induction texts generalizing l with
  | nil => rfl
  | cons text texts ih =>
    rw [List.cons_append, internAll_cons, ih, internAll_cons, List.cons_append]

end Runs

section Rendering

variable {p : Program} {className charsField : String} {layout : ObjectLayout} {chars : FieldSlot}
  {id : Nat}

/-- What the literals are rendered as: an object of a class and an array of characters for each of
them, and a function that marks them all. -/
structure IsRendering (l : Literals) (className : String) (layout : ObjectLayout)
    (chars : FieldSlot) (es : List (Entry Label)) : Prop where
  /-- There is one object, which refers to the characters. -/
  objects : ∀ id < l.texts.length, ∃ fields,
    es.filter (·.dataSymbol? = some (.literal id)) =
      [.data (.literal id) .privateData (.named (.instances className))
        (.record (objectHeader (.metadata className) :: fields))] ∧
    fields.length = layout.fields.length ∧
    fields[chars.index - 1]? = some (.storage chars.type, .value (.symbol (.literalChars id)))
  /-- There is one array, which holds the code units of the text. -/
  characters : ∀ id text, l.texts[id]? = some text → ∃ header,
    es.filter (·.dataSymbol? = some (.literalChars id)) =
      [.data (.literalChars id) .privateData
        (.struct [.runtime .array, .array (Text.unitsOf text).length .i16])
        (.record [(.runtime .array, header), (.array (Text.unitsOf text).length .i16,
          .sequence ((Text.unitsOf text).map fun unit : Nat => (.i16, .value (.int unit))))])]
  /-- Both are marked once. -/
  marks : ∃ f, es.filter (·.name? = some (.symbol (.runtime .initStringPool))) = [.define f] ∧
    ∀ id < l.texts.length, ∀ s ∈ [Symbol.literal id, .literalChars id],
      (f.blocks.flatMap Block.lines).count (markLine s) = 1

/-- The rendering of literals, part by part. -/
lemma entries_eq (found : p.layout? className = some layout)
    (holds : layout.field? charsField = some chars) :
    l.entries p className charsField =
      .ok ((l.texts.zipIdx.flatMap fun e =>
          [charsEntry e.2 e.1, objectEntry className layout.fields chars.index e.2]) ++
        [.blank, .define (initFunction l.texts.length)]) := by
  rw [entries]
  split
  case isTrue empty =>
    rw [List.isEmpty_iff.1 empty]
    rfl
  case isFalse =>
    rw [stringFields, found]
    dsimp only
    rw [holds]
    rfl

/-- The entries of each literal are found among those of all literals. -/
lemma filter_entries {q : Entry Label → Bool} {text : String} (at' : l.texts[id]? = some text)
    {fields : List FieldSlot} {index : Nat}
    (others : ∀ e ∈ l.texts.zipIdx, e.2 ≠ id →
      q (charsEntry e.2 e.1) = false ∧ q (objectEntry className fields index e.2) = false)
    (blank : q .blank = false) (marking : q (.define (initFunction l.texts.length)) = false) :
    ((l.texts.zipIdx.flatMap fun e : String × Nat =>
        [charsEntry e.2 e.1, objectEntry className fields index e.2]) ++
      [Entry.blank, .define (initFunction l.texts.length)]).filter q =
      [charsEntry id text, objectEntry className fields index id].filter q := by
  have none : [Entry.blank, .define (initFunction l.texts.length)].filter q = [] := by
    rw [List.filter_cons_of_neg (by simp [blank]), List.filter_cons_of_neg (by simp [marking]),
      List.filter_nil]
  rw [List.filter_append, none, List.append_nil, List.filter_flatMap,
    List.flatMap_zipIdx_of_unique at']
  intro e mem other
  obtain ⟨first, second⟩ := others e mem other
  rw [List.filter_cons_of_neg (by simp [first]), List.filter_cons_of_neg (by simp [second]),
    List.filter_nil]

/-- The field that holds the characters is in its place. -/
lemma getElem?_fieldContents (found : p.layout? className = some layout)
    (holds : layout.field? charsField = some chars) :
    (layout.fields.map (fieldContents id chars.index))[chars.index - 1]? =
      some (.storage chars.type, .value (.symbol (.literalChars id))) := by
  have mem : chars ∈ layout.fields :=
    List.mem_reverse.1 (List.mem_of_find?_eq_some holds)
  obtain ⟨i, at'⟩ := List.getElem?_of_mem mem
  obtain ⟨c, _, _, slots⟩ := Program.exists_of_layout? found
  have index : chars.index = i + 1 := ObjectLayout.index_of_getElem? (slots ▸ at')
  rw [List.getElem?_map, index, Nat.add_sub_cancel, at', Option.map_some, ← index, fieldContents,
    if_pos rfl]

/-- Every literal is marked once, and so are its characters. -/
lemma count_markLine (count : Nat) (lt : id < count) {s : Symbol}
    (mem : s ∈ [Symbol.literal id, .literalChars id]) :
    ((initFunction count).blocks.flatMap Block.lines).count (markLine s) = 1 := by
  have lines : (initFunction count).blocks.flatMap Block.lines =
      ((List.range count).flatMap fun id => [Symbol.literal id, .literalChars id]).map markLine ++
        [.leave (.ret none)] := by
    rw [List.map_flatMap, initFunction, List.flatMap_singleton]
    rfl
  have nodup : ((List.range count).flatMap fun id =>
      [Symbol.literal id, .literalChars id]).Nodup := by
    refine List.nodup_flatMap.2 ⟨fun id _ => by simp, List.nodup_range.imp fun ne s mem mem' => ?_⟩
    rcases List.mem_pair.1 mem with rfl | rfl <;> simp at mem' <;> exact ne mem'
  have inj : Function.Injective markLine := by
    rintro s s' ⟨⟩
    rfl
  rw [lines, List.count_append, List.count_map_of_injective _ _ inj,
    List.count_eq_one_of_mem nodup (List.mem_flatMap.2 ⟨id, List.mem_range.2 lt, mem⟩)]
  rfl

/-- Literals are rendered if their class has a layout with a field for the characters. -/
lemma exists_rendering (l : Literals) (found : p.layout? className = some layout)
    (holds : layout.field? charsField = some chars) :
    ∃ es, l.entries p className charsField = .ok es ∧
      l.IsRendering className layout chars es := by
  refine ⟨_, entries_eq found holds, ?_, ?_, ?_⟩
  · intro id lt
    refine ⟨layout.fields.map (fieldContents id chars.index), ?_, List.length_map _,
      getElem?_fieldContents found holds⟩
    rw [filter_entries (q := (·.dataSymbol? = some (.literal id))) (List.getElem?_eq_getElem lt) ?_
      rfl rfl]
    · simp [charsEntry, objectEntry, Entry.dataSymbol?]
    · intro e _ other
      simp [charsEntry, objectEntry, Entry.dataSymbol?, other]
  · intro id text at'
    refine ⟨.record [objectHeader (.arrayMetadata .char),
      Constant.i32 (.int (Text.unitsOf text).length), Constant.ptr .null], ?_⟩
    rw [filter_entries (q := (·.dataSymbol? = some (.literalChars id))) at' ?_ rfl rfl]
    · simp [charsEntry, objectEntry, Entry.dataSymbol?]
    · intro e _ other
      simp [charsEntry, objectEntry, Entry.dataSymbol?, other]
  · refine ⟨initFunction l.texts.length, ?_, fun id lt s mem => count_markLine _ lt mem⟩
    have none : (l.texts.zipIdx.flatMap fun e =>
        [charsEntry e.2 e.1, objectEntry className layout.fields chars.index e.2]).filter
          (·.name? = some (.symbol (.runtime .initStringPool))) = [] := by
      rw [List.filter_flatMap, List.flatMap_eq_nil_iff]
      intro e _
      rfl
    rw [List.filter_append, none]
    rfl

end Rendering

/-- However texts are used, the numbers of two uses, and so the names of the literals that they are
given, are the same exactly if the texts are. The numbers are those below the number of literals;
the literals are the texts in the order of their first uses, the index has each of them once, and
each use has the number of its text. Further uses change none of this. A string class that has a
layout with a field for the characters renders each literal as one object and one array of the code
units of its text, both of them marked once. -/
theorem pool_numbers_texts (texts : List String) :
    (empty.internAll texts).1.length = texts.length ∧
      (∀ use ∈ texts.zip (empty.internAll texts).1, ∀ use' ∈ texts.zip (empty.internAll texts).1,
        (Symbol.literal use.2).text = (Symbol.literal use'.2).text ↔ use.1 = use'.1) ∧
      (∀ id, id ∈ (empty.internAll texts).1 ↔ id < (empty.internAll texts).2.texts.length) ∧
      (empty.internAll texts).2.texts = texts.eraseDups ∧
      (empty.internAll texts).2.index = texts.eraseDups.zipIdx.reverse ∧
      (∀ use ∈ texts.zip (empty.internAll texts).1,
        (empty.internAll texts).2.texts[use.2]? = some use.1) ∧
      (∀ more, (empty.internAll texts).1 <+: (empty.internAll (texts ++ more)).1 ∧
        (empty.internAll texts).2.texts <+: (empty.internAll (texts ++ more)).2.texts) ∧
      ∀ p className layout charsField chars, p.layout? className = some layout →
        layout.field? charsField = some chars →
        ∃ es, (empty.internAll texts).2.entries p className charsField = .ok es ∧
          (empty.internAll texts).2.IsRendering className layout chars es := by
  generalize pool : (empty.internAll texts).2 = l
  have numbers : (empty.internAll texts).1 = texts.map l.texts.idxOf := pool ▸ numbers_internAll ..
  have mem : ∀ text ∈ texts, text ∈ l.texts := fun text mem => pool ▸ mem_texts_internAll mem
  have order : l.texts = texts.eraseDups := by
    rw [← pool, texts_internAll, empty, List.nil_append]
    simp [List.removeAll]
  have index : l.index = texts.eraseDups.zipIdx.reverse := by
    rw [← order, ← pool, index_internAll rfl]
  -- every use is a text of the final pool beside its position there
  have uses : ∀ use ∈ texts.zip (texts.map l.texts.idxOf),
      use.1 ∈ l.texts ∧ use.2 = l.texts.idxOf use.1 := by
    intro use memuse
    rw [← List.map_prod_left_eq_zip, List.mem_map] at memuse
    obtain ⟨text, memtext, rfl⟩ := memuse
    exact ⟨mem text memtext, rfl⟩
  rw [numbers]
  refine ⟨List.length_map _, ?_, fun id => ⟨?_, fun lt => ?_⟩, order, index, ?_, fun more => ?_,
    fun p className layout charsField chars found holds => l.exists_rendering found holds⟩
  · intro use memuse use' memuse'
    obtain ⟨_, id⟩ := use
    obtain ⟨_, id'⟩ := use'
    obtain ⟨known, eq⟩ := uses _ memuse
    obtain ⟨_, eq'⟩ := uses _ memuse'
    dsimp only at known eq eq' ⊢
    rw [eq, eq']
    refine Iff.trans ⟨fun same => ?_, fun same => by rw [same]⟩ (List.idxOf_inj known)
    exact Symbol.literal.inj (Symbol.eq_of_text_eq rfl rfl same)
  · intro used
    obtain ⟨text, memtext, rfl⟩ := List.mem_map.1 used
    exact List.idxOf_lt_length_iff.2 (mem text memtext)
  · refine List.mem_map.2 ⟨l.texts[id], ?_, l.nodup_texts.idxOf_getElem id lt⟩
    exact List.mem_eraseDups.1 (order ▸ List.getElem_mem lt)
  · intro use memuse
    obtain ⟨_, id⟩ := use
    obtain ⟨known, eq⟩ := uses _ memuse
    dsimp only at known eq ⊢
    rw [eq]
    have lt := List.idxOf_lt_length_iff.2 known
    exact List.getElem?_eq_some_iff.2 ⟨lt, List.getElem_idxOf lt⟩
  · rw [internAll_append, ← numbers, pool]
    exact ⟨List.prefix_append _ _, prefix_internAll _ _⟩

/-- A text that comes back has the number it had, and the last field of the name refers to the
characters of a literal where a class hides one field by another. -/
theorem greetings_share_number :
    (empty.internAll ["hello", "", "😀", "hello"]).1 = [0, 1, 2, 0] ∧
      ∃ layout es, Program.points.layout? "Named" = some layout ∧
        (empty.internAll ["hello", "", "😀", "hello"]).2.entries .points "Named" "name" = .ok es ∧
        (empty.internAll ["hello", "", "😀", "hello"]).2.IsRendering "Named" layout
          ⟨"Named", "name", .array (.primitive .char), 5⟩ es := by
  have slot : Program.points.fieldSlot? ⟨"Named", "name"⟩ =
      some ⟨"Named", "name", .array (.primitive .char), 5⟩ := by
    decide +kernel
  obtain ⟨layout, found, holds⟩ := Option.bind_eq_some_iff.1 slot
  obtain ⟨_, _, _, _, _, _, _, renders⟩ := pool_numbers_texts ["hello", "", "😀", "hello"]
  obtain ⟨es, eq, rendering⟩ := renders _ _ _ _ _ found holds
  exact ⟨by decide +kernel, layout, es, found, eq, rendering⟩

end Literals

end ObjectBackend
