import Mathlib.Data.List.Basic
import Mathlib.Tactic.Lemma
import ObjectBackend.Text.Quoted

/-!
# Lines of text

A text of lines is told by its lines if none of them holds a line break, so leaving out some of
them is leaving out their texts (`withoutLines_ofLines`). What characters a text holds is found out
part by part, however it is put together (`ConsistsOf.append` and the lemmas after it).
-/

namespace ObjectBackend.Text

/-- All characters of a text have a property. -/
def ConsistsOf (P : Char → Prop) (s : String) : Prop := ∀ c ∈ s.toList, P c

/-- A text without line breaks. -/
abbrev OneLine (s : String) : Prop := ConsistsOf (· ≠ '\n') s

section ConsistsOf

variable {P Q : Char → Prop} {s t : String} {ss : List String}

/-- Whether a text consists of such characters is decided character by character. -/
instance [DecidablePred P] (s : String) : Decidable (ConsistsOf P s) :=
  List.decidableBAll P s.toList

/-- A text consists of any wider kind of characters. -/
lemma ConsistsOf.mono (wider : ∀ c, P c → Q c) (each : ConsistsOf P s) : ConsistsOf Q s :=
  fun c mem => wider c (each c mem)

/-- Two texts consist of such characters just if the text of both does. -/
lemma consistsOf_append : ConsistsOf P (s ++ t) ↔ ConsistsOf P s ∧ ConsistsOf P t := by
  rw [ConsistsOf, String.toList_append, List.forall_mem_append, ConsistsOf, ConsistsOf]

/-- A text that is put behind another one consists of what both consist of. -/
lemma ConsistsOf.append (first : ConsistsOf P s) (second : ConsistsOf P t) :
    ConsistsOf P (s ++ t) :=
  consistsOf_append.2 ⟨first, second⟩

/-- A list of characters makes a text that consists of them. -/
lemma consistsOf_ofList {cs : List Char} :
    ConsistsOf P (String.ofList cs) ↔ ∀ c ∈ cs, P c := by
  rw [ConsistsOf, String.toList_ofList]

/-- Texts that are put together consist of what each consists of. -/
lemma consistsOf_join (each : ∀ s ∈ ss, ConsistsOf P s) : ConsistsOf P (String.join ss) := by
  intro c mem
  rw [String.toList_join, List.mem_flatMap] at mem
  obtain ⟨s, mem, memc⟩ := mem
  exact each s mem c memc

/-- Texts that are put together around a separator consist of what it and each consist of. -/
lemma consistsOf_intercalate (separator : ConsistsOf P t) (each : ∀ s ∈ ss, ConsistsOf P s) :
    ConsistsOf P (String.intercalate t ss) := by
  induction ss with
  | nil => exact fun _ mem => nomatch mem
  | cons s ss ih =>
    obtain ⟨first, others⟩ := List.forall_mem_cons.1 each
    cases ss with
    | nil =>
      rw [String.intercalate_singleton]
      exact first
    | cons s' ss =>
      rw [String.intercalate_cons_cons]
      exact (first.append separator).append (ih others)

/-- The digits of a number. -/
lemma consistsOf_nat (digits : ∀ c, c.isDigit = true → P c) (n : Nat) :
    ConsistsOf P (toString n) := by
  intro c mem
  rw [Nat.toString_eq_repr, Nat.toList_repr] at mem
  exact digits c (Nat.isDigit_of_mem_toDigits (by decide) (by decide) mem)

/-- Integers consist of digits and a sign. -/
lemma consistsOf_int (digits : ∀ c, c.isDigit = true → P c) (sign : P '-') (n : Int) :
    ConsistsOf P (toString n) := by
  change ConsistsOf P n.repr
  rw [Int.repr_eq_if]
  split
  · exact consistsOf_nat digits _
  · have minus : ConsistsOf P "-" := fun c mem => List.mem_singleton.1 mem ▸ sign
    exact minus.append (consistsOf_nat digits _)

/-- A line break is no digit. -/
lemma newline_ne_of_isDigit (c : Char) (digit : c.isDigit = true) : c ≠ '\n' := by
  rintro rfl
  cases digit

/-- A number stays on its line. -/
lemma oneLine_nat (n : Nat) : OneLine (toString n) := consistsOf_nat newline_ne_of_isDigit n

/-- An integer stays on its line. -/
lemma oneLine_int (n : Int) : OneLine (toString n) :=
  consistsOf_int newline_ne_of_isDigit (by decide) n

/-- Quoted text stays on its line, whatever it is. -/
lemma oneLine_quote (text : String) : OneLine (quote text) := by
  have characters : OneLine (String.ofList (text.toList.flatMap quoteChar)) := by
    refine consistsOf_ofList.2 ?_
    rintro _ mem rfl
    obtain ⟨c, _, mem⟩ := List.mem_flatMap.1 mem
    exact newline_not_mem_quoteChar c mem
  have mark : OneLine "\"" := by decide
  exact (mark.append characters).append mark

end ConsistsOf

/-- Some lines, with a line break after each. -/
def ofLines (lines : List String) : String := String.join (lines.map (· ++ "\n"))

/-- A text without the lines of a sort. -/
def withoutLines (p : List Char → Bool) (text : String) : String :=
  String.ofList (['\n'].intercalate ((text.toList.splitOn '\n').filter fun l => !p l))

section Lines

variable {lines lines' : List String}

/-- Behind the last line break there is nothing. -/
lemma intercalate_append_nil (ls : List (List Char)) :
    ['\n'].intercalate (ls ++ [[]]) = ls.flatMap (· ++ ['\n']) := by
  induction ls with
  | nil => rfl
  | cons l ls ih =>
    have more : ls ++ [[]] ≠ [] := by simp
    rw [List.cons_append, List.intercalate_cons_of_ne_nil more, ih, List.flatMap_cons]

/-- The characters of lines are those of each line, with a line break behind it. -/
lemma toList_ofLines (lines : List String) :
    (ofLines lines).toList = ['\n'].intercalate (lines.map String.toList ++ [[]]) := by
  rw [ofLines, String.toList_join, intercalate_append_nil, List.flatMap_map, List.flatMap_map]
  simp only [String.toList_append]
  rfl

/-- Lines are put behind others. -/
lemma ofLines_append : ofLines (lines ++ lines') = ofLines lines ++ ofLines lines' := by
  rw [ofLines, List.map_append, String.join_append, ofLines, ofLines]

/-- A line ends with a line break. -/
lemma ofLines_singleton (line : String) : ofLines [line] = line ++ "\n" := by
  simp [ofLines, String.join]

/-- Leaving out lines of a text leaves the text of the other lines. -/
lemma withoutLines_ofLines {p : List Char → Bool} (each : ∀ l ∈ lines, OneLine l)
    (ending : p [] = false) :
    withoutLines p (ofLines lines) = ofLines (lines.filter fun l => !p l.toList) := by
  have split : (ofLines lines).toList.splitOn '\n' = lines.map String.toList ++ [[]] := by
    rw [toList_ofLines]
    refine List.splitOn_intercalate _ (fun cs mem => ?_) (by simp)
    rcases List.mem_append.1 mem with mem | mem
    · obtain ⟨l, here, rfl⟩ := List.mem_map.1 mem
      exact fun broken => each l here _ broken rfl
    · rw [List.mem_singleton.1 mem]
      exact List.not_mem_nil
  have last : [([] : List Char)].filter (fun l => !p l) = [[]] := by
    rw [List.filter_cons_of_pos (by simp [ending]), List.filter_nil]
  rw [withoutLines, split, List.filter_append, List.filter_map, last, ← String.toList_inj,
    String.toList_ofList, toList_ofLines]
  rfl

end Lines

/-- A text is made of lines, and another text of those lines that are not of a sort. -/
def LeavesOut (p : List Char → Bool) (s t : String) : Prop :=
  ∃ lines, (∀ l ∈ lines, OneLine l) ∧ s = ofLines lines ∧
    t = ofLines (lines.filter fun l => !p l.toList)

namespace LeavesOut

variable {p : List Char → Bool} {s s' t t' : String} {α : Type} {f g : α → String} {xs : List α}

/-- A text without some of its lines is what the rest of them makes, if empty lines stay. -/
lemma withoutLines_eq (leaves : LeavesOut p s t) (ending : p [] = false) :
    withoutLines p s = t := by
  obtain ⟨lines, each, rfl, rfl⟩ := leaves
  exact withoutLines_ofLines each ending

/-- The empty text has no lines to leave out. -/
lemma nil : LeavesOut p "" "" := ⟨[], List.forall_mem_nil _, rfl, rfl⟩

/-- A line that is kept stays. -/
lemma keep (one : OneLine s) (kept : p s.toList = false) :
    LeavesOut p (s ++ "\n") (s ++ "\n") :=
  ⟨[s], List.forall_mem_singleton.2 one, (ofLines_singleton s).symm, by
    rw [List.filter_cons_of_pos (by simp [kept]), List.filter_nil, ofLines_singleton]⟩

/-- The line break may be a part of what the line ends with. -/
lemma keep_end (one : OneLine (s ++ t)) (kept : p (s ++ t).toList = false) :
    LeavesOut p (s ++ (t ++ "\n")) (s ++ (t ++ "\n")) := by
  rw [← String.append_assoc]
  exact keep one kept

/-- A line that is dropped leaves nothing. -/
lemma drop (one : OneLine s) (dropped : p s.toList = true) : LeavesOut p (s ++ "\n") "" :=
  ⟨[s], List.forall_mem_singleton.2 one, (ofLines_singleton s).symm, by
    rw [List.filter_cons_of_neg (by simp [dropped])]
    rfl⟩

/-- Lines may be left out of two texts one after the other. -/
lemma append (leaves : LeavesOut p s t) (leaves' : LeavesOut p s' t') :
    LeavesOut p (s ++ s') (t ++ t') := by
  obtain ⟨lines, each, rfl, rfl⟩ := leaves
  obtain ⟨lines', each', rfl, rfl⟩ := leaves'
  refine ⟨lines ++ lines', List.forall_mem_append.2 ⟨each, each'⟩, ofLines_append.symm, ?_⟩
  rw [List.filter_append, ofLines_append]

/-- Lines may be left out of each of several texts. -/
lemma join (each : ∀ x ∈ xs, LeavesOut p (f x) (g x)) :
    LeavesOut p (String.join (xs.map f)) (String.join (xs.map g)) := by
  induction xs with
  | nil => exact nil
  | cons x xs ih =>
    obtain ⟨first, others⟩ := List.forall_mem_cons.1 each
    rw [List.map_cons, List.map_cons, String.join_cons, String.join_cons]
    exact first.append (ih others)

/-- Lines may be left out of each of several texts and of the separator. -/
lemma intercalate (separator : LeavesOut p s t) (each : ∀ x ∈ xs, LeavesOut p (f x) (g x)) :
    LeavesOut p (String.intercalate s (xs.map f)) (String.intercalate t (xs.map g)) := by
  induction xs with
  | nil => exact nil
  | cons x xs ih =>
    obtain ⟨first, others⟩ := List.forall_mem_cons.1 each
    cases xs with
    | nil => exact first
    | cons x' xs =>
      simp only [List.map_cons, String.intercalate_cons_cons] at ih ⊢
      exact (first.append separator).append (ih others)

/-- Some of the texts that a text is joined from can go with their lines. -/
lemma join_filter {q : α → Bool} (kept : ∀ x ∈ xs, q x = true → LeavesOut p (f x) (f x))
    (dropped : ∀ x ∈ xs, q x = false → LeavesOut p (f x) "") :
    LeavesOut p (String.join (xs.map f)) (String.join ((xs.filter q).map f)) := by
  induction xs with
  | nil => exact nil
  | cons x xs ih =>
    obtain ⟨keep, keeps⟩ := List.forall_mem_cons.1 kept
    obtain ⟨drop, drops⟩ := List.forall_mem_cons.1 dropped
    rw [List.map_cons, String.join_cons]
    cases holds : q x with
    | true =>
      rw [List.filter_cons_of_pos holds, List.map_cons, String.join_cons]
      exact (keep holds).append (ih keeps drops)
    | false =>
      rw [List.filter_cons_of_neg (by simp [holds]), ← String.empty_append (s := String.join _)]
      exact (drop holds).append (ih keeps drops)

end LeavesOut

end ObjectBackend.Text
