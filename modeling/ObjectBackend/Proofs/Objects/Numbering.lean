import Mathlib.Data.List.Lex
import Mathlib.Data.List.Nodup
import Mathlib.Data.String.Basic
import ObjectBackend.Proofs.Hierarchy.Descent

/-!
# The numbering of lines of descent

`TagMap.rangeOf` gives a line its place among the sorted lines, and as many places as there are
lines that go on from it. In a sorted list without repetitions a place is a number of smaller lines,
so both bounds of a range are counts (`rangeOf_eq_counts`), and comparing ranges is comparing the
sets that are counted. The lines that go on from a line follow it without a gap, since between two
lines with a common beginning all lines have it (`isPrefix_of_between`). Hence ranges are laminar: a
range holds the tag of a line, or its whole range, just if that line goes on from its own
(`containsTag_rangeOf`, `contains_rangeOf`).
-/

/-- A count grows if one more element is counted and none less. -/
lemma List.countP_lt_countP {α : Type} {xs : List α} {p q : α → Bool} {x : α} (mem : x ∈ xs)
    (new : p x = false) (counted : q x = true) (grows : ∀ y, p y = true → q y = true) :
    xs.countP p < xs.countP q := by
  obtain ⟨before, after, rfl⟩ := List.append_of_mem mem
  rw [List.countP_append, List.countP_append, List.countP_cons_of_neg (by simp [new]),
    List.countP_cons_of_pos counted]
  have := List.countP_mono_left fun y (_ : y ∈ before) => grows y
  have := List.countP_mono_left fun y (_ : y ∈ after) => grows y
  omega

namespace ObjectBackend.TagMap

/-- The lines of descent of all classes, sorted. -/
def lines (p : Program) : List (List String) :=
  (p.concreteClasses.map fun c => p.descent c.name).mergeSort fun a b =>
    !b.lex a fun x y => decide (x < y)

/-- The range of a class with a line of descent: its own place among all lines, and one place for
each line that goes on from it. -/
def rangeOf (lines : List (List String)) (line : List String) : TagRange :=
  let lower := lines.idxOf line
  { lower, upper := lower + lines.countP line.isPrefixOf }

section Ranges

variable {lines : List (List String)} {a b c : List String}

/-- Lines are compared name by name. -/
lemma cons_le_cons_iff {x y : String} : x :: a ≤ y :: b ↔ x < y ∨ x = y ∧ a ≤ b := by
  rw [← not_lt, ← not_lt]
  constructor
  · intro notAfter
    rcases lt_trichotomy x y with less | rfl | greater
    · exact .inl less
    · exact .inr ⟨rfl, fun after => notAfter (List.Lex.cons after)⟩
    · exact absurd (List.Lex.rel greater) notAfter
  · rintro (less | ⟨rfl, notAfter⟩) after
    · cases after with
      | rel greater => exact lt_asymm less greater
      | cons _ => exact lt_irrefl x less
    · cases after with
      | rel less => exact lt_irrefl x less
      | cons after => exact notAfter after

/-- A line does not come after those that go on from it. -/
lemma le_of_isPrefix (beginning : a <+: b) : a ≤ b := by
  induction a generalizing b with
  | nil => exact not_lt.1 (List.not_lt_nil b)
  | cons x a ih =>
    obtain ⟨rest, rfl⟩ := beginning
    exact cons_le_cons_iff.2 (.inr ⟨rfl, ih ⟨rest, rfl⟩⟩)

/-- Between two lines with a common beginning all lines have it. -/
lemma isPrefix_of_between (lower : a ≤ b) (upper : b ≤ c) (beginning : a <+: c) : a <+: b := by
  induction a generalizing b c with
  | nil => exact List.nil_prefix
  | cons x a ih =>
    obtain ⟨rest, rfl⟩ := beginning
    cases b with
    | nil => exact absurd List.Lex.nil (not_lt_of_ge lower)
    | cons y b =>
      rcases cons_le_cons_iff.1 lower with less | ⟨rfl, lower'⟩
      · rcases cons_le_cons_iff.1 upper with greater | ⟨rfl, _⟩
        · exact absurd greater (lt_asymm less)
        · exact absurd less (lt_irrefl y)
      · rcases cons_le_cons_iff.1 upper with greater | ⟨_, upper'⟩
        · exact absurd greater (lt_irrefl x)
        · exact List.cons_prefix_cons.2 ⟨rfl, ih lower' upper' ⟨rest, rfl⟩⟩

/-- The comparison that sorts lines is their order. -/
lemma not_lex_eq_decide_le : (!b.lex a fun x y => decide (x < y)) = decide (a ≤ b) := by
  have lex : b.lex a (fun x y => decide (x < y)) = true ↔ b < a := by
    rw [List.lex_eq_true_iff_lex]
    simp only [decide_eq_true_eq]
    rfl
  rw [← Bool.coe_iff_coe, Bool.not_eq_true', ← Bool.not_eq_true, lex, not_lt, decide_eq_true_eq]

/-- In a sorted list without repetitions the place of a line is the number of smaller lines. -/
lemma idxOf_eq_countP (sorted : lines.Pairwise (· < ·)) (mem : a ∈ lines) :
    lines.idxOf a = lines.countP fun b => decide (b < a) := by
  induction lines with
  | nil => cases mem
  | cons c lines ih =>
    rw [List.pairwise_cons] at sorted
    cases mem with
    | head =>
      rw [List.idxOf_cons_self, eq_comm, List.countP_eq_zero]
      intro b mem
      cases mem with
      | head => simp
      | tail _ mem => simpa using (sorted.1 b mem).le
    | tail _ mem =>
      have less := sorted.1 a mem
      rw [List.idxOf_cons_ne _ less.ne, ih sorted.2 mem,
        List.countP_cons_of_pos (by simpa using less)]

/-- Whether a line comes before the end of the range of another: it is smaller or goes on from it.
-/
def precedesEnd (a b : List String) : Bool := decide (b < a) || a.isPrefixOf b

/-- A line is before the end of the range of another one just if it is smaller or goes on from it.
-/
lemma precedesEnd_iff : precedesEnd a b = true ↔ b < a ∨ a <+: b := by
  simp only [precedesEnd, Bool.or_eq_true, decide_eq_true_eq, List.isPrefixOf_iff_prefix]

/-- The bounds of a range as counts. -/
lemma rangeOf_eq_counts (sorted : lines.Pairwise (· < ·)) (mem : a ∈ lines) :
    rangeOf lines a =
      { lower := lines.countP fun b => decide (b < a)
        upper := lines.countP (precedesEnd a) } := by
  have upper : ∀ bs : List (List String),
      (bs.countP fun b => decide (b < a)) + bs.countP a.isPrefixOf = bs.countP (precedesEnd a) := by
    intro bs
    induction bs with
    | nil => rfl
    | cons b bs ih =>
      have disjoint : b < a → ¬ a <+: b := fun lt beginning =>
        not_lt_of_ge (le_of_isPrefix beginning) lt
      have ends := precedesEnd_iff (a := a) (b := b)
      simp only [List.countP_cons, decide_eq_true_eq, List.isPrefixOf_iff_prefix] at ih ⊢
      by_cases less : b < a
      · have pos := ends.2 (.inl less)
        simp only [less, disjoint less, pos, if_true, if_false]
        omega
      · by_cases beginning : a <+: b
        · have pos := ends.2 (.inr beginning)
          simp only [less, beginning, pos, if_true, if_false]
          omega
        · have neg : precedesEnd a b = false := by
            rw [← Bool.not_eq_true, ends]
            rintro (h | h)
            · exact less h
            · exact beginning h
          simp only [less, beginning, neg, if_false, Bool.false_eq_true]
          omega
  rw [rangeOf, idxOf_eq_countP sorted mem, ← upper]
  push_cast
  rfl

/-- What is smaller than a line comes before the end of each range the line is in. -/
lemma precedesEnd_of_lt (beginning : a <+: b) (less : c < b) : precedesEnd a c = true := by
  rw [precedesEnd_iff]
  rcases lt_or_ge c a with lt | ge
  · exact .inl lt
  · exact .inr (isPrefix_of_between ge less.le beginning)

/-- A range ends no earlier than the ranges within it. -/
lemma precedesEnd_of_precedesEnd (beginning : a <+: b) (h : precedesEnd b c = true) :
    precedesEnd a c = true := by
  rcases precedesEnd_iff.1 h with less | onward
  · exact precedesEnd_of_lt beginning less
  · exact precedesEnd_iff.2 (.inr (beginning.trans onward))

/-- The range of a line is not empty. -/
lemma lower_lt_upper (sorted : lines.Pairwise (· < ·)) (mem : a ∈ lines) :
    (rangeOf lines a).lower < (rangeOf lines a).upper := by
  rw [rangeOf_eq_counts sorted mem]
  refine Int.ofNat_lt.2 (List.countP_lt_countP mem (by simp) ?_ fun b less => ?_)
  · exact precedesEnd_iff.2 (.inr List.prefix_rfl)
  · exact precedesEnd_iff.2 (.inl (by simpa using less))

/-- The range of a line holds the ranges of the lines that go on from it. -/
lemma contains_of_isPrefix (sorted : lines.Pairwise (· < ·)) (mema : a ∈ lines)
    (memb : b ∈ lines) (beginning : a <+: b) :
    (rangeOf lines a).contains (rangeOf lines b) = true := by
  rw [rangeOf_eq_counts sorted mema, rangeOf_eq_counts sorted memb]
  simp only [TagRange.contains, Bool.and_eq_true, decide_eq_true_eq, Int.ofNat_le]
  constructor
  · refine List.countP_mono_left fun c _ less => ?_
    simp only [decide_eq_true_eq] at less ⊢
    exact less.trans_le (le_of_isPrefix beginning)
  · exact List.countP_mono_left fun c _ h => precedesEnd_of_precedesEnd beginning h

/-- A line whose tag lies in the range of another goes on from it. -/
lemma isPrefix_of_containsTag (sorted : lines.Pairwise (· < ·)) (mema : a ∈ lines)
    (memb : b ∈ lines)
    (holds : (rangeOf lines a).containsTag (rangeOf lines b).lower = true) : a <+: b := by
  rw [rangeOf_eq_counts sorted mema, rangeOf_eq_counts sorted memb] at holds
  simp only [TagRange.containsTag, Bool.and_eq_true, decide_eq_true_eq, Int.ofNat_le,
    Int.ofNat_lt] at holds
  obtain ⟨lower, upper⟩ := holds
  by_contra other
  -- the other line comes before this one, or after the last that goes on from it
  rcases lt_or_ge b a with less | ge
  · refine absurd lower (not_le_of_gt (List.countP_lt_countP memb (by simp) (by simpa) ?_))
    intro c less'
    simp only [decide_eq_true_eq] at less' ⊢
    exact less'.trans less
  · refine absurd upper (not_lt_of_ge (List.countP_mono_left fun c _ h => ?_))
    rw [decide_eq_true_eq]
    rcases precedesEnd_iff.1 h with less | onward
    · exact less.trans_le ge
    · by_contra notLess
      exact other (isPrefix_of_between ge (not_lt.1 notLess) onward)

/-- A range that holds another holds its tag. -/
lemma containsTag_of_contains {r s : TagRange} (nonempty : s.lower < s.upper)
    (holds : r.contains s = true) : r.containsTag s.lower = true := by
  simp only [TagRange.contains, TagRange.containsTag, Bool.and_eq_true, decide_eq_true_eq] at *
  omega

/-- The range of a line holds the tag of another just if the other goes on from it. -/
lemma containsTag_rangeOf (sorted : lines.Pairwise (· < ·)) (mema : a ∈ lines) (memb : b ∈ lines) :
    (rangeOf lines a).containsTag (rangeOf lines b).lower = true ↔ a <+: b := by
  refine ⟨isPrefix_of_containsTag sorted mema memb, fun beginning => ?_⟩
  exact containsTag_of_contains (lower_lt_upper sorted memb)
    (contains_of_isPrefix sorted mema memb beginning)

/-- The range of a line holds that of another just if the other goes on from it. -/
lemma contains_rangeOf (sorted : lines.Pairwise (· < ·)) (mema : a ∈ lines) (memb : b ∈ lines) :
    (rangeOf lines a).contains (rangeOf lines b) = true ↔ a <+: b := by
  refine ⟨fun holds => ?_, contains_of_isPrefix sorted mema memb⟩
  exact isPrefix_of_containsTag sorted mema memb
    (containsTag_of_contains (lower_lt_upper sorted memb) holds)

end Ranges

variable {p : Program} {c : ClassDef}

/-- The line of descent of a class is among the sorted ones. -/
lemma mem_lines (mem : c ∈ p.concreteClasses) : p.descent c.name ∈ lines p :=
  List.mem_mergeSort.2 (List.mem_map_of_mem mem)

/-- The lines of descent are sorted, without repetitions. -/
lemma lines_sorted (p : Program) : (lines p).Pairwise (· < ·) := by
  have sorted : (lines p).Pairwise (· ≤ ·) := by
    refine (List.pairwise_mergeSort ?_ ?_ _).imp ?_
    · intro a b c ab bc
      rw [not_lex_eq_decide_le, decide_eq_true_eq] at *
      exact ab.trans bc
    · intro a b
      rw [not_lex_eq_decide_le, not_lex_eq_decide_le, Bool.or_eq_true, decide_eq_true_eq,
        decide_eq_true_eq]
      exact le_total a b
    · intro a b ab
      rwa [not_lex_eq_decide_le, decide_eq_true_eq] at ab
  have distinct : (lines p).Nodup := by
    refine (List.mergeSort_perm _ _).nodup_iff.2 ?_
    refine List.Nodup.map_on (fun c memc d memd eq => ?_) ((p.nodup.of_map _).filter _)
    exact Program.eq_of_descent_eq (Program.concreteClasses_subset memc)
      (Program.concreteClasses_subset memd) eq
  exact (sorted.and distinct).imp fun both => lt_of_le_of_ne both.1 both.2

end ObjectBackend.TagMap
