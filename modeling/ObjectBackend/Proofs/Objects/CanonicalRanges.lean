import Mathlib.Data.List.Pairwise
import ObjectBackend.Objects.TypeTag

/-!
# Canonical ranges

Fusing sorted ranges neither loses nor adds a tag (`TagRange.any_containsTag_merge`): a range that
begins within the one before, or right after it, only moves the end of that one.

The fused ranges are the longest runs of the tags that lie in one of the ranges, in ascending order
(`TagRange.mem_merge_iff_isRun`). So they depend on these tags alone, and lists of ranges that hold
the same tags are fused into the same list (`TagRange.merge_canonical`). Fusing is also described as
a loop that compares each range with the last one so far (`TagRange.absorb`).
-/

namespace ObjectBackend.TagRange

variable {r s : TagRange} {ranges others : List TagRange} {tag : Int}

section Tags

/-- A range has the tags from its lower bound on and below its upper one. -/
lemma containsTag_iff : r.containsTag tag = true ↔ r.lower ≤ tag ∧ tag < r.upper := by
  simp [containsTag]

/-- The order of ranges is transitive. -/
lemma before_trans (a b c : TagRange) (hab : a.before b = true) (hbc : b.before c = true) :
    a.before c = true := by
  simp only [before, Bool.or_eq_true, Bool.and_eq_true, decide_eq_true_eq, beq_iff_eq] at *
  omega

/-- Of two ranges one comes before the other. -/
lemma before_total (a b : TagRange) : (a.before b || b.before a) = true := by
  simp only [before, Bool.or_eq_true, Bool.and_eq_true, decide_eq_true_eq, beq_iff_eq]
  omega

/-- Two ranges that come before each other are the same. -/
lemma before_antisymm (a b : TagRange) (hab : a.before b = true) (hba : b.before a = true) :
    a = b := by
  obtain ⟨lower, upper⟩ := a
  obtain ⟨lower', upper'⟩ := b
  simp only [before, Bool.or_eq_true, Bool.and_eq_true, decide_eq_true_eq, beq_iff_eq] at *
  rw [mk.injEq]
  omega

/-- A range that comes before another begins no later. -/
lemma lower_le_of_before (h : r.before s = true) : r.lower ≤ s.lower := by
  simp only [before, Bool.or_eq_true, Bool.and_eq_true, decide_eq_true_eq, beq_iff_eq] at h
  omega

/-- Fusing sorted ranges keeps the tags that lie in one of them. -/
lemma any_containsTag_fuse (sorted : (r :: ranges).Pairwise fun a b => a.lower ≤ b.lower) :
    (fuse r ranges).any (·.containsTag tag) = (r :: ranges).any (·.containsTag tag) := by
  induction ranges generalizing r with
  | nil => rfl
  | cons next rest ih =>
    obtain ⟨first, sorted'⟩ := List.pairwise_cons.1 sorted
    have ordered := first next (List.mem_cons_self ..)
    rw [fuse]
    split
    case isTrue touches =>
      -- no tag lies between the two
      have whole : (TagRange.mk r.lower (max r.upper next.upper)).containsTag tag =
          (r.containsTag tag || next.containsTag tag) := by
        rw [Bool.eq_iff_iff, Bool.or_eq_true]
        simp only [containsTag_iff]
        omega
      have sorted'' : (TagRange.mk r.lower (max r.upper next.upper) :: rest).Pairwise
          fun a b => a.lower ≤ b.lower :=
        List.pairwise_cons.2
          ⟨fun s mem => first s (List.mem_cons_of_mem _ mem), (List.pairwise_cons.1 sorted').2⟩
      rw [ih sorted'', List.any_cons, List.any_cons, List.any_cons, whole, Bool.or_assoc]
    case isFalse => rw [List.any_cons, List.any_cons, ih sorted']

/-- Sorting and fusing ranges keeps the tags that lie in one of them. -/
lemma any_containsTag_merge :
    (merge ranges).any (·.containsTag tag) = ranges.any (·.containsTag tag) := by
  have sorted := List.pairwise_mergeSort before_trans before_total ranges
  rw [← (List.mergeSort_perm ranges before).any_eq, merge]
  split
  case h_1 empty => rw [empty]
  case h_2 r rest eq =>
    rw [eq] at sorted ⊢
    exact any_containsTag_fuse (sorted.imp lower_le_of_before)

end Tags

/-- Each range has tags. -/
def NoneEmpty (ranges : List TagRange) : Prop := ∀ r ∈ ranges, r.isEmpty = false

/-- Each range begins behind the end of those before it, and does not touch it. -/
def Separated (ranges : List TagRange) : Prop := ranges.Pairwise fun r s => r.upper < s.lower

/-- A tag lies in one of the ranges. -/
def covers (ranges : List TagRange) (tag : Int) : Bool := ranges.any (·.containsTag tag)

/-- The bounds of a range that is not empty differ. -/
lemma lower_lt_upper (filled : r.isEmpty = false) : r.lower < r.upper := by
  simpa [isEmpty] using filled

/-- Ranges cover the tags that lie in one of them. -/
lemma covers_iff : covers ranges tag = true ↔ ∃ r ∈ ranges, r.lower ≤ tag ∧ tag < r.upper := by
  simp [covers, containsTag_iff]

section Fusing

/-- Fusing ranges that are not empty leaves none that is. -/
lemma noneEmpty_fuse (filled : NoneEmpty (r :: ranges)) : NoneEmpty (fuse r ranges) := by
  induction ranges generalizing r with
  | nil => exact filled
  | cons next rest ih =>
    obtain ⟨first, filled'⟩ := List.forall_mem_cons.1 filled
    rw [fuse]
    split
    case isTrue =>
      refine ih (List.forall_mem_cons.2 ⟨?_, (List.forall_mem_cons.1 filled').2⟩)
      have := lower_lt_upper first
      simp only [isEmpty, decide_eq_false_iff_not]
      omega
    case isFalse => exact List.forall_mem_cons.2 ⟨first, ih filled'⟩

/-- Fusing begins where the first range does, and leaves gaps. -/
lemma separated_fuse (sorted : (r :: ranges).Pairwise fun a b => a.lower ≤ b.lower) :
    (∀ s ∈ fuse r ranges, r.lower ≤ s.lower) ∧ Separated (fuse r ranges) := by
  induction ranges generalizing r with
  | nil => simp [fuse, Separated]
  | cons next rest ih =>
    obtain ⟨first, sorted'⟩ := List.pairwise_cons.1 sorted
    rw [fuse]
    split
    case isTrue =>
      exact ih (List.pairwise_cons.2
        ⟨fun s mem => first s (List.mem_cons_of_mem _ mem), (List.pairwise_cons.1 sorted').2⟩)
    case isFalse apart =>
      obtain ⟨least, separated⟩ := ih sorted'
      have ordered := first next (List.mem_cons_self ..)
      refine ⟨List.forall_mem_cons.2 ⟨Int.le_refl _, fun s mem => ?_⟩,
        List.pairwise_cons.2 ⟨fun s mem => ?_, separated⟩⟩
      · exact Int.le_trans ordered (least s mem)
      · exact Int.lt_of_lt_of_le (Int.not_le.1 apart) (least s mem)

/-- Merged ranges are not empty. -/
lemma noneEmpty_merge (filled : NoneEmpty ranges) : NoneEmpty (merge ranges) := by
  have filled' : NoneEmpty (ranges.mergeSort before) :=
    fun r mem => filled r (List.mem_mergeSort.1 mem)
  rw [merge]
  split
  case h_1 => exact List.forall_mem_nil _
  case h_2 r rest eq => exact noneEmpty_fuse (eq ▸ filled')

/-- Merged ranges are separated. -/
lemma separated_merge (ranges : List TagRange) : Separated (merge ranges) := by
  have sorted := List.pairwise_mergeSort before_trans before_total ranges
  rw [merge]
  split
  case h_1 => exact .nil
  case h_2 r rest eq =>
    rw [eq] at sorted
    exact (separated_fuse (sorted.imp lower_le_of_before)).2

/-- Merged ranges cover the same tags. -/
lemma covers_merge (ranges : List TagRange) : covers (merge ranges) = covers ranges :=
  funext fun _ => any_containsTag_merge

end Fusing

section Runs

/-- A range is a longest run of some tags: it holds only such tags, and neither the one below it nor
the one above it is among them. -/
structure IsRun (tags : Int → Bool) (r : TagRange) : Prop where
  filled : r.lower < r.upper
  all : ∀ tag, r.lower ≤ tag → tag < r.upper → tags tag = true
  below : tags (r.lower - 1) = false
  above : tags r.upper = false

variable {tags : Int → Bool}

/-- A run ends where another one does that holds one of its tags, or before. -/
lemma IsRun.upper_le (run : IsRun tags r) (run' : IsRun tags s) (low : r.lower ≤ tag)
    (high : tag < s.upper) : r.upper ≤ s.upper := by
  by_contra beyond
  have above := run.all s.upper (by omega) (by omega)
  rw [run'.above] at above
  cases above

/-- A run begins where another one does that holds one of its tags, or later. -/
lemma IsRun.le_lower (run : IsRun tags r) (run' : IsRun tags s) (low : s.lower ≤ tag)
    (high : tag < r.upper) : s.lower ≤ r.lower := by
  by_contra beyond
  have below := run.all (s.lower - 1) (by omega) (by omega)
  rw [run'.below] at below
  cases below

/-- Two runs that share a tag are the same. -/
lemma IsRun.eq (run : IsRun tags r) (run' : IsRun tags s) (held : r.containsTag tag = true)
    (held' : s.containsTag tag = true) : r = s := by
  obtain ⟨low, high⟩ := containsTag_iff.1 held
  obtain ⟨low', high'⟩ := containsTag_iff.1 held'
  have lower := Int.le_antisymm (run'.le_lower run low high') (run.le_lower run' low' high)
  have upper := Int.le_antisymm (run.upper_le run' low high') (run'.upper_le run low' high)
  cases r
  cases s
  exact (mk.injEq ..).mpr ⟨lower, upper⟩

/-- Ranges with gaps between them are the runs of their tags. -/
lemma mem_iff_isRun (filled : NoneEmpty ranges) (separated : Separated ranges) :
    r ∈ ranges ↔ IsRun (covers ranges) r := by
  have apart : ∀ r ∈ ranges, ∀ s ∈ ranges, r ≠ s → r.upper < s.lower ∨ s.upper < r.lower := by
    have either : ranges.Pairwise fun r s => r.upper < s.lower ∨ s.upper < r.lower :=
      separated.imp .inl
    have : Std.Symm fun r s : TagRange => r.upper < s.lower ∨ s.upper < r.lower :=
      ⟨fun _ _ => Or.symm⟩
    exact fun r memr s mems ne => either.forall memr mems ne
  have isRun : ∀ r ∈ ranges, IsRun (covers ranges) r := by
    intro r mem
    have uncovered : ∀ tag, (∀ s ∈ ranges, ¬ (s.lower ≤ tag ∧ tag < s.upper)) →
        covers ranges tag = false := fun tag none => by
      rw [← Bool.not_eq_true, covers_iff]
      exact fun ⟨s, mems, held⟩ => none s mems held
    refine ⟨lower_lt_upper (filled r mem), fun tag low high => covers_iff.2 ⟨r, mem, low, high⟩,
      uncovered _ fun s mems => ?_, uncovered _ fun s mems => ?_⟩
    all_goals
      have := lower_lt_upper (filled r mem)
      by_cases same : r = s
      · subst same
        omega
      · have := apart r mem s mems same
        have := lower_lt_upper (filled s mems)
        omega
  refine ⟨isRun r, fun run => ?_⟩
  obtain ⟨s, mems, low, high⟩ := covers_iff.1 (run.all r.lower (Int.le_refl _) run.filled)
  have held : r.containsTag r.lower = true := containsTag_iff.2 ⟨Int.le_refl _, run.filled⟩
  rwa [run.eq (isRun s mems) held (containsTag_iff.2 ⟨low, high⟩)]

/-- Separated ranges ascend. -/
lemma ascends (filled : NoneEmpty ranges) (separated : Separated ranges) :
    ranges.Pairwise fun r s => r.lower < s.lower :=
  separated.imp_of_mem fun mem _ lt => Int.lt_trans (lower_lt_upper (filled _ mem)) lt

/-- Ranges with gaps between them that hold the same tags are the same. -/
lemma eq_of_covers_eq (filled : NoneEmpty ranges) (separated : Separated ranges)
    (filled' : NoneEmpty others) (separated' : Separated others)
    (same : covers ranges = covers others) : ranges = others := by
  have ascends := ascends filled separated
  have ascends' := TagRange.ascends filled' separated'
  have nodup : ∀ {ranges : List TagRange}, (ranges.Pairwise fun r s => r.lower < s.lower) →
      ranges.Nodup := fun ascends => ascends.imp fun {r s} lt eq => by
    rw [eq] at lt
    exact Int.lt_irrefl _ lt
  refine List.Perm.eq_of_pairwise (fun r s _ _ lt gt => absurd gt (Int.lt_asymm lt)) ascends
    ascends' ((List.perm_ext_iff_of_nodup (nodup ascends) (nodup ascends')).2 fun r => ?_)
  rw [mem_iff_isRun filled separated, mem_iff_isRun filled' separated', same]

/-- The fused ranges are the runs of the tags that the ranges hold. -/
lemma mem_merge_iff_isRun (filled : NoneEmpty ranges) :
    r ∈ merge ranges ↔ IsRun (covers ranges) r := by
  rw [mem_iff_isRun (noneEmpty_merge filled) (separated_merge ranges), covers_merge]

end Runs

section Loop

/-- One turn of a loop over sorted ranges: a range that begins within the last one so far, or right
after it, moves the end of that one, and another is put behind it. -/
def absorb (merged : List TagRange) (range : TagRange) : List TagRange :=
  match merged.getLast? with
  | none => [range]
  | some last =>
    if range.lower ≤ last.upper then
      merged.dropLast ++ [{ last with upper := max last.upper range.upper }]
    else merged ++ [range]

/-- The ranges before the last one take no part in the loop. -/
lemma foldl_absorb (merged : List TagRange) (last : TagRange) :
    ranges.foldl absorb (merged ++ [last]) = merged ++ fuse last ranges := by
  induction ranges generalizing merged last with
  | nil => rfl
  | cons next rest ih =>
    rw [List.foldl_cons, absorb, fuse, List.getLast?_concat]
    dsimp only
    split
    case isTrue => rw [List.dropLast_concat, ih]
    case isFalse => rw [ih, List.append_assoc, List.singleton_append]

/-- In whichever way the ranges are sorted, the loop fuses them. -/
lemma foldl_absorb_eq_merge {sorted : List TagRange} (perm : sorted.Perm ranges)
    (ascends : sorted.Pairwise fun r s => r.before s = true) :
    sorted.foldl absorb [] = merge ranges := by
  have eq : sorted = ranges.mergeSort before :=
    (perm.trans (List.mergeSort_perm ranges before).symm).eq_of_pairwise
      (fun r s _ _ => before_antisymm r s) ascends
      (List.pairwise_mergeSort before_trans before_total ranges)
  rw [merge, ← eq]
  cases sorted with
  | nil => rfl
  | cons r rest => exact foldl_absorb [] r

end Loop

/-- Fusing ranges that have tags gives ranges that have tags, each of them beginning behind the end
of those before it, and that hold the tags that the given ones do; they are the longest runs of
these tags. Lists of ranges are fused into the same list just if they hold the same tags. The list
is the one that a loop over the sorted ranges comes to. -/
theorem merge_canonical (filled : NoneEmpty ranges) :
    NoneEmpty (merge ranges) ∧ Separated (merge ranges) ∧
      (∀ tag, covers (merge ranges) tag = covers ranges tag) ∧
      (∀ r, r ∈ merge ranges ↔ IsRun (covers ranges) r) ∧
      (∀ others, NoneEmpty others →
        (merge others = merge ranges ↔ ∀ tag, covers others tag = covers ranges tag)) ∧
      ∀ sorted : List TagRange, sorted.Perm ranges →
        (sorted.Pairwise fun r s => r.before s = true) → sorted.foldl absorb [] = merge ranges := by
  refine ⟨noneEmpty_merge filled, separated_merge ranges, fun tag => by rw [covers_merge],
    fun _ => mem_merge_iff_isRun filled, fun others filled' => ⟨fun eq tag => ?_, fun same => ?_⟩,
    fun _ => foldl_absorb_eq_merge⟩
  · rw [← covers_merge, eq, covers_merge]
  · refine eq_of_covers_eq (noneEmpty_merge filled') (separated_merge others)
      (noneEmpty_merge filled) (separated_merge ranges) ?_
    rw [covers_merge, covers_merge, funext same]

/-- Ranges that overlap or touch become one, whether they are given in parts or twice. -/
theorem parts_fused :
    merge [⟨5, 7⟩, ⟨1, 3⟩, ⟨3, 4⟩, ⟨6, 9⟩] = [⟨1, 4⟩, ⟨5, 9⟩] ∧
      merge [⟨5, 9⟩, ⟨1, 4⟩, ⟨5, 9⟩, ⟨2, 3⟩] = merge [⟨5, 7⟩, ⟨1, 3⟩, ⟨3, 4⟩, ⟨6, 9⟩] := by
  have filled : NoneEmpty [⟨5, 7⟩, ⟨1, 3⟩, ⟨3, 4⟩, ⟨6, 9⟩] := by unfold NoneEmpty; decide
  obtain ⟨_, _, _, _, same, loop⟩ := merge_canonical filled
  refine ⟨(loop [⟨1, 3⟩, ⟨3, 4⟩, ⟨5, 7⟩, ⟨6, 9⟩] (by decide) (by decide)).symm,
    (same _ (by unfold NoneEmpty; decide)).2 fun tag => ?_⟩
  rw [Bool.eq_iff_iff, covers_iff, covers_iff]
  simp only [List.mem_cons, exists_eq_or_imp, List.not_mem_nil, or_false, exists_eq_left]
  omega

end ObjectBackend.TagRange
