/-!
# Bit sets

Sets of small numbers as bit vectors. The width of a set is its capacity rounded up to whole words
of 64 bits; what lies beyond the width is never a member. Two sets of one width are equal exactly if
they have the same members (`BitSet.ext_contains`), the list of members holds just the numbers that
are contained (`BitSet.toList_eq`), and adding members to a set leaves less room in
it (`BitSet.room_union_lt`).
-/

namespace ObjectBackend

/-- A set of numbers below its width. -/
structure BitSet where
  width : Nat
  bits : BitVec width
deriving DecidableEq

namespace BitSet

/-- The empty set with room for the numbers below a capacity. -/
def empty (capacity : Nat) : BitSet :=
  { width := 64 * ((capacity + 63) / 64), bits := 0 }

/-- Whether a number is a member. -/
def contains (s : BitSet) (i : Nat) : Bool := s.bits.getLsbD i

/-- Add a number, if it lies below the width. -/
def insert (s : BitSet) (i : Nat) : BitSet :=
  if i < s.width then { s with bits := s.bits ||| BitVec.twoPow s.width i } else s

/-- Remove a number. -/
def erase (s : BitSet) (i : Nat) : BitSet :=
  if i < s.width then { s with bits := s.bits &&& ~~~(BitVec.twoPow s.width i) } else s

/-- Add those members of another set that lie below the width. -/
def union (s t : BitSet) : BitSet := { s with bits := s.bits ||| t.bits.setWidth s.width }

/-- Remove the members of another set. -/
def subtract (s t : BitSet) : BitSet := { s with bits := s.bits &&& ~~~(t.bits.setWidth s.width) }

/-- Add several numbers. -/
def insertAll (s : BitSet) (is : List Nat) : BitSet := is.foldl insert s

/-- Remove several numbers. -/
def eraseAll (s : BitSet) (is : List Nat) : BitSet := is.foldl erase s

/-- The places of the ones among the lowest binary digits of a number, in ascending order and
counted from an offset. The depth is the logarithm of the number of digits; the digits are halved
until one is left, or only zeros. -/
def onesFrom (offset : Nat) : (depth : Nat) → (digits : Nat) → List Nat
  | 0, digits => if digits.testBit 0 then [offset] else []
  | depth + 1, digits =>
    if digits = 0 then []
    else
      let half := 1 <<< depth
      onesFrom offset depth (digits % (1 <<< half)) ++
        onesFrom (offset + half) depth (digits >>> half)

/-- The members in ascending order. -/
def toList (s : BitSet) : List Nat := onesFrom 0 (s.width.log2 + 1) s.bits.toNat

/-- The number of members. -/
def size (s : BitSet) : Nat := s.toList.length

/-- Whether there are no members. -/
def isEmpty (s : BitSet) : Bool := s.bits == 0

/-- The numbers below the width that are not members. -/
def missing (s : BitSet) : List Nat := (List.range s.width).filter fun i => !s.contains i

/-- The number of further members there is room for. -/
def room (s : BitSet) : Nat := s.missing.length

/-- A set lies within another of its width that has all its members. -/
instance : LE BitSet where
  le s t := s.width = t.width ∧ ∀ i, s.contains i = true → t.contains i = true

/-- The empty set has no members. -/
@[simp] theorem contains_empty (capacity i : Nat) : (empty capacity).contains i = false := by
  simp [empty, contains]

/-- There are no members at the width or beyond it. -/
theorem contains_eq_false_of_le {s : BitSet} {i : Nat} (h : s.width ≤ i) :
    s.contains i = false :=
  BitVec.getLsbD_of_ge _ _ h

/-- Members lie below the width. -/
theorem lt_width {s : BitSet} {i : Nat} (mem : s.contains i = true) : i < s.width := by
  apply Classical.byContradiction
  intro large
  rw [contains_eq_false_of_le (Nat.le_of_not_lt large)] at mem
  cases mem

/-- The empty set has room for the numbers below its capacity. -/
theorem le_width_empty (capacity : Nat) : capacity ≤ (empty capacity).width := by
  simp only [empty]
  omega

/-- An insertion keeps the width. -/
@[simp] theorem width_insert (s : BitSet) (i : Nat) : (s.insert i).width = s.width := by
  unfold insert
  split <;> rfl

/-- A removal keeps the width. -/
@[simp] theorem width_erase (s : BitSet) (i : Nat) : (s.erase i).width = s.width := by
  unfold erase
  split <;> rfl

/-- Insertions keep the width. -/
@[simp] theorem width_insertAll (s : BitSet) (is : List Nat) :
    (s.insertAll is).width = s.width := by
  induction is generalizing s with
  | nil => rfl
  | cons i is ih => exact (ih _).trans (width_insert s i)

/-- Removals keep the width. -/
@[simp] theorem width_eraseAll (s : BitSet) (is : List Nat) : (s.eraseAll is).width = s.width := by
  induction is generalizing s with
  | nil => rfl
  | cons i is ih => exact (ih _).trans (width_erase s i)

/-- The members after an insertion. -/
theorem contains_insert (s : BitSet) (i j : Nat) :
    (s.insert i).contains j = (s.contains j || (decide (j < s.width) && decide (i = j))) := by
  unfold insert
  split
  case isTrue =>
    by_cases eq : i = j
    · subst eq
      simp [contains, BitVec.getLsbD_or, BitVec.getLsbD_twoPow]
    · simp [contains, BitVec.getLsbD_or, BitVec.getLsbD_twoPow, eq]
  case isFalse ge =>
    have none : (decide (j < s.width) && decide (i = j)) = false := by
      simp only [Bool.and_eq_false_iff, decide_eq_false_iff_not]
      omega
    rw [none, Bool.or_false]

/-- The members after a removal. -/
theorem contains_erase (s : BitSet) (i j : Nat) :
    (s.erase i).contains j = (s.contains j && !decide (i = j)) := by
  by_cases small : j < s.width
  · unfold erase
    split
    case isTrue => simp [contains, small, eq_comm]
    case isFalse ge =>
      have ne : i ≠ j := by omega
      simp [ne]
  · have width := width_erase s i
    rw [contains_eq_false_of_le (by omega), contains_eq_false_of_le (by omega), Bool.false_and]

/-- The members of a difference. -/
theorem contains_subtract (s t : BitSet) (i : Nat) :
    (s.subtract t).contains i = (s.contains i && !(t.contains i)) := by
  by_cases small : i < s.width
  · simp [contains, subtract, small]
  · have width : (s.subtract t).width = s.width := rfl
    rw [contains_eq_false_of_le (s := s.subtract t) (by omega),
      contains_eq_false_of_le (s := s) (by omega), Bool.false_and]

/-- The members of a union. -/
theorem contains_union (s t : BitSet) (i : Nat) :
    (s.union t).contains i = (s.contains i || (decide (i < s.width) && t.contains i)) := by
  simp [contains, union, BitVec.getLsbD_or, BitVec.getLsbD_setWidth]

/-- The members after insertions. -/
theorem contains_insertAll {s : BitSet} {i : Nat} {is : List Nat} :
    (s.insertAll is).contains i = true ↔ s.contains i = true ∨ i < s.width ∧ i ∈ is := by
  induction is generalizing s with
  | nil => simp [insertAll]
  | cons j js ih =>
    rw [insertAll, List.foldl_cons, ← insertAll, ih, contains_insert, width_insert]
    simp only [Bool.or_eq_true, Bool.and_eq_true, decide_eq_true_eq, List.mem_cons,
      eq_comm (a := j), and_or_left, or_assoc]

/-- The members after removals. -/
theorem contains_eraseAll {s : BitSet} {i : Nat} {is : List Nat} :
    (s.eraseAll is).contains i = true ↔ s.contains i = true ∧ i ∉ is := by
  induction is generalizing s with
  | nil => simp [eraseAll]
  | cons j js ih =>
    rw [eraseAll, List.foldl_cons, ← eraseAll, ih, contains_erase]
    simp only [Bool.and_eq_true, Bool.not_eq_true', decide_eq_false_iff_not, List.mem_cons, not_or,
      eq_comm (a := j), and_assoc]

/-- The ones of a number are the places below the number of digits at which it has a one. -/
theorem onesFrom_eq (offset depth digits : Nat) :
    onesFrom offset depth digits =
      ((List.range (1 <<< depth)).filter digits.testBit).map (offset + ·) := by
  induction depth generalizing offset digits with
  | zero => cases one : digits.testBit 0 <;> simp [onesFrom, List.range_succ, one]
  | succ depth ih =>
    unfold onesFrom
    split
    case isTrue zero => simp [zero]
    case isFalse =>
      have double : 1 <<< (depth + 1) = 1 <<< depth + 1 <<< depth := by
        simp only [Nat.one_shiftLeft, Nat.pow_succ]
        omega
      have low : (List.range (1 <<< depth)).filter (digits % 1 <<< (1 <<< depth)).testBit =
          (List.range (1 <<< depth)).filter digits.testBit := by
        refine List.filter_congr fun i lt => ?_
        have := List.mem_range.1 lt
        rw [Nat.one_shiftLeft (1 <<< depth), Nat.testBit_mod_two_pow]
        simp [this]
      have high : (digits >>> (1 <<< depth)).testBit = digits.testBit ∘ (1 <<< depth + ·) := by
        funext i
        simp [Nat.testBit_shiftRight]
      show onesFrom offset depth _ ++ onesFrom (offset + 1 <<< depth) depth _ = _
      rw [ih, ih, low, high, double, List.range_add, List.filter_append, List.filter_map,
        List.map_append, List.map_map]
      congr 2
      funext i
      exact Nat.add_assoc ..

/-- The members are the numbers below the width that the set contains. -/
theorem toList_eq (s : BitSet) : s.toList = (List.range s.width).filter s.contains := by
  have fits : s.width ≤ 1 <<< (s.width.log2 + 1) := by
    rw [Nat.one_shiftLeft]
    exact Nat.le_of_lt Nat.lt_log2_self
  have split := List.range_add (n := s.width) (m := 1 <<< (s.width.log2 + 1) - s.width)
  rw [Nat.add_sub_cancel' fits] at split
  have none : ((List.range (1 <<< (s.width.log2 + 1) - s.width)).map (s.width + ·)).filter
      s.contains = [] := by
    simp [contains_eq_false_of_le]
  unfold toList
  rw [onesFrom_eq, split]
  show List.map _ (List.filter s.contains _) = _
  simp only [List.filter_append, none, List.append_nil, Nat.zero_add, List.map_id']

/-- The list of members has just what the set contains. -/
theorem mem_toList {s : BitSet} {i : Nat} : i ∈ s.toList ↔ s.contains i = true := by
  rw [toList_eq, List.mem_filter, List.mem_range]
  exact ⟨fun h => h.2, fun h => ⟨lt_width h, h⟩⟩

/-- The members are listed in ascending order. -/
theorem toList_sorted (s : BitSet) : s.toList.Pairwise (· < ·) := by
  rw [toList_eq]
  exact List.pairwise_lt_range.filter _

/-- Sets of one width with the same members are equal. -/
theorem ext_contains {s t : BitSet} (width : s.width = t.width)
    (members : ∀ i < s.width, s.contains i = t.contains i) : s = t := by
  obtain ⟨n, bits⟩ := s
  obtain ⟨m, bits'⟩ := t
  cases width
  congr
  exact BitVec.eq_of_getLsbD_eq fun i h => members i h

/-- Every set lies within itself. -/
protected theorem le_refl (s : BitSet) : s ≤ s := ⟨rfl, fun _ mem => mem⟩

/-- A set that lies within a second one lies within every set the second lies within. -/
protected theorem le_trans {s t u : BitSet} (le : s ≤ t) (le' : t ≤ u) : s ≤ u :=
  ⟨le.1.trans le'.1, fun i mem => le'.2 i (le.2 i mem)⟩

/-- The empty set lies within every set of its width. -/
theorem empty_le {s : BitSet} {capacity : Nat} (width : s.width = (empty capacity).width) :
    empty capacity ≤ s := by
  refine ⟨width.symm, fun i mem => ?_⟩
  rw [contains_empty] at mem
  cases mem

/-- A union grows with its parts. -/
theorem union_le_union {s s' t t' : BitSet} (le : s ≤ s') (le' : t ≤ t') :
    s.union t ≤ s'.union t' := by
  refine ⟨le.1, fun i mem => ?_⟩
  rw [contains_union, Bool.or_eq_true, Bool.and_eq_true] at *
  exact mem.imp (le.2 i) fun ⟨lt, other⟩ => ⟨le.1 ▸ lt, le'.2 i other⟩

/-- A difference grows with the set that is subtracted from. -/
theorem subtract_le_subtract {s s' : BitSet} (le : s ≤ s') (t : BitSet) :
    s.subtract t ≤ s'.subtract t := by
  refine ⟨le.1, fun i mem => ?_⟩
  rw [contains_subtract, Bool.and_eq_true] at *
  exact mem.imp_left (le.2 i)

/-- A set that grows has less room. -/
theorem room_lt_of_le {s t : BitSet} (le : s ≤ t) (ne : t ≠ s) : t.room < s.room := by
  obtain ⟨i, new, old⟩ : ∃ i, t.contains i = true ∧ s.contains i = false := by
    apply Classical.byContradiction
    intro none
    refine ne (ext_contains le.1.symm fun i _ => Bool.eq_iff_iff.2 ⟨fun mem => ?_, le.2 i⟩)
    cases old : s.contains i with
    | true => rfl
    | false => exact absurd ⟨i, mem, old⟩ none
  have fewer : t.missing = s.missing.filter fun i => !t.contains i := by
    unfold missing
    rw [List.filter_filter, le.1]
    refine List.filter_congr fun j _ => ?_
    cases mem : s.contains j with
    | false => rw [Bool.not_false, Bool.and_true]
    | true => rw [le.2 j mem, Bool.not_true, Bool.and_false]
  have lt : i < s.width := le.1 ▸ lt_width new
  unfold room
  rw [fewer]
  refine List.length_filter_lt_length_iff_exists.mpr ⟨i, ?_, ?_⟩
  · simp [missing, lt, old]
  · simp [new]

end BitSet

end ObjectBackend
