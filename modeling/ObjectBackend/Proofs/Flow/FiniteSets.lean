import Mathlib.Data.Finset.Card
import ObjectBackend.Flow.BitSet

/-!
# Finite sets of numbers

Bit sets stand for finite sets. Whatever numbers below a capacity several sets of this capacity
gain and lose, one by one or by the members of each other, each bit set contains just the members
of the finite set that the same changes lead to, and counts, lists and compares as this set does
(`NumberSets.Lawful.tracks_run`). This holds of bit sets that are one bit vector, as it does of a
list of words of 64 bits, where each operation goes from word to word (`WordSet`): the two are taken
together in `BitSet.finite_sets`.
-/

namespace ObjectBackend

/-- The operations that change sets of numbers, for some representation of the sets. -/
structure SetOperations (σ : Type) where
  insert : σ → Nat → σ
  erase : σ → Nat → σ
  union : σ → σ → σ
  subtract : σ → σ → σ

/-- A change of one of several sets, which are told apart by numbers. -/
inductive SetChange where
  | insert (target i : Nat)
  | erase (target i : Nat)
  | union (target source : Nat)
  | subtract (target source : Nat)

namespace SetChange

/-- The set that is changed. -/
def target : SetChange → Nat
  | insert target _ | erase target _ | union target _ | subtract target _ => target

variable {σ : Type}

/-- What the set that is changed becomes. -/
def value (ops : SetOperations σ) (sets : Nat → σ) : SetChange → σ
  | insert target i => ops.insert (sets target) i
  | erase target i => ops.erase (sets target) i
  | union target source => ops.union (sets target) (sets source)
  | subtract target source => ops.subtract (sets target) (sets source)

/-- The sets after a change. -/
def apply (ops : SetOperations σ) (sets : Nat → σ) (change : SetChange) : Nat → σ :=
  Function.update sets change.target (change.value ops sets)

/-- The sets after several changes, from empty ones. -/
def run (ops : SetOperations σ) (empty : σ) (changes : List SetChange) : Nat → σ :=
  changes.foldl (apply ops) fun _ => empty

/-- A number that is inserted lies below the capacity. -/
def Fits (capacity : Nat) : SetChange → Prop
  | insert _ i => i < capacity
  | _ => True

end SetChange

/-- A representation of sets of numbers. -/
structure NumberSets (σ : Type) extends SetOperations σ where
  empty : σ
  contains : σ → Nat → Bool
  /-- Whether a union with another set has changed the set. -/
  grows : σ → σ → Bool
  size : σ → Nat
  isEmpty : σ → Bool
  toList : σ → List Nat

/-- The operations on finite sets. -/
def finsetOperations : SetOperations (Finset Nat) where
  insert s i := insert i s
  erase := Finset.erase
  union := (· ∪ ·)
  subtract := (· \ ·)

namespace NumberSets

/-- The represented sets after several changes, from empty ones. -/
def run {σ : Type} (impl : NumberSets σ) : List SetChange → Nat → σ :=
  SetChange.run impl.toSetOperations impl.empty

variable {σ : Type} {impl : NumberSets σ} {capacity bound : Nat} {Valid : σ → Prop}

/-- Represented sets answer all questions as finite sets do. -/
structure Tracks (impl : NumberSets σ) (sets : Nat → σ) (members : Nat → Finset Nat) : Prop where
  contains : ∀ a i, impl.contains (sets a) i = true ↔ i ∈ members a
  grows : ∀ a b, impl.grows (sets a) (sets b) = true ↔ members a ⊂ members a ∪ members b
  size : ∀ a, impl.size (sets a) = (members a).card
  isEmpty : ∀ a, impl.isEmpty (sets a) = true ↔ members a = ∅
  ascending : ∀ a, (impl.toList (sets a)).Pairwise (· < ·)
  toList : ∀ a, (impl.toList (sets a)).toFinset = members a
  eq_iff : ∀ a b, sets a = sets b ↔ members a = members b

/-- The laws of a representation of sets with some capacity, by what its valid sets contain. -/
structure Lawful (impl : NumberSets σ) (capacity bound : Nat) (Valid : σ → Prop) : Prop where
  empty : Valid impl.empty ∧ ∀ i, impl.contains impl.empty i = false
  insert : ∀ {s i}, Valid s → i < capacity → Valid (impl.insert s i) ∧
    ∀ j, impl.contains (impl.insert s i) j = (impl.contains s j || decide (j = i))
  erase : ∀ {s i}, Valid s → Valid (impl.erase s i) ∧
    ∀ j, impl.contains (impl.erase s i) j = (impl.contains s j && !decide (j = i))
  union : ∀ {s t}, Valid s → Valid t → Valid (impl.union s t) ∧
    ∀ j, impl.contains (impl.union s t) j = (impl.contains s j || impl.contains t j)
  subtract : ∀ {s t}, Valid s → Valid t → Valid (impl.subtract s t) ∧
    ∀ j, impl.contains (impl.subtract s t) j = (impl.contains s j && !impl.contains t j)
  bounded : ∀ {s i}, Valid s → impl.contains s i = true → i < bound
  ext : ∀ {s t}, Valid s → Valid t → (∀ i, impl.contains s i = impl.contains t i) → s = t
  grows : ∀ {s t}, Valid s → Valid t → (impl.grows s t = true ↔ impl.union s t ≠ s)
  toList : ∀ {s}, Valid s → impl.toList s = (List.range bound).filter (impl.contains s)
  size : ∀ {s}, Valid s → impl.size s = (impl.toList s).length
  isEmpty : ∀ {s}, Valid s → (impl.isEmpty s = true ↔ ∀ i, impl.contains s i = false)

/-- A valid set contains just the members of a finite set. -/
def Holds (impl : NumberSets σ) (Valid : σ → Prop) (s : σ) (m : Finset Nat) : Prop :=
  Valid s ∧ ∀ i, impl.contains s i = true ↔ i ∈ m

namespace Lawful

variable (lawful : Lawful impl capacity bound Valid)
include lawful

/-- What a set becomes by a change contains the members that the finite set comes to have. -/
lemma holds_value {sets : Nat → σ} {members : Nat → Finset Nat}
    (holds : ∀ a, Holds impl Valid (sets a) (members a)) {change : SetChange}
    (fits : change.Fits capacity) :
    Holds impl Valid (change.value impl.toSetOperations sets)
      (change.value finsetOperations members) := by
  cases change with
  | insert target i =>
    obtain ⟨valid, contains⟩ := lawful.insert (holds target).1 fits
    refine ⟨valid, fun j => ?_⟩
    simp [SetChange.value, finsetOperations, contains, (holds target).2, or_comm]
  | erase target i =>
    obtain ⟨valid, contains⟩ := lawful.erase (i := i) (holds target).1
    refine ⟨valid, fun j => ?_⟩
    simp [SetChange.value, finsetOperations, contains, (holds target).2, and_comm]
  | union target source =>
    obtain ⟨valid, contains⟩ := lawful.union (holds target).1 (holds source).1
    refine ⟨valid, fun j => ?_⟩
    simp [SetChange.value, finsetOperations, contains, (holds target).2, (holds source).2]
  | subtract target source =>
    obtain ⟨valid, contains⟩ := lawful.subtract (holds target).1 (holds source).1
    refine ⟨valid, fun j => ?_⟩
    simp [SetChange.value, finsetOperations, contains, (holds target).2,
      ← Bool.not_eq_true, (holds source).2]

/-- A change that fits is made to the sets and to their members alike. -/
lemma holds_apply {sets : Nat → σ} {members : Nat → Finset Nat}
    (holds : ∀ a, Holds impl Valid (sets a) (members a)) {change : SetChange}
    (fits : change.Fits capacity) (a : Nat) :
    Holds impl Valid (change.apply impl.toSetOperations sets a)
      (change.apply finsetOperations members a) := by
  unfold SetChange.apply
  by_cases same : a = change.target
  · subst same
    rw [Function.update_self, Function.update_self]
    exact lawful.holds_value holds fits
  · rw [Function.update_of_ne same, Function.update_of_ne same]
    exact holds a

/-- After any changes, the sets contain the members of the finite sets. -/
lemma holds_foldl {sets : Nat → σ} {members : Nat → Finset Nat}
    (holds : ∀ a, Holds impl Valid (sets a) (members a)) {changes : List SetChange}
    (fits : ∀ change ∈ changes, change.Fits capacity) (a : Nat) :
    Holds impl Valid (changes.foldl (SetChange.apply impl.toSetOperations) sets a)
      (changes.foldl (SetChange.apply finsetOperations) members a) := by
  induction changes generalizing sets members with
  | nil => exact holds a
  | cons change changes ih =>
    obtain ⟨first, rest⟩ := List.forall_mem_cons.1 fits
    exact ih (lawful.holds_apply holds first) rest

variable {s t : σ} {m n : Finset Nat}

/-- Two sets are equal just if they have the same members. -/
lemma eq_iff (holds : Holds impl Valid s m) (holds' : Holds impl Valid t n) : s = t ↔ m = n := by
  constructor
  · rintro rfl
    ext i
    rw [← holds.2, holds'.2]
  · rintro rfl
    refine lawful.ext holds.1 holds'.1 fun i => ?_
    rw [Bool.eq_iff_iff, holds.2, holds'.2]

/-- A set grows by a union just if the other one has members that it has not. -/
lemma grows_iff (holds : Holds impl Valid s m) (holds' : Holds impl Valid t n) :
    impl.grows s t = true ↔ m ⊂ m ∪ n := by
  obtain ⟨valid, contains⟩ := lawful.union holds.1 holds'.1
  have union : Holds impl Valid (impl.union s t) (m ∪ n) :=
    ⟨valid, fun i => by simp [contains, holds.2, holds'.2]⟩
  rw [lawful.grows holds.1 holds'.1, Ne, lawful.eq_iff union holds,
    Finset.ssubset_iff_subset_ne, and_iff_right Finset.subset_union_left, ne_comm]

/-- The list of a set has its members. -/
lemma toFinset_toList (holds : Holds impl Valid s m) : (impl.toList s).toFinset = m := by
  ext i
  rw [lawful.toList holds.1, List.mem_toFinset, List.mem_filter, List.mem_range, holds.2]
  exact ⟨fun h => h.2, fun mem => ⟨lawful.bounded holds.1 ((holds.2 i).2 mem), mem⟩⟩

/-- The list of a set ascends. -/
lemma toList_ascending (holds : Holds impl Valid s m) : (impl.toList s).Pairwise (· < ·) := by
  rw [lawful.toList holds.1]
  exact List.pairwise_lt_range.filter _

/-- The size of a set is the number of its members. -/
lemma size_eq_card (holds : Holds impl Valid s m) : impl.size s = m.card := by
  have nodup : (impl.toList s).Nodup := (lawful.toList_ascending holds).imp Nat.ne_of_lt
  rw [lawful.size holds.1, ← List.toFinset_card_of_nodup nodup, lawful.toFinset_toList holds]

/-- A set is empty just if it has no members. -/
lemma isEmpty_iff (holds : Holds impl Valid s m) : impl.isEmpty s = true ↔ m = ∅ := by
  simp only [lawful.isEmpty holds.1, Finset.eq_empty_iff_forall_notMem, ← holds.2,
    Bool.not_eq_true]

/-- After any changes, sets that were empty answer all questions as the finite sets do. -/
lemma tracks_run {changes : List SetChange} (fits : ∀ change ∈ changes, change.Fits capacity) :
    Tracks impl (impl.run changes) (SetChange.run finsetOperations ∅ changes) := by
  have start : Holds impl Valid impl.empty ∅ :=
    ⟨lawful.empty.1, fun i => by simp [lawful.empty.2]⟩
  have holds := lawful.holds_foldl (fun _ => start) fits
  exact
    { contains := fun a => (holds a).2
      grows := fun a b => lawful.grows_iff (holds a) (holds b)
      size := fun a => lawful.size_eq_card (holds a)
      isEmpty := fun a => lawful.isEmpty_iff (holds a)
      ascending := fun a => lawful.toList_ascending (holds a)
      toList := fun a => lawful.toFinset_toList (holds a)
      eq_iff := fun a b => lawful.eq_iff (holds a) (holds b) }

end Lawful

end NumberSets

namespace BitSet

variable {s t : BitSet}

/-- Bit sets of some capacity. -/
def sets (capacity : Nat) : NumberSets BitSet where
  empty := empty capacity
  insert := insert
  erase := erase
  union := union
  subtract := subtract
  contains := contains
  grows s t := decide (s.union t ≠ s)
  size := size
  isEmpty := isEmpty
  toList := toList

/-- A bit vector is empty just if it contains nothing. -/
lemma isEmpty_iff : s.isEmpty = true ↔ ∀ i, s.contains i = false := by
  rw [isEmpty, beq_iff_eq]
  constructor
  · intro zero i
    simp [contains, zero]
  · exact fun none => BitVec.eq_of_getLsbD_eq fun i _ => (none i).trans (by simp)

/-- Bit vectors are finite sets of numbers, with room for each number of the capacity. -/
lemma sets_lawful (capacity : Nat) :
    (sets capacity).Lawful capacity (empty capacity).width fun s =>
      s.width = (empty capacity).width where
  empty := ⟨rfl, fun _ => contains_empty capacity _⟩
  insert {s i} width lt := by
    refine ⟨(width_insert ..).trans width, fun j => ?_⟩
    have fits := Nat.lt_of_lt_of_le lt (le_width_empty capacity)
    show (s.insert i).contains j = (s.contains j || decide (j = i))
    rw [contains_insert, width]
    by_cases same : i = j
    · subst same
      simp [fits]
    · simp [same, Ne.symm same]
  erase {s i} width := by
    refine ⟨(width_erase ..).trans width, fun j => ?_⟩
    show (s.erase i).contains j = _
    rw [contains_erase]
    simp [sets, eq_comm]
  union {s t} width width' := by
    refine ⟨width, fun j => ?_⟩
    show (s.union t).contains j = (s.contains j || t.contains j)
    rw [contains_union]
    cases mem : t.contains j with
    | false => simp
    | true => simp [width, ← width', lt_width mem]
  subtract width _ := ⟨width, contains_subtract _ _⟩
  bounded width mem := width ▸ lt_width mem
  ext width width' same := ext_contains (width.trans width'.symm) fun i _ => same i
  grows _ _ := decide_eq_true_iff
  toList {s} width := width ▸ toList_eq s
  size _ := rfl
  isEmpty _ := isEmpty_iff

end BitSet

/-- A set as a list of words: the word at a position tells of the 64 numbers from 64 times the
position on. -/
structure WordSet where
  words : List (BitVec 64)
deriving DecidableEq

namespace WordSet

/-- No numbers, with as many words as there are begun for the numbers below a capacity. -/
def empty (capacity : Nat) : WordSet := ⟨List.replicate ((capacity + 63) / 64) 0#64⟩

/-- Set the bit of a number, if there is a word for it. -/
def insert (s : WordSet) (i : Nat) : WordSet :=
  ⟨s.words.modify (i / 64) (· ||| BitVec.twoPow 64 (i % 64))⟩

/-- Clear the bit of a number, if there is a word for it. -/
def erase (s : WordSet) (i : Nat) : WordSet :=
  ⟨s.words.modify (i / 64) (· &&& ~~~BitVec.twoPow 64 (i % 64))⟩

/-- Whether there is a word for a number that has its bit. -/
def contains (s : WordSet) (i : Nat) : Bool :=
  s.words[i / 64]?.any fun word => word &&& BitVec.twoPow 64 (i % 64) != 0#64

/-- Change each word according to another one, as far as there are other words, and tell whether a
word has become a different one. -/
def onWords (f : BitVec 64 → BitVec 64 → BitVec 64) :
    List (BitVec 64) → List (BitVec 64) → List (BitVec 64) × Bool
  | word :: words, theirs :: others =>
    let merged := f word theirs
    let (rest, changed) := onWords f words others
    (merged :: rest, merged != word || changed)
  | words, _ => (words, false)

/-- Add the members of another set, and tell whether the set has changed. -/
def union (s t : WordSet) : WordSet × Bool :=
  let (words, changed) := onWords (· ||| ·) s.words t.words
  (⟨words⟩, changed)

/-- Remove the members of another set. -/
def subtract (s t : WordSet) : WordSet := ⟨(onWords (· &&& ~~~·) s.words t.words).1⟩

/-- The number of ones in all words. -/
def size (s : WordSet) : Nat :=
  s.words.foldl (fun n word => n + (List.range 64).countP word.getLsbD) 0

/-- Whether all words are zero. -/
def isEmpty (s : WordSet) : Bool := s.words.all (· == 0#64)

/-- The members, word by word. -/
def toList (s : WordSet) : List Nat :=
  s.words.zipIdx.flatMap fun (word, k) =>
    ((List.range 64).filter fun bit => word &&& BitVec.twoPow 64 bit != 0#64).map (k * 64 + ·)

/-- Sets of words for some capacity. -/
def sets (capacity : Nat) : NumberSets WordSet where
  empty := empty capacity
  insert := insert
  erase := erase
  union s t := (s.union t).1
  subtract := subtract
  contains := contains
  grows s t := (s.union t).2
  size := size
  isEmpty := isEmpty
  toList := toList

variable {s t : WordSet} {i j : Nat} {word : BitVec 64} {words others : List (BitVec 64)}

/-- A word has a bit if the word with only this bit has something in common with it. -/
lemma and_twoPow_ne_zero (lt : i < 64) :
    (word &&& BitVec.twoPow 64 i != 0#64) = word.getLsbD i := by
  have one : (BitVec.twoPow 64 i).getLsbD i = true := by simp [lt]
  have nonzero : BitVec.twoPow 64 i ≠ 0#64 := fun zero => by simp [zero] at one
  rw [BitVec.and_twoPow]
  cases word.getLsbD i with
  | false => rfl
  | true => exact bne_iff_ne.2 nonzero

/-- A number is in a set of words if its bit of its word is set. -/
lemma contains_eq (s : WordSet) (i : Nat) :
    s.contains i = s.words[i / 64]?.any (·.getLsbD (i % 64)) := by
  simp only [contains, and_twoPow_ne_zero (Nat.mod_lt i (by decide : 64 > 0))]

/-- Numbers of one word are told apart by their bits. -/
lemma mod_eq_iff (same : i / 64 = j / 64) : j % 64 = i % 64 ↔ j = i := by omega

/-- What is in a set after an insertion: what was, and the number if there is a word for it. -/
lemma contains_insert (s : WordSet) (i j : Nat) :
    (s.insert i).contains j =
      (s.contains j || (decide (j / 64 < s.words.length) && decide (j = i))) := by
  have small : j % 64 < 64 := Nat.mod_lt j (by decide)
  rw [contains_eq, contains_eq, insert, List.getElem?_modify]
  by_cases same : i / 64 = j / 64
  · simp only [if_pos same]
    cases at' : s.words[j / 64]? with
    | none => simp [List.getElem?_eq_none_iff.1 at']
    | some word =>
      obtain ⟨lt, _⟩ := List.getElem?_eq_some_iff.1 at'
      simp [small, lt, mod_eq_iff same]
  · have ne : j ≠ i := fun eq => same (by rw [eq])
    simp [same, ne]

/-- What is in a set after a removal: what was, but for the number. -/
lemma contains_erase (s : WordSet) (i j : Nat) :
    (s.erase i).contains j = (s.contains j && !decide (j = i)) := by
  have small : j % 64 < 64 := Nat.mod_lt j (by decide)
  rw [contains_eq, contains_eq, erase, List.getElem?_modify]
  by_cases same : i / 64 = j / 64
  · simp only [if_pos same]
    cases s.words[j / 64]? with
    | none => rfl
    | some word => simp [small, mod_eq_iff same]
  · have ne : j ≠ i := fun eq => same (by rw [eq])
    simp [same, ne]

section OnWords

variable {f : BitVec 64 → BitVec 64 → BitVec 64}

/-- An operation on words is made word by word, missing ones of the other set being zero. -/
lemma getElem?_onWords (keeps : ∀ word, f word 0#64 = word) (k : Nat) :
    (onWords f words others).1[k]? = words[k]?.map fun word => f word (others[k]?.getD 0#64) := by
  induction words generalizing others k with
  | nil => simp [onWords]
  | cons word words ih =>
    cases others with
    | nil => simp [onWords, keeps]
    | cons theirs others =>
      cases k with
      | zero => rfl
      | succ k => exact ih k

/-- An operation on words keeps how many there are. -/
lemma length_onWords : (onWords f words others).1.length = words.length := by
  induction words generalizing others with
  | nil => simp [onWords]
  | cons word words ih =>
    cases others with
    | nil => rfl
    | cons theirs others => exact congrArg Nat.succ ih

/-- A word has become a different one just if the list of words has. -/
lemma onWords_snd_iff : (onWords f words others).2 = true ↔ (onWords f words others).1 ≠ words := by
  induction words generalizing others with
  | nil => simp [onWords]
  | cons word words ih =>
    cases others with
    | nil => simp [onWords]
    | cons theirs others =>
      simp only [onWords, Bool.or_eq_true, bne_iff_ne, ih, Ne, List.cons.injEq]
      tauto

end OnWords

/-- What is in a union of sets of equally many words. -/
lemma contains_union (same : s.words.length = t.words.length) (i : Nat) :
    (s.union t).1.contains i = (s.contains i || t.contains i) := by
  have words : (s.union t).1.words = (onWords (· ||| ·) s.words t.words).1 := rfl
  rw [contains_eq, contains_eq, contains_eq, words, getElem?_onWords (by simp)]
  cases at' : s.words[i / 64]? with
  | none =>
    have none : t.words[i / 64]? = none :=
      List.getElem?_eq_none_iff.2 (same ▸ List.getElem?_eq_none_iff.1 at')
    simp [none]
  | some word => cases t.words[i / 64]? <;> simp

/-- What is in a difference of sets. -/
lemma contains_subtract (s t : WordSet) (i : Nat) :
    (s.subtract t).contains i = (s.contains i && !t.contains i) := by
  have small : i % 64 < 64 := Nat.mod_lt i (by decide)
  have keeps (word : BitVec 64) : word &&& ~~~0#64 = word := by
    rw [BitVec.not_zero, BitVec.and_allOnes]
  rw [contains_eq, contains_eq, contains_eq, subtract, getElem?_onWords keeps]
  cases s.words[i / 64]? with
  | none => rfl
  | some word =>
    cases t.words[i / 64]? with
    | none => rw [Option.map_some, Option.getD_none, keeps, Option.any_none, Bool.not_false,
        Bool.and_true]
    | some theirs => simp [small]

/-- What is in a set is below its width. -/
lemma lt_of_contains (mem : s.contains i = true) : i < 64 * s.words.length := by
  rw [contains_eq, Option.any_eq_true] at mem
  obtain ⟨word, at', _⟩ := mem
  obtain ⟨lt, _⟩ := List.getElem?_eq_some_iff.1 at'
  omega

/-- The bits of a word are the members in its range. -/
lemma contains_of_getElem? {k : Nat} (at' : s.words[k]? = some word) (lt : j < 64) :
    s.contains (64 * k + j) = word.getLsbD j := by
  have quotient : (64 * k + j) / 64 = k := by omega
  have remainder : (64 * k + j) % 64 = j := by omega
  rw [contains_eq, quotient, remainder, at', Option.any_some]

/-- Sets of equally many words that contain the same numbers are equal. -/
lemma ext_contains (length : s.words.length = t.words.length)
    (same : ∀ i, s.contains i = t.contains i) : s = t := by
  obtain ⟨words⟩ := s
  obtain ⟨words'⟩ := t
  refine congrArg WordSet.mk (List.ext_getElem length fun k lt lt' => ?_)
  refine BitVec.eq_of_getLsbD_eq fun j small => ?_
  rw [← contains_of_getElem? (s := ⟨words⟩) (List.getElem?_eq_getElem lt) small,
    ← contains_of_getElem? (s := ⟨words'⟩) (List.getElem?_eq_getElem lt') small, same]

/-- A set of words is empty just if it contains nothing. -/
lemma isEmpty_iff : s.isEmpty = true ↔ ∀ i, s.contains i = false := by
  simp only [isEmpty, List.all_eq_true, beq_iff_eq]
  constructor
  · intro zero i
    rw [contains_eq]
    cases at' : s.words[i / 64]? with
    | none => rfl
    | some word => simp [zero word (List.mem_of_getElem? at')]
  · intro none word mem
    obtain ⟨k, at'⟩ := List.mem_iff_getElem?.1 mem
    refine BitVec.eq_of_getLsbD_eq fun j small => ?_
    rw [← contains_of_getElem? at' small, none]
    simp

section Concat

/-- The list of a set with one more word ends with the numbers of that word. -/
lemma toList_concat (words : List (BitVec 64)) (word : BitVec 64) :
    toList ⟨words ++ [word]⟩ =
      toList ⟨words⟩ ++ ((List.range 64).filter word.getLsbD).map (64 * words.length + ·) := by
  have bits : ((List.range 64).filter fun bit => word &&& BitVec.twoPow 64 bit != 0#64) =
      (List.range 64).filter word.getLsbD :=
    List.filter_congr fun i mem => and_twoPow_ne_zero (List.mem_range.1 mem)
  simp only [toList, List.zipIdx_append, List.flatMap_append, Nat.zero_add]
  simp [bits, Nat.mul_comm]

/-- The size of a set with one more word counts the bits of that word besides. -/
lemma size_concat (words : List (BitVec 64)) (word : BitVec 64) :
    size ⟨words ++ [word]⟩ = size ⟨words⟩ + (List.range 64).countP word.getLsbD :=
  List.foldl_concat ..

/-- The members are the numbers that the words tell of and that the set contains. -/
lemma toList_eq (s : WordSet) :
    s.toList = (List.range (64 * s.words.length)).filter s.contains := by
  obtain ⟨words⟩ := s
  induction words using List.reverseRecOn with
  | nil => rfl
  | append_singleton words word ih =>
    have before : (List.range (64 * words.length)).filter (contains ⟨words ++ [word]⟩) =
        (List.range (64 * words.length)).filter (contains ⟨words⟩) := by
      refine List.filter_congr fun i mem => ?_
      have lt : i / 64 < words.length := by
        have := List.mem_range.1 mem
        omega
      rw [contains_eq, contains_eq, List.getElem?_append_left lt]
    have last : (List.range 64).filter
          (contains ⟨words ++ [word]⟩ ∘ (64 * words.length + ·)) =
        (List.range 64).filter word.getLsbD :=
      List.filter_congr fun j mem =>
        contains_of_getElem? List.getElem?_concat_length (List.mem_range.1 mem)
    have length : 64 * (words ++ [word]).length = 64 * words.length + 64 := by
      rw [List.length_append, List.length_singleton]
      omega
    rw [toList_concat, ih, length, List.range_add, List.filter_append, before, List.filter_map,
      last]

/-- The ones in all words are as many as the members. -/
lemma size_eq (s : WordSet) : s.size = s.toList.length := by
  obtain ⟨words⟩ := s
  induction words using List.reverseRecOn with
  | nil => rfl
  | append_singleton words word ih =>
    rw [size_concat, toList_concat, ih, List.length_append, List.length_map,
      List.countP_eq_length_filter]

end Concat

/-- Sets of words are finite sets of numbers too, the capacity being rounded up to whole words. -/
lemma sets_lawful (capacity : Nat) :
    (sets capacity).Lawful capacity (64 * ((capacity + 63) / 64)) fun s =>
      s.words.length = (capacity + 63) / 64 where
  empty := by
    refine ⟨List.length_replicate, fun i => isEmpty_iff.1 ?_ i⟩
    simp [sets, isEmpty, empty]
  insert {s i} length lt := by
    refine ⟨(List.length_modify ..).trans length, fun j => ?_⟩
    show (s.insert i).contains j = (s.contains j || decide (j = i))
    rw [contains_insert, length]
    by_cases same : j = i
    · subst same
      have fits : j / 64 < (capacity + 63) / 64 := by omega
      simp [fits]
    · simp [same]
  erase length := ⟨(List.length_modify ..).trans length, contains_erase _ _⟩
  union length length' :=
    ⟨length_onWords.trans length, contains_union (length.trans length'.symm)⟩
  subtract length _ := ⟨length_onWords.trans length, contains_subtract _ _⟩
  bounded length mem := length ▸ lt_of_contains mem
  ext length length' same := ext_contains (length.trans length'.symm) same
  grows {s t} _ _ := onWords_snd_iff.trans (not_congr ⟨congrArg WordSet.mk, congrArg words⟩)
  toList {s} length := length ▸ toList_eq s
  size _ := size_eq _
  isEmpty _ := isEmpty_iff

end WordSet

/-- Bit sets are finite sets: after any insertions, removals, unions and subtractions of sets that
were empty, if only numbers below the capacity have been inserted, they contain, count and list in
ascending order just the members of the finite sets after the same operations, are equal just if
these are, and a union tells whether the set has grown. So do the sets of words. -/
theorem BitSet.finite_sets {capacity : Nat} {changes : List SetChange}
    (fits : ∀ change ∈ changes, change.Fits capacity) :
    NumberSets.Tracks (BitSet.sets capacity) ((BitSet.sets capacity).run changes)
        (SetChange.run finsetOperations ∅ changes) ∧
      NumberSets.Tracks (WordSet.sets capacity) ((WordSet.sets capacity).run changes)
        (SetChange.run finsetOperations ∅ changes) :=
  ⟨(BitSet.sets_lawful capacity).tracks_run fits, (WordSet.sets_lawful capacity).tracks_run fits⟩

/-- Changes of three sets with members at the ends of words, the last of them only partly used. -/
def wordEnds : List SetChange :=
  [.insert 0 3, .insert 0 129, .erase 0 3, .insert 1 129, .insert 1 63, .insert 1 64, .union 2 1,
    .subtract 2 0]

/-- A set that is united with one that has more members grows, and the other one does not. What the
two do not share lies in different words. -/
theorem BitSet.wordEnds_tracked :
    (∀ change ∈ wordEnds, change.Fits 130) ∧
      ((sets 130).run wordEnds 0).union ((sets 130).run wordEnds 1) ≠ (sets 130).run wordEnds 0 ∧
      ((sets 130).run wordEnds 1).union ((sets 130).run wordEnds 0) = (sets 130).run wordEnds 1 ∧
      ((sets 130).run wordEnds 2).toList.toFinset = {63, 64} ∧
      ((WordSet.sets 130).run wordEnds 2).size = 2 := by
  have fits : ∀ change ∈ wordEnds, change.Fits 130 := by
    simp [wordEnds, SetChange.Fits]
  obtain ⟨bits, words⟩ := finite_sets fits
  refine ⟨fits, ?_, ?_, ?_, ?_⟩
  · exact of_decide_eq_true ((bits.grows 0 1).2 (by decide))
  · by_contra grows
    exact absurd ((bits.grows 1 0).1 (decide_eq_true grows)) (by decide)
  · have members : SetChange.run finsetOperations ∅ wordEnds 2 = {63, 64} := by decide
    exact (bits.toList 2).trans members
  · have count : (SetChange.run finsetOperations ∅ wordEnds 2).card = 2 := by decide
    exact (words.size 2).trans count

end ObjectBackend
