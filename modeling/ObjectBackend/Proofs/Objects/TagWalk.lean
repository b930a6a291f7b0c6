import Mathlib.Tactic.Tauto
import ObjectBackend.Proofs.Objects.Numbering

/-!
# What the walk numbers

The walk enters the classes in the order of their lines of descent. When its turn comes to a visit
on the stack, just those classes have been numbered whose lines come before that visit
(`TagWalk.Covers`): before the line of a class that is entered, and before the end of its range for
a class that is left. A step keeps this, as every line that goes on from the line of a class does so
through a child, and the children stand on the stack in the order of their names. So the bounds that
are noted are counts of lines, and the ranges of two classes are disjoint or one holds the other.

The walk comes just to the grounded classes. If all classes are grounded, it gives each of them the
range of its line among all lines (`TagWalk.lookup_ranges`).
-/

namespace ObjectBackend

namespace TagMap

variable {a line names before after : List String} {x y : String}

/-- Lines are compared by the first names in which they differ. -/
lemma append_cons_lt (less : x < y) (b c : List String) : a ++ x :: b < a ++ y :: c := by
  induction a with
  | nil => exact List.Lex.rel less
  | cons z a ih => exact List.Lex.cons ih

/-- Whether a line comes before those that go on from `a` by other names than some. -/
def Passed (a names line : List String) : Prop :=
  line < a ∨ line = a ∨ ∃ x ∈ names, a ++ [x] <+: line

/-- A name more lets the lines pass that go on by it. -/
lemma passed_concat : Passed a (names ++ [x]) line ↔ Passed a names line ∨ a ++ [x] <+: line := by
  simp only [Passed, List.mem_append, List.mem_singleton, or_and_right, exists_or,
    exists_eq_left, or_assoc]

/-- If lines go on from `a` by some names only, all those that go on from it come before the end of
its range. -/
lemma passed_iff_precedesEnd
    (branches : a <+: line → line ≠ a → ∃ y ∈ names, a ++ [y] <+: line) :
    Passed a names line ↔ precedesEnd a line = true := by
  rw [precedesEnd_iff, Passed]
  constructor
  · rintro (less | rfl | ⟨x, _, onward⟩)
    · exact .inl less
    · exact .inr List.prefix_rfl
    · exact .inr ((List.prefix_append ..).trans onward)
  · rintro (less | onward)
    · exact .inl less
    · by_cases same : line = a
      · exact .inr (.inl same)
      · exact .inr (.inr (branches onward same))

/-- If lines go on from `a` by sorted names only, those that come before one of the names are those
that go on by the names before it. -/
lemma passed_iff_lt (sorted : (before ++ x :: after).Pairwise (· < ·))
    (branches : a <+: line → line ≠ a → ∃ y ∈ before ++ x :: after, a ++ [y] <+: line) :
    Passed a before line ↔ line < a ++ [x] := by
  obtain ⟨-, later, earlier⟩ := List.pairwise_append.1 sorted
  have longer : a < a ++ [x] := lt_of_le_of_ne (le_of_isPrefix (List.prefix_append ..)) (by simp)
  constructor
  · rintro (less | rfl | ⟨y, mem, rest, rfl⟩)
    · exact less.trans longer
    · exact longer
    · rw [List.append_assoc]
      exact append_cons_lt (earlier y mem x (List.mem_cons_self ..)) rest []
  · intro less
    rcases lt_trichotomy line a with less' | same | greater
    · exact .inl less'
    · exact .inr (.inl same)
    -- what lies between a line and one that goes on from it goes on from it too
    have onward := isPrefix_of_between greater.le less.le (List.prefix_append ..)
    obtain ⟨y, mem, rest, rfl⟩ := branches onward greater.ne'
    rw [List.append_assoc] at less
    rcases List.mem_append.1 mem with mem | mem
    · exact .inr (.inr ⟨y, mem, List.prefix_append ..⟩)
    rcases List.mem_cons.1 mem with rfl | mem
    · exact absurd (le_of_isPrefix (a := a ++ [y]) ⟨rest, List.append_assoc ..⟩) (not_le_of_gt less)
    · exact absurd (append_cons_lt ((List.pairwise_cons.1 later).1 y mem) [] rest) (lt_asymm less)

end TagMap

open TagMap

namespace Program

variable {p : Program} {link : Option String}

/-- The names of the classes that have a parent link are sorted, without repetitions. -/
lemma linked_sorted (p : Program) (link : Option String) :
    (p.linked link).Pairwise (· < ·) := by
  have sorted : (p.linked link).Pairwise (· ≤ ·) := by
    refine (List.pairwise_mergeSort ?_ ?_ _).imp of_decide_eq_true
    · simpa using fun _ _ _ => String.le_trans
    · simpa using fun _ _ => String.le_total ..
  exact (sorted.and (p.nodup_linked link)).imp fun both => lt_of_le_of_ne both.1 both.2

/-- The classes that the walk comes to. -/
def groundedClasses (p : Program) : List ClassDef :=
  p.concreteClasses.filter fun c => p.isGrounded c.name

/-- The classes that the walk comes to are the grounded ones. -/
lemma mem_groundedClasses {c : ClassDef} : c ∈ p.groundedClasses ↔ p.Grounded c := by
  rw [groundedClasses, List.mem_filter]
  constructor
  · rintro ⟨mem, grounded⟩
    exact (Grounded.isGrounded_iff mem).1 grounded
  · intro grounded
    exact ⟨grounded.mem_concreteClasses,
      (Grounded.isGrounded_iff grounded.mem_concreteClasses).2 grounded⟩

/-- What begins the line of descent of a grounded class, and is the line of a parent link, goes on
to it by the name of a class with this link. -/
lemma Grounded.exists_mem_linked {c : ClassDef} (grounded : p.Grounded c) (link : Option String)
    (declared : ∀ n ∈ link, ∃ d ∈ p.classes, d.name = n)
    (begins : p.above link <+: p.descent c.name) (ne : p.descent c.name ≠ p.above link) :
    ∃ y ∈ p.linked link, p.above link ++ [y] <+: p.descent c.name := by
  obtain ⟨d, grounded', linked, onward⟩ := grounded.exists_linked link declared begins ne.symm
  exact ⟨d.name, mem_linked.2 ⟨d, grounded'.mem_concreteClasses, linked, rfl⟩, onward⟩

/-- Each of the classes that the walk comes to has a name of its own. -/
lemma nodup_groundedClasses (p : Program) : (p.groundedClasses.map (·.name)).Nodup :=
  p.nodup.sublist ((List.filter_sublist.trans List.filter_sublist).map _)

/-- If one more name is counted, one more class is. -/
lemma countP_cons {cs : List ClassDef} (nodup : (cs.map (·.name)).Nodup) {c : ClassDef}
    (mem : c ∈ cs) {names : List String} (new : c.name ∉ names) :
    (cs.countP fun d => d.name ∈ c.name :: names) = (cs.countP fun d => d.name ∈ names) + 1 := by
  obtain ⟨before, after, rfl⟩ := List.append_of_mem mem
  rw [List.map_append, List.map_cons, List.nodup_middle, List.nodup_cons] at nodup
  have others : ∀ ds : List ClassDef, (∀ d ∈ ds, d.name ≠ c.name) →
      (ds.countP fun d => d.name ∈ c.name :: names) = ds.countP fun d => d.name ∈ names := by
    intro ds other
    refine List.countP_congr fun d mem => ?_
    simp [other d mem]
  have first := others before fun d mem eq =>
    nodup.1 (eq ▸ List.mem_append_left _ (List.mem_map_of_mem mem))
  have last := others after fun d mem eq =>
    nodup.1 (eq ▸ List.mem_append_right _ (List.mem_map_of_mem mem))
  rw [List.countP_append, List.countP_append, List.countP_cons_of_pos (by simp),
    List.countP_cons_of_neg (by simpa using new), first, last, Nat.add_assoc]

/-- The range of a class with a line of descent, as counts of lines. -/
def rangeAmong (p : Program) (line : List String) : TagRange :=
  { lower := p.groundedClasses.countP fun c => decide (p.descent c.name < line)
    upper := p.groundedClasses.countP fun c => precedesEnd line (p.descent c.name) }

end Program

/-- A class has been numbered when its turn comes to a visit. -/
def Visit.Begun (p : Program) (c : ClassDef) : Visit → Prop
  | enter n => p.descent c.name < p.descent n
  | leave n => precedesEnd (p.descent n) (p.descent c.name) = true

/-- A class has been numbered when a visit and all that it leads to is over. -/
def Visit.Over (p : Program) (c : ClassDef) : Visit → Prop
  | enter n | leave n => precedesEnd (p.descent n) (p.descent c.name) = true

namespace TagWalk

variable {p : Program} {w next : TagWalk} {stack : List Visit} {name : String}

/-- A stack leads to all classes that have not been numbered, each visit to those between its begin
and its end. -/
def Covers (p : Program) : List Visit → (ClassDef → Prop) → Prop
  | [], numbered => ∀ c, p.Grounded c → numbered c
  | v :: stack, numbered =>
    (∀ c, p.Grounded c → (numbered c ↔ v.Begun p c)) ∧ Covers p stack (v.Over p ·)

/-- It matters only which of the grounded classes have been numbered. -/
lemma Covers.congr {numbered numbered' : ClassDef → Prop} (covers : Covers p stack numbered)
    (same : ∀ c, p.Grounded c → (numbered c ↔ numbered' c)) : Covers p stack numbered' := by
  cases stack with
  | nil => exact fun c grounded => (same c grounded).1 (covers c grounded)
  | cons v stack =>
    exact ⟨fun c grounded => (same c grounded).symm.trans (covers.1 c grounded), covers.2⟩

/-- The classes with one parent link cover what goes on from the line that the link stands for, if
they stand on the stack in the order of their names. -/
lemma covers_linked (link : Option String) (declared : ∀ n ∈ link, ∃ d, p.Grounded d ∧ d.name = n)
    (before : List String) {after : List String} (split : p.linked link = before ++ after)
    (rest : Covers p stack fun c => Passed (p.above link) (p.linked link) (p.descent c.name)) :
    Covers p (after.map Visit.enter ++ stack)
      fun c => Passed (p.above link) before (p.descent c.name) := by
  induction after generalizing before with
  | nil =>
    rw [split, List.append_nil] at rest
    exact rest
  | cons x after ih =>
    have known : ∀ n ∈ link, ∃ d ∈ p.classes, d.name = n := fun n eq =>
      have ⟨d, grounded, named⟩ := declared n eq
      ⟨d, grounded.mem_classes, named⟩
    have line : p.descent x = p.above link ++ [x] := by
      obtain ⟨c, mem, parent, rfl⟩ := Program.mem_linked.1
        (split ▸ List.mem_append_right _ (List.mem_cons_self ..) : x ∈ p.linked link)
      have grounded : p.Grounded c := by
        cases link with
        | none => exact .root mem parent
        | some n =>
          obtain ⟨d, grounded, rfl⟩ := declared n rfl
          exact .of_parent mem parent grounded
      rw [grounded.descent_eq, parent]
    have begun : ∀ c, p.Grounded c →
        (Passed (p.above link) before (p.descent c.name) ↔ p.descent c.name < p.descent x) := by
      intro c grounded
      rw [line]
      refine passed_iff_lt (split ▸ p.linked_sorted link) ?_
      rw [← split]
      exact grounded.exists_mem_linked link known
    refine ⟨begun, (ih (before ++ [x]) (by simp [split])).congr fun c grounded => ?_⟩
    rw [passed_concat, begun c grounded, ← line]
    exact precedesEnd_iff.symm

/-- All classes that are not below another one are covered by the roots. -/
lemma covers_roots (p : Program) : Covers p (p.roots.map Visit.enter) fun _ => False := by
  have rest : Covers p [] fun c => Passed (p.above none) p.roots (p.descent c.name) := by
    intro c grounded
    have line := Program.descent_ne_nil grounded.mem_classes
    exact .inr (.inr (grounded.exists_mem_linked none (fun _ eq => nomatch eq)
      List.nil_prefix line))
  have covers := covers_linked none (fun _ eq => nomatch eq) [] (List.nil_append p.roots).symm rest
  rw [List.append_nil] at covers
  refine covers.congr fun c grounded => ?_
  have line := Program.descent_ne_nil grounded.mem_classes
  simp [Passed, Program.above, line]

/-- When a class is entered, its children and what is left to do with it cover what it covered, but
the class itself. -/
lemma Covers.enter {d : ClassDef} {numbered : ClassDef → Prop} (known : p.Grounded d)
    (covers : Covers p (.enter d.name :: stack) numbered) :
    Covers p ((p.children d.name).map .enter ++ .leave d.name :: stack)
      fun c => numbered c ∨ c.name = d.name := by
  have rest : Covers p (.leave d.name :: stack) fun c =>
      Passed (p.descent d.name) (p.children d.name) (p.descent c.name) := by
    refine ⟨fun c grounded => passed_iff_precedesEnd ?_, covers.2⟩
    exact grounded.exists_mem_linked (some d.name)
      fun n eq => ⟨d, known.mem_classes, Option.some.inj eq⟩
  have below := covers_linked (some d.name) (fun n eq => ⟨d, known, Option.some.inj eq⟩) []
    (List.nil_append (p.children d.name)).symm rest
  refine below.congr fun c grounded => ?_
  have same : p.descent c.name = p.descent d.name ↔ c.name = d.name :=
    ⟨fun eq => congrArg _ (Program.eq_of_descent_eq grounded.mem_classes known.mem_classes eq),
      congrArg _⟩
  have begun : numbered c ↔ p.descent c.name < p.descent d.name := covers.1 c grounded
  simp [Passed, Program.above, same, begun]

/-- What is known of a walk at each step. -/
structure Invariant (p : Program) (w : TagWalk) : Prop where
  valid : w.Valid p
  grounded : ∀ n ∈ w.waiting ++ w.entered, ∃ c, p.Grounded c ∧ c.name = n
  covers : Covers p w.stack fun c => c.name ∈ w.entered
  counter : w.counter = p.groundedClasses.countP fun c => c.name ∈ w.entered
  lowers : ∀ n l, w.lowers.lookup n = some l →
    l = p.groundedClasses.countP fun c => decide (p.descent c.name < p.descent n)
  inside : ∀ n, .leave n ∈ w.stack → n ∈ w.entered
  left : ∀ n ∈ w.entered, .leave n ∈ w.stack ∨ (w.ranges.lookup n).isSome = true
  ranges : ∀ n r, w.ranges.lookup n = some r → n ∈ w.entered ∧ r = p.rangeAmong (p.descent n)

/-- The next number is the number of classes that have been numbered when the turn comes to a
visit. -/
lemma counter_eq_countP {q : ClassDef → Bool}
    (counter : w.counter = p.groundedClasses.countP fun c => c.name ∈ w.entered)
    (begun : ∀ c, p.Grounded c → (c.name ∈ w.entered ↔ q c = true)) :
    w.counter = p.groundedClasses.countP q := by
  rw [counter]
  refine List.countP_congr fun c mem => ?_
  rw [decide_eq_true_eq]
  exact begun c (Program.mem_groundedClasses.1 mem)

/-- The number that was noted for a class that has been entered. -/
lemma exists_lookup_lowers (mem : name ∈ w.entered) : ∃ l, w.lowers.lookup name = some l := by
  obtain ⟨⟨name, l⟩, noted, rfl⟩ := List.mem_map.1 mem
  clear mem
  generalize w.lowers = lowers at noted
  induction lowers with
  | nil => cases noted
  | cons entry lowers ih =>
    rw [List.lookup_cons]
    split
    case h_1 => exact ⟨_, rfl⟩
    case h_2 other =>
      rcases List.mem_cons.1 noted with rfl | noted
      · simp at other
      · exact ih noted

/-- At the start nothing has been numbered, and the roots cover everything. -/
lemma invariant_start (p : Program) : (start p).Invariant p where
  valid := valid_start p
  grounded n mem := by
    rw [waiting_start] at mem
    have root : n ∈ p.roots := by simpa [entered, start] using mem
    obtain ⟨c, declared, noParent, named⟩ := Program.mem_linked.1 root
    exact ⟨c, .root declared noParent, named⟩
  covers := (covers_roots p).congr fun c _ => by simp [entered, start]
  counter := by simp [start, entered]
  lowers n l noted := by cases noted
  inside n mem := by simp [start] at mem
  left n mem := by cases mem
  ranges n r noted := by cases noted

/-- When a class is left, its range has been numbered. -/
lemma Invariant.leave (invariant : w.Invariant p) (top : w.stack = .leave name :: stack) :
    Invariant p { w with
      stack
      ranges := (name, ⟨(w.lowers.lookup name).getD w.counter, w.counter⟩) :: w.ranges } := by
  obtain ⟨valid, grounded, covers, counter, lowers, inside, left, ranges⟩ := invariant
  have waiting : w.waiting = stack.filterMap Visit.entering? := by
    rw [TagWalk.waiting, top]
    rfl
  rw [waiting] at grounded
  rw [top] at covers inside left
  have entered := inside name (List.mem_cons_self ..)
  have upper : w.counter = (p.rangeAmong (p.descent name)).upper := by
    rw [Program.rangeAmong, Int.natCast_inj]
    exact counter_eq_countP counter covers.1
  refine ⟨valid.leave top, grounded, ?_, counter, lowers, ?_, ?_, ?_⟩
  · exact covers.2.congr fun c grounded => (covers.1 c grounded).symm
  · exact fun n mem => inside n (List.mem_cons_of_mem _ mem)
  · intro n mem
    dsimp only
    rw [List.lookup_cons]
    split
    case h_1 => exact .inr rfl
    case h_2 other =>
      refine (left n mem).imp_left fun open' => ?_
      rcases List.mem_cons.1 open' with same | open'
      · cases same
        simp at other
      · exact open'
  · intro n r noted
    dsimp only at noted
    rw [List.lookup_cons] at noted
    split at noted
    case h_1 same =>
      obtain rfl := eq_of_beq same
      obtain ⟨l, found⟩ := exists_lookup_lowers entered
      refine ⟨entered, ?_⟩
      rw [← Option.some.inj noted, found, Option.getD_some, lowers n l found, upper]
      rfl
    case h_2 => exact ranges n r noted

/-- When a class is entered, those with smaller lines have been numbered. -/
lemma Invariant.enter (invariant : w.Invariant p) (top : w.stack = .enter name :: stack) :
    Invariant p { w with
      stack := (p.children name).map .enter ++ .leave name :: stack
      lowers := (name, w.counter) :: w.lowers
      counter := w.counter + 1 } := by
  obtain ⟨valid, grounded, covers, counter, lowers, inside, left, ranges⟩ := invariant
  have waiting : w.waiting = name :: stack.filterMap Visit.entering? := by
    rw [TagWalk.waiting, top]
    rfl
  have waiting' :
      ((p.children name).map Visit.enter ++ .leave name :: stack).filterMap Visit.entering? =
        p.children name ++ stack.filterMap Visit.entering? := filterMap_entering ..
  have new : name ∉ w.entered := valid.fresh name (by simp [waiting])
  have validAfter := valid.enter top
  rw [waiting] at grounded
  rw [top] at covers inside left
  obtain ⟨d, known, rfl⟩ := grounded name (by simp)
  -- the classes entered so far are just those that come before the new one
  have lower : w.counter =
      p.groundedClasses.countP fun c => decide (p.descent c.name < p.descent d.name) :=
    counter_eq_countP counter fun c grounded => by rw [decide_eq_true_eq]; exact covers.1 c grounded
  refine ⟨validAfter, ?_, ?_, ?_, ?_, ?_, ?_, ?_⟩
  · intro n mem
    rw [TagWalk.waiting, waiting', List.append_assoc] at mem
    rcases List.mem_append.1 mem with child | mem
    · obtain ⟨c, declared, parent, named⟩ := Program.mem_linked.1 child
      exact ⟨c, .of_parent declared parent known, named⟩
    · refine grounded n ?_
      simp only [entered, List.map_cons, List.mem_append, List.mem_cons] at mem ⊢
      tauto
  · refine (Covers.enter known covers).congr fun c _ => ?_
    simp only [entered, List.map_cons, List.mem_cons, or_comm]
  · rw [counter]
    exact (Program.countP_cons p.nodup_groundedClasses (Program.mem_groundedClasses.2 known)
      new).symm
  · intro n l noted
    dsimp only at noted
    rw [List.lookup_cons] at noted
    split at noted
    case h_1 same =>
      obtain rfl := eq_of_beq same
      rw [← Option.some.inj noted, lower]
    case h_2 => exact lowers n l noted
  · -- of the new entries only the class itself is to be left, and it has its number by now
    intro n mem
    rcases List.mem_append.1 mem with child | mem
    · simp at child
    rcases List.mem_cons.1 mem with same | mem
    · cases same
      exact List.mem_cons_self ..
    · exact List.mem_cons_of_mem _ (inside n (List.mem_cons_of_mem _ mem))
  · intro n mem
    rcases List.mem_cons.1 mem with rfl | mem
    · exact .inl (List.mem_append_right _ (List.mem_cons_self ..))
    · refine (left n mem).imp_left fun open' => ?_
      rcases List.mem_cons.1 open' with same | open'
      · cases same
      · exact List.mem_append_right _ (List.mem_cons_of_mem _ open')
  · intro n r noted
    exact ⟨List.mem_cons_of_mem _ (ranges n r noted).1, (ranges n r noted).2⟩

/-- A step keeps what is known of a walk. -/
lemma Invariant.step (invariant : w.Invariant p) (step : w.step? p = some next) :
    next.Invariant p := by
  unfold step? at step
  split at step
  case h_1 => cases step
  case h_2 top =>
    cases step
    exact invariant.leave top
  case h_3 top =>
    cases step
    exact invariant.enter top

/-- The walk keeps what is known of it until nothing is left to be done. -/
lemma Invariant.run (invariant : w.Invariant p) (valid : w.Valid p) :
    (w.run p valid).Invariant p ∧ (w.run p valid).stack = [] := by
  fun_induction TagWalk.run p w valid with
  | case1 w valid ends =>
    refine ⟨invariant, ?_⟩
    unfold step? at ends
    split at ends
    case h_1 top => exact top
    all_goals cases ends
  | case2 w valid next step ih => exact ih (invariant.step step)

/-- The walk ends, and what is known of it then. -/
lemma invariant_finished (p : Program) :
    (finished p).Invariant p ∧ (finished p).stack = [] :=
  (invariant_start p).run _

/-- The walk has given a range just to the grounded classes. -/
lemma exists_range_iff {c : ClassDef} (mem : c ∈ p.concreteClasses) :
    (∃ r, (finished p).ranges.lookup c.name = some r) ↔ p.Grounded c := by
  obtain ⟨invariant, ended⟩ := invariant_finished p
  constructor
  · rintro ⟨r, noted⟩
    obtain ⟨d, grounded, named⟩ := invariant.grounded c.name
      (List.mem_append_right _ (invariant.ranges _ r noted).1)
    rwa [← Program.eq_of_concrete_name_eq grounded.mem_concreteClasses mem named]
  · intro grounded
    have covers := invariant.covers
    rw [ended] at covers
    refine (invariant.left c.name (covers c grounded)).elim (fun open' => ?_)
      Option.isSome_iff_exists.1
    rw [ended] at open'
    cases open'

/-- If all classes are grounded, those that the walk comes to are all classes. -/
lemma groundedClasses_eq (grounded : ∀ c ∈ p.concreteClasses, p.Grounded c) :
    p.groundedClasses = p.concreteClasses :=
  List.filter_eq_self.2 fun c mem => (Program.Grounded.isGrounded_iff mem).2 (grounded c mem)

/-- If all classes are grounded, the walk gives out as many numbers as there are classes. -/
lemma counter_finished (grounded : ∀ c ∈ p.concreteClasses, p.Grounded c) :
    (finished p).counter = p.concreteClasses.length := by
  obtain ⟨invariant, ended⟩ := invariant_finished p
  have covers := invariant.covers
  rw [ended] at covers
  rw [invariant.counter, groundedClasses_eq grounded, List.countP_eq_length]
  exact fun c mem => decide_eq_true (covers c (grounded c mem))

/-- If all classes are grounded, the walk gives each of them the range of its line of descent. -/
lemma lookup_ranges (grounded : ∀ c ∈ p.concreteClasses, p.Grounded c) {c : ClassDef}
    (mem : c ∈ p.concreteClasses) :
    (finished p).ranges.lookup c.name = some (rangeOf (lines p) (p.descent c.name)) := by
  obtain ⟨r, noted⟩ := (exists_range_iff mem).2 (grounded c mem)
  have counted : ∀ q : List String → Bool,
      (p.concreteClasses.countP fun c => q (p.descent c.name)) = (lines p).countP q := by
    intro q
    rw [lines, (List.mergeSort_perm ..).countP_eq, List.countP_map]
    rfl
  rw [noted, ((invariant_finished p).1.ranges _ r noted).2, Program.rangeAmong,
    groundedClasses_eq grounded, counted fun line => decide (line < p.descent c.name),
    counted (precedesEnd (p.descent c.name)), rangeOf_eq_counts (lines_sorted p) (mem_lines mem)]

end TagWalk

end ObjectBackend
