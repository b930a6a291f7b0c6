import ObjectBackend.Objects.TagRange
import ObjectBackend.Source.Hierarchy

/-!
# The walk that numbers classes

The classes that are not interfaces are walked through from the roots down, siblings in the order of
their names. A class is numbered when it is entered. It is left when all classes below it have been
numbered, and its range then goes from its own number up to the next one to be given out. The walk
keeps what it still has to do on a stack.

Nothing is assumed of the parent links: what no root leads to is never entered. No class is entered
twice, since it stands on the stack only because its one parent has been entered
(`TagWalk.Valid.step`). So the walk ends.
-/

namespace ObjectBackend

namespace Program

/-- The classes that are not interfaces, in program order. -/
def concreteClasses (p : Program) : List ClassDef := p.classes.filter (!·.isInterface)

/-- The interfaces, in program order. -/
def interfaces (p : Program) : List ClassDef := p.classes.filter (·.isInterface)

/-- The names of those classes that have a parent link, sorted. -/
def linked (p : Program) (link : Option String) : List String :=
  ((p.concreteClasses.filter (·.parentName = link)).map (·.name)).mergeSort
    fun a b => decide (a ≤ b)

/-- The names of the classes without a parent, sorted. -/
def roots (p : Program) : List String := p.linked none

/-- The names of the classes below a class, sorted. -/
def children (p : Program) (name : String) : List String := p.linked (some name)

end Program

/-- What a walk has to do next with a class. -/
inductive Visit where
  | enter (name : String)
  | leave (name : String)
deriving DecidableEq

/-- The name of a class that is going to be entered. -/
def Visit.entering? : Visit → Option String
  | enter name => some name
  | leave _ => none

/-- How far a walk has come. What was noted last stands first. -/
structure TagWalk where
  /-- What is still to be done. -/
  stack : List Visit
  /-- The numbers of the classes that have been entered. -/
  lowers : List (String × Nat)
  /-- The next number. -/
  counter : Nat
  /-- The ranges of the classes that have been left. -/
  ranges : List (String × TagRange)

namespace TagWalk

/-- The walk before its first step. -/
def start (p : Program) : TagWalk :=
  { stack := p.roots.map .enter, lowers := [], counter := 0, ranges := [] }

/-- One step of the walk. -/
def step? (p : Program) (w : TagWalk) : Option TagWalk :=
  match w.stack with
  | [] => none
  | .leave name :: stack =>
    let lower := (w.lowers.lookup name).getD w.counter
    some { w with stack, ranges := (name, ⟨lower, w.counter⟩) :: w.ranges }
  | .enter name :: stack =>
    some { w with
      stack := (p.children name).map .enter ++ .leave name :: stack
      lowers := (name, w.counter) :: w.lowers
      counter := w.counter + 1 }

/-- The names of the classes that have been entered. -/
def entered (w : TagWalk) : List String := w.lowers.map (·.1)

/-- The names of the classes that are going to be entered. -/
def waiting (w : TagWalk) : List String := w.stack.filterMap Visit.entering?

/-- Every class is entered once: those that wait are different and have not been entered. -/
structure Valid (p : Program) (w : TagWalk) : Prop where
  fresh : ∀ n ∈ w.waiting, n ∉ w.entered
  nodup : w.waiting.Nodup
  known : ∀ n ∈ w.waiting ++ w.entered,
    ∃ c ∈ p.concreteClasses, c.name = n ∧ ∀ parent, c.parentName = some parent → parent ∈ w.entered

/-- The classes that have not been entered. -/
def remaining (p : Program) (w : TagWalk) : List ClassDef :=
  p.concreteClasses.filter fun c => c.name ∉ w.entered

end TagWalk

namespace Program

/-- A name stands for one class that is not an interface. -/
theorem eq_of_concrete_name_eq {p : Program} {c d : ClassDef} (memc : c ∈ p.concreteClasses)
    (memd : d ∈ p.concreteClasses) (eq : c.name = d.name) : c = d :=
  eq_of_name_eq (List.mem_filter.1 memc).1 (List.mem_filter.1 memd).1 eq

/-- The classes that have a parent link. -/
theorem mem_linked {p : Program} {link : Option String} {n : String} :
    n ∈ p.linked link ↔ ∃ c ∈ p.concreteClasses, c.parentName = link ∧ c.name = n := by
  simp [linked, and_assoc]

/-- Each class with a parent link is named once. -/
theorem nodup_linked (p : Program) (link : Option String) : (p.linked link).Nodup := by
  have names : (p.concreteClasses.map (·.name)).Nodup :=
    p.nodup.sublist (List.filter_sublist.map _)
  refine (List.mergeSort_perm ..).nodup_iff.2 ?_
  exact names.sublist (List.filter_sublist.map _)

end Program

namespace TagWalk

variable {p : Program} {w next : TagWalk}

/-- Classes that are going to be entered wait. -/
theorem filterMap_entering (names : List String) (stack : List Visit) :
    (names.map Visit.enter ++ stack).filterMap Visit.entering? =
      names ++ stack.filterMap Visit.entering? := by
  rw [List.filterMap_append, List.filterMap_map]
  simp [Function.comp_def, Visit.entering?]

/-- At the start the roots wait. -/
theorem waiting_start (p : Program) : (start p).waiting = p.roots := by
  have waiting := filterMap_entering p.roots []
  rwa [List.append_nil, List.filterMap_nil, List.append_nil] at waiting

/-- The roots can be entered. -/
theorem valid_start (p : Program) : (start p).Valid p where
  fresh _ _ := List.not_mem_nil
  nodup := by
    rw [waiting_start]
    exact p.nodup_linked none
  known n mem := by
    rw [waiting_start] at mem
    have root : n ∈ p.roots := by simpa [entered, start] using mem
    obtain ⟨c, declared, noParent, named⟩ := Program.mem_linked.1 root
    refine ⟨c, declared, named, fun parent eq => ?_⟩
    rw [noParent] at eq
    cases eq

/-- Leaving a class changes neither the classes that wait nor those that have been entered. -/
theorem Valid.leave {name : String} {stack : List Visit} {ranges : List (String × TagRange)}
    (valid : w.Valid p) (top : w.stack = .leave name :: stack) :
    Valid p { w with stack, ranges } := by
  have waiting : w.waiting = stack.filterMap Visit.entering? := by
    rw [TagWalk.waiting, top]
    rfl
  obtain ⟨fresh, nodup, known⟩ := valid
  rw [waiting] at fresh nodup known
  exact ⟨fresh, nodup, known⟩

/-- When a class is entered, the classes below it can be entered: none of them has been, as its
parent had not been. -/
theorem Valid.enter {name : String} {stack : List Visit} (valid : w.Valid p)
    (top : w.stack = .enter name :: stack) :
    Valid p { w with
      stack := (p.children name).map .enter ++ .leave name :: stack
      lowers := (name, w.counter) :: w.lowers
      counter := w.counter + 1 } := by
  have waiting : w.waiting = name :: stack.filterMap Visit.entering? := by
    rw [TagWalk.waiting, top]
    rfl
  have waiting' :
      ((p.children name).map Visit.enter ++ .leave name :: stack).filterMap Visit.entering? =
        p.children name ++ stack.filterMap Visit.entering? := filterMap_entering ..
  obtain ⟨fresh, nodup, known⟩ := valid
  rw [waiting] at fresh nodup known
  generalize stack.filterMap Visit.entering? = others at *
  obtain ⟨other, nodup⟩ := List.nodup_cons.1 nodup
  have unentered : name ∉ w.entered := fresh name (List.mem_cons_self ..)
  -- a class below the new one was neither waiting nor entered
  have below : ∀ n ∈ p.children name, n ∉ (name :: others) ++ w.entered := by
    intro n child mem
    obtain ⟨c, memc, parent, named⟩ := Program.mem_linked.1 child
    obtain ⟨d, memd, named', entered⟩ := known n mem
    obtain rfl := Program.eq_of_concrete_name_eq memc memd (named.trans named'.symm)
    exact unentered (entered name parent)
  refine ⟨?_, ?_, ?_⟩
  · rw [TagWalk.waiting, waiting']
    intro n mem entered
    rcases List.mem_append.1 mem with child | waits
    · refine below n child ?_
      rcases List.mem_cons.1 entered with rfl | entered
      · exact List.mem_append_left _ (List.mem_cons_self ..)
      · exact List.mem_append_right _ entered
    · rcases List.mem_cons.1 entered with rfl | entered
      · exact other waits
      · exact fresh n (List.mem_cons_of_mem _ waits) entered
  · rw [TagWalk.waiting, waiting', List.nodup_append]
    refine ⟨p.nodup_linked _, nodup, ?_⟩
    rintro n child _ mem rfl
    exact below n child (List.mem_append_left _ (List.mem_cons_of_mem _ mem))
  · rw [TagWalk.waiting, waiting']
    intro n mem
    by_cases child : n ∈ p.children name
    · obtain ⟨c, memc, parent, named⟩ := Program.mem_linked.1 child
      refine ⟨c, memc, named, fun q eq => ?_⟩
      rw [parent] at eq
      obtain rfl := Option.some.inj eq
      exact List.mem_cons_self ..
    · have old : n ∈ (name :: others) ++ w.entered := by
        simp only [entered, List.map_cons, List.mem_append, List.mem_cons] at mem ⊢
        rcases mem with (mem | mem) | rfl | mem
        · exact absurd mem child
        · exact .inl (.inr mem)
        · exact .inl (.inl rfl)
        · exact .inr mem
      obtain ⟨c, memc, named, entered⟩ := known n old
      exact ⟨c, memc, named, fun q eq => List.mem_cons_of_mem _ (entered q eq)⟩

/-- A step keeps every class from being entered twice. -/
theorem Valid.step (valid : w.Valid p) (step : w.step? p = some next) : next.Valid p := by
  unfold step? at step
  split at step
  case h_1 => cases step
  case h_2 top =>
    cases step
    exact valid.leave top
  case h_3 top =>
    cases step
    exact valid.enter top

/-- A step enters one of the classes that remain, or takes something from the stack. -/
theorem Valid.decreases (valid : w.Valid p) (step : w.step? p = some next) :
    (next.remaining p).length < (w.remaining p).length ∨
      next.remaining p = w.remaining p ∧ next.stack.length < w.stack.length := by
  unfold step? at step
  split at step
  case h_1 => cases step
  case h_2 name stack top =>
    cases step
    refine .inr ⟨rfl, ?_⟩
    rw [top]
    exact Nat.lt_succ_self _
  case h_3 name stack top =>
    cases step
    have waits : name ∈ w.waiting := by
      rw [TagWalk.waiting, top]
      exact List.mem_cons_self ..
    obtain ⟨c, declared, rfl, -⟩ := valid.known name (List.mem_append_left _ waits)
    have fewer : (p.concreteClasses.filter fun d => d.name ∉ c.name :: w.entered) =
        (w.remaining p).filter (·.name ≠ c.name) := by
      rw [remaining, List.filter_filter]
      simp only [List.mem_cons, not_or, Bool.decide_and, ne_eq]
    refine .inl ?_
    show (p.concreteClasses.filter fun d => d.name ∉ c.name :: w.entered).length < _
    rw [fewer]
    refine List.length_filter_lt_length_iff_exists.mpr ⟨c, ?_, by simp⟩
    exact List.mem_filter.2 ⟨declared, decide_eq_true (valid.fresh _ waits)⟩

/-- Walk until nothing is left to be done. -/
def run (p : Program) (w : TagWalk) (valid : w.Valid p) : TagWalk :=
  match step : w.step? p with
  | none => w
  | some next => run p next (valid.step step)
termination_by ((w.remaining p).length, w.stack.length)
decreasing_by
  rcases valid.decreases step with less | ⟨same, less⟩
  · exact Prod.Lex.left _ _ less
  · rw [same]
    exact Prod.Lex.right _ less

/-- The walk through a program when it has ended. -/
def finished (p : Program) : TagWalk := (start p).run p (valid_start p)

end TagWalk

end ObjectBackend
