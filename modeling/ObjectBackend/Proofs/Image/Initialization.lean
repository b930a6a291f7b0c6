import Mathlib.Algebra.GroupWithZero.Nat
import ObjectBackend.Image.Module
import ObjectBackend.Proofs.Image.Definitions
import ObjectBackend.Proofs.Image.Initializer
import ObjectBackend.Proofs.Image.VirtualCall

/-!
# Class initialization

What happens when the initializers of a module are called, one after the other and from within each
other. An initializer runs as its code says until it calls another one or a method; the method may
call any initializer again, and in the end it returns (`Session.Step`). However the calls are
nested, the method of a class is called at most once, not before those of its ancestors have been
called or their initializers at least are under way, and all of them have been called when an
outermost initializer returns (`initialized_once_in_order`).

The flag of a class is set before anything is called on its behalf. So a class whose flag is set has
a method that has been called or that an active initializer is still to call, and never both
(`Session.promised`). And its parent's flag is set, too, unless the initializer that is running
right now is about to see to that (`Session.Sound.links`).
-/

namespace ObjectBackend

open Target

/-- A function that has been called and has not returned. -/
inductive ActiveCall where
  | initializer (f : Function Label) (σ : State Label)
  /-- A method that an initializer has called. -/
  | method (r : MethodRef)

/-- A program in which classes are initialized. -/
structure Session where
  memory : Memory
  /-- The methods that initializers have called, the last one first. -/
  called : List MethodRef
  /-- What has not returned, the innermost first. -/
  active : List ActiveCall

namespace Session

/-- Whether other code than that of an initializer is running. -/
def IsFree (s : Session) : Prop := ∀ f σ rest, s.active ≠ .initializer f σ :: rest

/-- The session in which an initializer is called. -/
def push (s : Session) (f : Function Label) : Session :=
  { s with active := .initializer f (.start (fun _ => none) s.memory) :: s.active }

/-- What can happen next. -/
inductive Step (b : Backend) : Session → Session → Prop
  /-- Some initializer of the module is called. -/
  | call {s : Session} {f : Function Label} : s.IsFree → .define f ∈ b.initializers →
      Step b s (s.push f)
  /-- The program goes about its business, which is not the flags. -/
  | act {s : Session} {m : Memory} : s.IsFree →
      (∀ name, m (flagsAddress name) = s.memory (flagsAddress name)) →
      Step b s { s with memory := m }
  /-- A method that an initializer has called returns. -/
  | finish {s : Session} {r : MethodRef} {rest : List ActiveCall} :
      s.active = .method r :: rest → Step b s { s with active := rest }
  /-- An initializer executes a line. -/
  | line {s : Session} {f : Function Label} {σ σ' : State Label} {rest : List ActiveCall} :
      s.active = .initializer f σ :: rest → f.step? silent (σ.on s.memory) = some σ' →
      Step b s { s with memory := σ'.memory, active := .initializer f σ' :: rest }
  /-- An initializer calls another one. -/
  | enter {s : Session} {f g : Function Label} {σ : State Label} {rest : List ActiveCall} :
      s.active = .initializer f σ :: rest → f.line? σ = some (callLine g.name) →
      .define g ∈ b.initializers →
      Step b s (push { s with active := .initializer f (σ.next s.memory) :: rest } g)
  /-- An initializer calls a method. -/
  | run {s : Session} {f : Function Label} {σ : State Label} {rest : List ActiveCall}
      {r : MethodRef} :
      s.active = .initializer f σ :: rest → f.line? σ = some (callLine (.method r)) →
      Step b s
        { s with called := r :: s.called
                 active := .method r :: .initializer f (σ.next s.memory) :: rest }
  /-- An initializer returns. -/
  | leave {s : Session} {f : Function Label} {σ : State Label} {rest : List ActiveCall} :
      s.active = .initializer f σ :: rest → f.line? σ = some (.leave (.ret none)) →
      Step b s { s with active := rest }

/-- Nothing has been initialized yet. -/
structure Fresh (p : Program) (s : Session) : Prop where
  flags : ∀ c ∈ p.classes, s.memory (flagsAddress c.name) = some (.i32, .int 0)
  called : s.called = []
  active : s.active = []

end Session

/-- The method that a symbol stands for. -/
def Target.Symbol.method? : Symbol → Option MethodRef
  | .method r => some r
  | _ => none

/-- The method that a line calls. -/
def Target.Line.method? : Line Label Label → Option MethodRef
  | .run (.call _ (.symbol s) _) => s.method?
  | _ => none

/-- The method that an active initializer will call, once it has set the flag. -/
def ActiveCall.owed? : ActiveCall → Option MethodRef
  | .initializer f σ =>
    if σ.label = .init ∧ 2 ≤ σ.position then
      (((f.lines? .init).getD []).drop σ.position).findSome? Line.method?
    else none
  | .method _ => none

/-- The methods that have been called or will be. -/
def Session.promised (s : Session) : List MethodRef :=
  s.active.filterMap ActiveCall.owed? ++ s.called

/-- How much of an active function is ahead. -/
def ActiveCall.ahead : ActiveCall → Nat
  | .initializer _ σ => Program.ahead σ
  | .method _ => 1

/-- Whether the flag of a class is set. -/
def IsSet (m : Memory) (c : ClassDef) : Prop :=
  m (flagsAddress c.name) = some (.i32, flagsWord true)

/-- Setting the flag of a class leaves those of others. -/
lemma isSet_update_iff {m : Memory} {c e : ClassDef} :
    IsSet (Function.update m (flagsAddress c.name) (some (.i32, flagsWord true))) e ↔
      IsSet m e ∨ e.name = c.name := by
  by_cases same : e.name = c.name
  · rw [IsSet, same, Function.update_self]
    exact iff_of_true rfl (.inr rfl)
  · have other : flagsAddress e.name ≠ flagsAddress c.name := fun eq => same (flagsAddress_inj eq)
    rw [IsSet, Function.update_of_ne other, ← IsSet, or_iff_left same]

namespace Program

variable {p : Program} {c d : ClassDef} {σ σ' : State Label} {m m' : Memory}
  {made rest : List Symbol}
  {isSet : Bool}

/-- The first method that lines of calls call is the first method among their symbols. -/
lemma findSome?_callLines (symbols : List Symbol) :
    (callLines symbols).findSome? Line.method? = symbols.findSome? Symbol.method? := by
  rw [callLines, List.findSome?_append, List.findSome?_map]
  exact Option.or_none

/-- Among its calls an initializer is still to make the last ones. -/
lemma Calls.owed?_eq (calls : Calls p c σ made rest) :
    (ActiveCall.initializer (p.initializer c) σ).owed? = rest.findSome? Symbol.method? := by
  have behind : (markLines c ++ callLines (p.initializerCalls c)).drop (2 + made.length) =
      callLines rest := by
    rw [← List.drop_drop, calls.calls, callLines, List.map_append, List.append_assoc]
    exact List.drop_left' (List.length_map _)
  rw [ActiveCall.owed?, if_pos ⟨calls.label, calls.position ▸ Nat.le_add_right 2 _⟩, lines?_init,
    Option.getD_some, calls.position, behind, findSome?_callLines]

/-- An initializer that makes its calls is past its check. -/
lemma Calls.not_checks (calls : Calls p c σ made rest) : ¬ Checks isSet σ := by
  obtain ⟨_, label, position⟩ := calls
  intro checks
  cases checks with
  | load label' | mask label' | compare label' | branch label' => cases label.symm.trans label'
  | combine _ position' => omega
  | store _ position' => omega

/-- An initializer that checks its flag owes no method. -/
lemma Checks.owed?_eq {f : Function Label} (checks : Checks isSet σ) :
    (ActiveCall.initializer f σ).owed? = none := by
  rw [ActiveCall.owed?, if_neg]
  rintro ⟨label, position⟩
  cases checks with
  | load label' | mask label' | compare label' | branch label' => cases label.symm.trans label'
  | combine _ position' => omega
  | store _ position' => omega

/-- An initializer that is about to return owes no method. -/
lemma Returns.owed?_eq {f : Function Label} (returns : Returns σ) :
    (ActiveCall.initializer f σ).owed? = none := by
  rw [ActiveCall.owed?, if_neg]
  rintro ⟨label, _⟩
  cases label.symm.trans returns.1

/-- The method of the class is the only one that its initializer calls. -/
lemma findSome?_initializerCalls (c : ClassDef) :
    (p.initializerCalls c).findSome? Symbol.method? = c.initializer?.map c.reference := by
  rw [initializerCalls]
  cases c.parentName.filter p.needsInitialization <;> cases c.initializer? <;> rfl

/-- The first call of an initializer is that of the initializer of the parent, if that needs one. -/
lemma initializerCalls_of_isParent (parent : p.IsParent c d)
    (needed : p.needsInitialization d.name = true) :
    ∃ rest, p.initializerCalls c = .initializer d.name :: rest := by
  obtain ⟨name, link, found⟩ := parent
  obtain ⟨_, rfl⟩ := lookup?_eq_some_iff.1 found
  rw [initializerCalls, link, Option.filter_some, if_pos needed]
  exact ⟨_, rfl⟩

/-- Lines that call the same are calls of the same symbol. -/
lemma callLine_inj {s s' : Symbol} (eq : callLine s = callLine s') : s = s' := by
  cases eq
  rfl

/-- Initializers are told apart by their classes. -/
lemma initializer_inj (memc : c ∈ p.classes) (memd : d ∈ p.classes)
    (eq : p.initializer c = p.initializer d) : c = d :=
  eq_of_name_eq memc memd (Symbol.initializer.inj (congrArg Function.name eq))

/-- Where the initializer of a class can be. -/
inductive Stage (p : Program) (m : Memory) (c : ClassDef) (σ : State Label) : Prop
  | checks (isSet : Bool) : m (flagsAddress c.name) = some (.i32, flagsWord isSet) →
      Checks isSet σ → Stage p m c σ
  | calls (made rest : List Symbol) : IsSet m c → Calls p c σ made rest → Stage p m c σ
  | returns : IsSet m c → Returns σ → Stage p m c σ

namespace Stage

/-- A call is made behind the flag. -/
lemma calls_of_line? {s : Symbol} (stage : Stage p m c σ)
    (here : (p.initializer c).line? σ = some (callLine s)) :
    IsSet m c ∧ ∃ made rest, Calls p c σ made (s :: rest) := by
  cases stage with
  | checks isSet flags checks =>
    obtain ⟨_, step, _⟩ := step_of_checks (p := p) flags checks
    rw [Function.step?_call here] at step
    cases step
  | calls made rest set calls =>
    cases rest with
    | nil =>
      rw [line?_of_calls_nil calls] at here
      cases here
    | cons s' rest =>
      rw [line?_of_calls calls] at here
      cases here
      exact ⟨set, made, rest, calls⟩
  | returns _ returns =>
    rw [line?_of_returns returns] at here
    cases here

/-- An initializer returns with the flag set. -/
lemma returns_of_line? (stage : Stage p m c σ)
    (here : (p.initializer c).line? σ = some (.leave (.ret none))) : IsSet m c ∧ Returns σ := by
  cases stage with
  | checks isSet flags checks =>
    obtain ⟨_, step, _⟩ := step_of_checks (p := p) flags checks
    rw [Function.step?_return here] at step
    cases step
  | calls made rest _ calls =>
    cases rest with
    | nil =>
      rw [line?_of_calls_nil calls] at here
      cases here
    | cons s rest =>
      rw [line?_of_calls calls] at here
      cases here
  | returns set returns => exact ⟨set, returns⟩

end Stage

/-- An initializer sees to it that the flag of a class's parent is set: that of the class is about
to call the parent's, or the parent's looks at the flag. -/
def Attends (p : Program) (m : Memory) (c d : ClassDef) (f : Function Label) (σ : State Label) :
    Prop :=
  f = p.initializer c ∧ Calls p c σ [] (p.initializerCalls c) ∨
    f = p.initializer d ∧ ∃ isSet, m (flagsAddress d.name) = some (.i32, flagsWord isSet) ∧
      Checks isSet σ

/-- Then the next line is the call of the parent's initializer, or no call at all. -/
lemma Attends.goes_on {f : Function Label} (attends : Attends p m c d f σ) (parent : p.IsParent c d)
    (needed : p.needsInitialization d.name = true) :
    f.line? σ = some (callLine (.initializer d.name)) ∨
      ∃ σ', f.step? silent (σ.on m) = some σ' := by
  rcases attends with ⟨rfl, calls⟩ | ⟨rfl, isSet, flags, checks⟩
  · obtain ⟨rest, first⟩ := initializerCalls_of_isParent parent needed
    rw [first] at calls
    exact .inl (line?_of_calls calls)
  · obtain ⟨σ', step, _⟩ := step_of_checks (p := p) flags checks
    exact .inr ⟨σ', step⟩

end Program

namespace Session

variable {b : Backend} {p : Program} {s s' : Session} {a : ActiveCall} {rest : List ActiveCall}
  {f : Function Label} {σ : State Label} {c d : ClassDef}

/-- An initializer that waits for a call to return has set the flag. -/
def Waits (p : Program) (m : Memory) (f : Function Label) (σ : State Label) : Prop :=
  ∃ c ∈ p.classes, f = p.initializer c ∧ IsSet m c ∧ ∃ made rest, p.Calls c σ made rest

/-- What holds at any time. -/
structure Sound (p : Program) (s : Session) : Prop where
  flags : ∀ c ∈ p.classes, ∃ isSet, s.memory (flagsAddress c.name) = some (.i32, flagsWord isSet)
  running : ∀ f σ rest, s.active = .initializer f σ :: rest →
    ∃ c ∈ p.classes, f = p.initializer c ∧ p.Stage s.memory c σ
  waiting : ∀ f σ, .initializer f σ ∈ s.active.tail → Waits p s.memory f σ
  nodup : s.promised.Nodup
  marked : ∀ r, r ∈ s.promised ↔
    ∃ c ∈ p.classes, ∃ m, c.initializer? = some m ∧ r = c.reference m ∧ IsSet s.memory c
  links : ∀ c ∈ p.classes, IsSet s.memory c → ∀ d, p.IsParent c d →
    p.needsInitialization d.name = true → IsSet s.memory d ∨
      ∃ f σ rest, s.active = .initializer f σ :: rest ∧ p.Attends s.memory c d f σ

/-- The flag of a class is not set before that of its parent. -/
def Settled (p : Program) (s : Session) : Prop :=
  ∀ c ∈ p.classes, IsSet s.memory c → ∀ d, p.IsParent c d →
    p.needsInitialization d.name = true → IsSet s.memory d

/-- Every ancestor that needs initialization has its flag set. -/
lemma Settled.isSet_of_mem_ancestors (settled : s.Settled p) (memc : c ∈ p.classes)
    (set : IsSet s.memory c) (mem : d ∈ p.ancestors c.name) {m : MethodDef}
    (own : d.initializer? = some m) : IsSet s.memory d := by
  obtain ⟨c', found, path⟩ := Program.mem_ancestors.1 mem
  obtain rfl : c = c' := Option.some.inj ((Program.lookup?_of_mem memc).symm.trans found)
  clear found mem
  induction path using Relation.ReflTransGen.head_induction_on with
  | refl => exact set
  | @head c e parent path ih =>
    have meme : e ∈ p.classes := by
      obtain ⟨_, _, found⟩ := parent
      exact (Program.lookup?_eq_some_iff.1 found).1
    have needed : p.needsInitialization e.name = true := by
      apply List.any_eq_true.2
      refine ⟨d, Program.mem_ancestors.2 ⟨e, Program.lookup?_of_mem meme, path⟩, ?_⟩
      rw [own]
      rfl
    exact ih meme (settled c memc set e parent needed)

namespace Sound

/-- A session in which nothing has been initialized is sound. -/
lemma fresh (fresh : s.Fresh p) : s.Sound p where
  flags := fun c memc => ⟨false, fresh.flags c memc⟩
  running := fun f σ rest active => by
    rw [fresh.active] at active
    cases active
  waiting := fun f σ mem => by
    rw [fresh.active] at mem
    cases mem
  nodup := by
    rw [promised, fresh.active, fresh.called]
    exact .nil
  marked := fun r => by
    rw [promised, fresh.active, fresh.called]
    constructor
    · exact nofun
    · rintro ⟨c, memc, _, _, _, set⟩
      rw [IsSet, fresh.flags c memc] at set
      cases set
  links := fun c memc set => by
    rw [IsSet, fresh.flags c memc] at set
    cases set

/-- The parents are settled as long as no initializer is running that attends to one. -/
lemma settled (sound : s.Sound p)
    (quiet : ∀ f σ rest, s.active = .initializer f σ :: rest → ∀ c d, p.IsParent c d →
      p.needsInitialization d.name = true → ¬ p.Attends s.memory c d f σ) : s.Settled p := by
  intro c memc set d parent needed
  rcases sound.links c memc set d parent needed with set' | ⟨f, σ, rest, active, attends⟩
  · exact set'
  · exact absurd attends (quiet f σ rest active c d parent needed)

/-- A sound session is settled while no initializer runs. -/
lemma settled_of_isFree (sound : s.Sound p) (free : s.IsFree) : s.Settled p :=
  sound.settled fun f σ rest active => absurd active (free f σ rest)

/-- A sound session is settled while a method runs. -/
lemma settled_of_method {r : MethodRef} (sound : s.Sound p)
    (active : s.active = .method r :: rest) : s.Settled p :=
  sound.settled_of_isFree fun f σ rest active' => by
    rw [active] at active'
    cases active'

/-- When an initializer calls the method of its class or returns, it attends to no parent. -/
lemma settled_of_line? {l : Line Label Label} (sound : s.Sound p)
    (active : s.active = .initializer f σ :: rest) (here : f.line? σ = some l)
    (other : ∀ n, l ≠ callLine (.initializer n)) (stays : l.run? silent (σ.on s.memory) = none) :
    s.Settled p := by
  refine sound.settled fun f' σ' rest' active' c d parent needed attends => ?_
  rw [active] at active'
  cases active'
  rcases attends.goes_on parent needed with call | ⟨σ', step⟩
  · exact other _ (Option.some.inj (here.symm.trans call))
  · have here' : f.line? (σ.on s.memory) = some l := here
    rw [Function.step?, here'] at step
    cases stays.symm.trans step

/-- Something returns that owes nothing. -/
lemma pop (sound : s.Sound p) (settled : s.Settled p) (active : s.active = a :: rest)
    (free : a.owed? = none) : Sound p { s with active := rest } := by
  have same : promised { s with active := rest } = s.promised := by
    rw [promised, promised, active, List.filterMap_cons_none free]
  have tail : s.active.tail = rest := by rw [active, List.tail_cons]
  refine ⟨sound.flags, ?_, ?_, same ▸ sound.nodup, same ▸ sound.marked, ?_⟩
  · intro f σ rest' active'
    have mem : .initializer f σ ∈ s.active.tail := by
      rw [tail, show rest = _ from active']
      exact List.mem_cons_self ..
    obtain ⟨c, memc, eq, set, made, calls, ready⟩ := sound.waiting f σ mem
    exact ⟨c, memc, eq, .calls made calls set ready⟩
  · intro f σ mem
    apply sound.waiting f σ
    rw [tail]
    exact List.mem_of_mem_tail mem
  · intro c memc set d parent needed
    exact .inl (settled c memc set d parent needed)

/-- An initializer is called. -/
lemma of_push (flags : ∀ c ∈ p.classes,
      ∃ isSet, s.memory (flagsAddress c.name) = some (.i32, flagsWord isSet))
    (waiting : ∀ f σ, .initializer f σ ∈ s.active → Waits p s.memory f σ)
    (nodup : s.promised.Nodup)
    (marked : ∀ r, r ∈ s.promised ↔
      ∃ c ∈ p.classes, ∃ m, c.initializer? = some m ∧ r = c.reference m ∧ IsSet s.memory c)
    (memd : d ∈ p.classes)
    (links : ∀ c ∈ p.classes, IsSet s.memory c → ∀ e, p.IsParent c e →
      p.needsInitialization e.name = true → IsSet s.memory e ∨ e = d) :
    Sound p (s.push (p.initializer d)) := by
  obtain ⟨isSet, flagsd⟩ := flags d memd
  have checks : Program.Checks isSet (.start (fun _ => none) s.memory) := .load rfl rfl
  refine ⟨flags, ?_, waiting, ?_, ?_, ?_⟩
  · intro f σ rest active
    cases active
    exact ⟨d, memd, rfl, .checks isSet flagsd checks⟩
  · rw [promised, push, List.filterMap_cons_none checks.owed?_eq]
    exact nodup
  · rw [promised, push, List.filterMap_cons_none checks.owed?_eq]
    exact marked
  · intro c memc set e parent needed
    refine (links c memc set e parent needed).imp_right fun same => ?_
    subst same
    exact ⟨_, _, _, rfl, .inr ⟨rfl, isSet, flagsd, checks⟩⟩

/-- A call of the method of its class moves the promise of an initializer to the called methods. -/
lemma run {r : MethodRef} (sound : s.Sound p) (active : s.active = .initializer f σ :: rest)
    (here : f.line? σ = some (callLine (.method r))) :
    Sound p { s with called := r :: s.called
                     active := .method r :: .initializer f (σ.next s.memory) :: rest } := by
  have settled := sound.settled_of_line? active here (by rintro _ ⟨⟩) rfl
  obtain ⟨c, memc, rfl, stage⟩ := sound.running f σ rest active
  obtain ⟨set, made, rest', calls⟩ := stage.calls_of_line? here
  obtain ⟨rfl, _⟩ := calls.of_method
  have next := calls.next s.memory
  have moved : (promised { s with called := r :: s.called
                                  active := .method r ::
                                    .initializer (p.initializer c) (σ.next s.memory) :: rest }).Perm
      s.promised := by
    rw [promised, promised, active, List.filterMap_cons_none rfl,
      List.filterMap_cons_none next.owed?_eq, List.filterMap_cons_some calls.owed?_eq]
    exact List.perm_middle
  have tail : s.active.tail = rest := by rw [active, List.tail_cons]
  refine ⟨sound.flags, nofun, ?_, moved.nodup_iff.2 sound.nodup, fun r' => ?_, ?_⟩
  · intro g τ mem
    cases mem with
    | head => exact ⟨c, memc, rfl, set, _, _, next⟩
    | tail _ mem => exact sound.waiting g τ (tail ▸ mem)
  · rw [moved.mem_iff]
    exact sound.marked r'
  · intro c memc set d parent needed
    exact .inl (settled c memc set d parent needed)

/-- An initializer calls that of the parent. -/
lemma enter (sound : s.Sound p) (active : s.active = .initializer f σ :: rest)
    (memd : d ∈ p.classes) (here : f.line? σ = some (callLine (.initializer d.name))) :
    Sound p (push { s with active := .initializer f (σ.next s.memory) :: rest }
      (p.initializer d)) := by
  have tail : s.active.tail = rest := by rw [active, List.tail_cons]
  obtain ⟨c, memc, rfl, stage⟩ := sound.running f σ rest active
  obtain ⟨set, made, rest', calls⟩ := stage.calls_of_line? here
  have next := calls.next s.memory
  have owed : (ActiveCall.initializer (p.initializer c) (σ.next s.memory)).owed? =
      (ActiveCall.initializer (p.initializer c) σ).owed? := by
    rw [next.owed?_eq, calls.owed?_eq]
    rfl
  have same : promised
      { s with active := .initializer (p.initializer c) (σ.next s.memory) :: rest } =
        s.promised := by
    rw [promised, promised, active, List.filterMap_cons, List.filterMap_cons, owed]
  refine of_push sound.flags ?_ (same ▸ sound.nodup) (same ▸ sound.marked) memd ?_
  · intro g τ mem
    cases mem with
    | head => exact ⟨c, memc, rfl, set, _, _, next⟩
    | tail _ mem => exact sound.waiting g τ (tail ▸ mem)
  · intro c' memc' set' e parent needed
    refine (sound.links c' memc' set' e parent needed).imp_right ?_
    rintro ⟨f', σ', rest'', active', attends⟩
    rw [active] at active'
    cases active'
    rcases attends.goes_on parent needed with call | ⟨_, step⟩
    · have same := Program.callLine_inj (Option.some.inj (call.symm.trans here))
      have name := Symbol.initializer.inj same
      obtain ⟨_, _, found⟩ := parent
      exact Program.eq_of_name_eq (Program.lookup?_eq_some_iff.1 found).1 memd name
    · rw [Function.step?_call here] at step
      cases step

/-- An initializer executes a line that leaves the memory as it is. -/
lemma replace {σ' : State Label} (sound : s.Sound p)
    (active : s.active = .initializer (p.initializer c) σ :: rest) (memc : c ∈ p.classes)
    (stage : p.Stage s.memory c σ')
    (owed : (ActiveCall.initializer (p.initializer c) σ').owed? =
      (ActiveCall.initializer (p.initializer c) σ).owed?)
    (attends : ∀ d ∈ p.classes, ∀ e, p.IsParent d e → p.needsInitialization e.name = true →
      p.Attends s.memory d e (p.initializer c) σ →
        IsSet s.memory e ∨ p.Attends s.memory d e (p.initializer c) σ') :
    Sound p { s with active := .initializer (p.initializer c) σ' :: rest } := by
  have same : promised { s with active := .initializer (p.initializer c) σ' :: rest } =
      s.promised := by
    rw [promised, promised, active, List.filterMap_cons, List.filterMap_cons, owed]
  have tail : s.active.tail = rest := by rw [active, List.tail_cons]
  refine ⟨sound.flags, ?_, ?_, same ▸ sound.nodup, same ▸ sound.marked, ?_⟩
  · intro f τ rest' active'
    cases active'
    exact ⟨c, memc, rfl, stage⟩
  · intro f τ mem
    exact sound.waiting f τ (tail ▸ mem)
  · intro d memd set e parent needed
    rcases sound.links d memd set e parent needed with set' | ⟨f, τ, rest', active', holds⟩
    · exact .inl set'
    · rw [active] at active'
      cases active'
      exact (attends d memd e parent needed holds).imp_right fun holds =>
        ⟨_, _, _, rfl, holds⟩

/-- An initializer sets the flag. -/
lemma mark {σ' : State Label} (sound : s.Sound p)
    (active : s.active = .initializer (p.initializer c) σ :: rest) (memc : c ∈ p.classes)
    (flags : s.memory (flagsAddress c.name) = some (.i32, flagsWord false))
    (checks : Program.Checks false σ) (calls : p.Calls c σ' [] (p.initializerCalls c)) :
    Sound p { s with
      memory := Function.update s.memory (flagsAddress c.name) (some (.i32, flagsWord true))
      active := .initializer (p.initializer c) σ' :: rest } := by
  have unset : ¬ IsSet s.memory c := fun set => by
    rw [IsSet, flags] at set
    cases set
  have kept {e : ClassDef} (set : IsSet s.memory e) :
      IsSet (Function.update s.memory (flagsAddress c.name) (some (.i32, flagsWord true))) e :=
    isSet_update_iff.2 (.inl set)
  have tail : s.active.tail = rest := by rw [active, List.tail_cons]
  have promises : promised { s with
      memory := Function.update s.memory (flagsAddress c.name) (some (.i32, flagsWord true))
      active := .initializer (p.initializer c) σ' :: rest } =
        (c.initializer?.map c.reference).toList ++ s.promised := by
    rw [promised, promised, active, List.filterMap_cons_none checks.owed?_eq, List.filterMap_cons,
      calls.owed?_eq, Program.findSome?_initializerCalls]
    cases c.initializer? <;> rfl
  refine ⟨fun e meme => ?_, ?_, ?_, ?_, fun r => ?_, ?_⟩
  · by_cases same : e.name = c.name
    · exact ⟨true, isSet_update_iff.2 (.inr same)⟩
    · have other : flagsAddress e.name ≠ flagsAddress c.name := fun eq => same (flagsAddress_inj eq)
      exact (sound.flags e meme).imp fun _ here => (Function.update_of_ne other ..).trans here
  · intro f τ rest' active'
    cases active'
    exact ⟨c, memc, rfl, .calls _ _ (isSet_update_iff.2 (.inr rfl)) calls⟩
  · intro f τ mem
    obtain ⟨e, meme, eq, set, ready⟩ := sound.waiting f τ (tail ▸ mem)
    exact ⟨e, meme, eq, kept set, ready⟩
  · rw [promises, List.nodup_append]
    refine ⟨?_, sound.nodup, ?_⟩
    · cases c.initializer? <;> simp
    · -- an old promise of the own `<clinit>` would mean that the word had been set
      rintro r own _ old rfl
      obtain ⟨m, _, rfl⟩ := Option.map_eq_some_iff.1 (Option.mem_toList.1 own)
      obtain ⟨e, meme, m', _, eq, set⟩ := (sound.marked _).1 old
      obtain rfl := Program.eq_of_name_eq memc meme (congrArg MethodRef.className eq)
      exact unset set
  · rw [promises, List.mem_append, sound.marked, Option.mem_toList, Option.map_eq_some_iff]
    constructor
    · rintro (⟨m, own, rfl⟩ | ⟨e, meme, m, own, eq, set⟩)
      · exact ⟨c, memc, m, own, rfl, isSet_update_iff.2 (.inr rfl)⟩
      · exact ⟨e, meme, m, own, eq, kept set⟩
    · rintro ⟨e, meme, m, own, rfl, set⟩
      rcases isSet_update_iff.1 set with set | same
      · exact .inr ⟨e, meme, m, own, rfl, set⟩
      · obtain rfl := Program.eq_of_name_eq meme memc same
        exact .inl ⟨m, own, rfl⟩
  · -- the parent of the class itself is called next, the links of the others are kept
    intro d memd set e parent needed
    rcases isSet_update_iff.1 set with set | same
    · rcases sound.links d memd set e parent needed with set' | ⟨f, τ, rest', active', attends⟩
      · exact .inl (kept set')
      · rw [active] at active'
        cases active'
        rcases attends with ⟨_, ready⟩ | ⟨eq, _⟩
        · exact absurd checks (ready.not_checks)
        · have name := Symbol.initializer.inj (congrArg Function.name eq)
          exact .inl (isSet_update_iff.2 (.inr name.symm))
    · obtain rfl := Program.eq_of_name_eq memd memc same
      exact .inr ⟨_, _, _, rfl, .inl ⟨rfl, calls⟩⟩

/-- An initializer executes a line. -/
lemma line {σ' : State Label} (sound : s.Sound p) (active : s.active = .initializer f σ :: rest)
    (step : f.step? silent (σ.on s.memory) = some σ') :
    Sound p { s with memory := σ'.memory, active := .initializer f σ' :: rest } := by
  obtain ⟨c, memc, rfl, stage⟩ := sound.running f σ rest active
  have parents {d e : ClassDef} (parent : p.IsParent d e) : e ∈ p.classes := by
    obtain ⟨_, _, found⟩ := parent
    exact (Program.lookup?_eq_some_iff.1 found).1
  cases stage with
  | checks isSet flags checks =>
    obtain ⟨τ, step', outcome⟩ := Program.step_of_checks (p := p) flags checks
    obtain rfl : σ' = τ := Option.some.inj (step.symm.trans step')
    -- only the initializer of the parent attends to a link while it looks at its flag
    have attended {d e : ClassDef} (parent : p.IsParent d e)
        (attends : p.Attends s.memory d e (p.initializer c) σ) : e = c := by
      rcases attends with ⟨_, calls⟩ | ⟨eq, _⟩
      · exact absurd checks calls.not_checks
      · exact (Program.initializer_inj memc (parents parent) eq).symm
    rcases outcome with ⟨memory, _, checks' | ⟨rfl, returns⟩⟩ | ⟨rfl, memory, calls⟩
    · rw [memory]
      refine sound.replace active memc (.checks isSet flags checks')
        (checks'.owed?_eq.trans checks.owed?_eq.symm) fun d _ e parent _ attends => ?_
      obtain rfl := attended parent attends
      exact .inr (.inr ⟨rfl, isSet, flags, checks'⟩)
    · rw [memory]
      refine sound.replace active memc (.returns flags returns)
        (returns.owed?_eq.trans checks.owed?_eq.symm) fun d _ e parent _ attends => ?_
      obtain rfl := attended parent attends
      exact .inl flags
    · rw [memory]
      exact sound.mark active memc flags checks calls
  | calls made rest' set calls =>
    cases rest' with
    | cons next rest' =>
      rw [Function.step?_call (Program.line?_of_calls calls)] at step
      cases step
    | nil =>
      have here := Program.line?_of_calls_nil calls
      have goes : (p.initializer c).step? silent (σ.on s.memory) =
          some ((σ.on s.memory).enter .exit) := Function.step?_leave (σ := σ.on s.memory) here rfl
      obtain rfl := Option.some.inj (step.symm.trans goes)
      have returns : Program.Returns ((σ.on s.memory).enter .exit) := ⟨rfl, rfl⟩
      refine sound.replace active memc (.returns set returns)
        (returns.owed?_eq.trans calls.owed?_eq.symm) fun d memd e parent needed attends => ?_
      rcases attends with ⟨eq, calls'⟩ | ⟨_, _, _, checks⟩
      · obtain rfl := Program.initializer_inj memc memd eq
        obtain ⟨rest', first⟩ := Program.initializerCalls_of_isParent parent needed
        rw [first] at calls'
        cases here.symm.trans (Program.line?_of_calls calls')
      · exact absurd checks calls.not_checks
  | returns set returns =>
    rw [Function.step?_return (Program.line?_of_returns returns)] at step
    cases step

end Sound

/-- The initializers of a module are those of the classes that need one. -/
lemma mem_initializers {f : Function Label} : .define f ∈ b.initializers ↔
    ∃ c ∈ b.program.classes, b.program.needsInitialization c.name = true ∧
      f = b.program.initializer c := by
  rw [Backend.initializers]
  constructor
  · intro mem
    obtain ⟨c, memc, mem⟩ := List.mem_flatMap.1 mem
    obtain ⟨memc, needed⟩ := List.mem_filter.1 memc
    cases List.mem_pair.1 mem with
    | inl same => exact ⟨c, List.mem_mergeSort.1 memc, needed, Entry.define.inj same⟩
    | inr blank => cases blank
  · rintro ⟨c, memc, needed, rfl⟩
    exact List.mem_flatMap.2 ⟨c, List.mem_filter.2 ⟨List.mem_mergeSort.2 memc, needed⟩,
      List.mem_cons_self ..⟩

/-- What holds at any time still holds after a step. -/
lemma Sound.step (sound : s.Sound b.program) (step : Step b s s') : s'.Sound b.program := by
  cases step with
  | call free emitted =>
    obtain ⟨d, memd, _, rfl⟩ := mem_initializers.1 emitted
    refine .of_push sound.flags ?_ sound.nodup sound.marked memd ?_
    · -- no initializer is on top when one is called from outside, so those in line wait already
      intro f σ mem
      apply sound.waiting f σ
      cases active : s.active with
      | nil =>
        rw [active] at mem
        cases mem
      | cons a rest =>
        rw [active] at mem
        cases mem with
        | head => exact absurd active (free f σ rest)
        | tail _ mem => exact mem
    · intro c memc set e parent needed
      exact .inl (sound.settled_of_isFree free c memc set e parent needed)
  | @act m free same =>
    have sets {c : ClassDef} : IsSet m c ↔ IsSet s.memory c := by rw [IsSet, same, ← IsSet]
    refine ⟨fun c memc => ?_, fun f σ rest active => absurd active (free f σ rest), ?_,
      sound.nodup, fun r => ?_, ?_⟩
    · simp only [same]
      exact sound.flags c memc
    · intro f σ mem
      obtain ⟨c, memc, eq, set, ready⟩ := sound.waiting f σ mem
      exact ⟨c, memc, eq, sets.2 set, ready⟩
    · simp only [sets]
      exact sound.marked r
    · intro c memc set e parent needed
      exact .inl (sets.2 (sound.settled_of_isFree free c memc (sets.1 set) e parent needed))
  | finish active => exact sound.pop (sound.settled_of_method active) active rfl
  | line active step => exact sound.line active step
  | enter active here emitted =>
    obtain ⟨d, memd, _, rfl⟩ := mem_initializers.1 emitted
    exact sound.enter active memd here
  | run active here => exact sound.run active here
  | leave active here =>
    have settled := sound.settled_of_line? active here (by rintro _ ⟨⟩) rfl
    obtain ⟨c, _, rfl, stage⟩ := sound.running _ _ _ active
    exact sound.pop settled active (stage.returns_of_line? here).2.owed?_eq

/-- It holds throughout. -/
lemma Sound.run_keeps (sound : s.Sound b.program) (run : Relation.ReflTransGen (Step b) s s') :
    s'.Sound b.program := by
  induction run with
  | refl => exact sound
  | tail _ step ih => exact ih.step step

section Returning

/-- How many classes have not been marked. -/
def unmarked (p : Program) (s : Session) : Nat :=
  (p.classes.filter fun c => s.memory (flagsAddress c.name) ≠ some (.i32, flagsWord true)).length

/-- How much is ahead of what is active, if no flag is set any more. -/
def ahead (s : Session) : Nat := (s.active.map ActiveCall.ahead).sum

/-- What is ahead is what is ahead of the topmost call and of those below it. -/
lemma ahead_eq (active : s.active = a :: rest) :
    s.ahead = a.ahead + (rest.map ActiveCall.ahead).sum := by
  rw [ahead, active, List.map_cons, List.sum_cons]

/-- Less is left to be done: more flags are set, or less is ahead. -/
def Closer (p : Program) (s' s : Session) : Prop :=
  Prod.Lex (· < ·) (· < ·) (s'.unmarked p, s'.ahead) (s.unmarked p, s.ahead)

/-- Something is done without a change of the memory. -/
lemma Closer.of_ahead (same : s'.memory = s.memory) (lt : s'.ahead < s.ahead) : Closer p s' s := by
  rw [Closer, unmarked, same]
  exact .right _ lt

/-- A flag is set. -/
lemma Closer.of_mark (memc : c ∈ p.classes) (unset : ¬ IsSet s.memory c)
    (marks : s'.memory =
      Function.update s.memory (flagsAddress c.name) (some (.i32, flagsWord true))) :
    Closer p s' s := by
  let unsetIn (m : Memory) (e : ClassDef) : Bool :=
    decide (m (flagsAddress e.name) ≠ some (.i32, flagsWord true))
  have fewer : p.classes.filter (unsetIn s'.memory) =
      (p.classes.filter (unsetIn s.memory)).filter (unsetIn s'.memory) := by
    rw [List.filter_filter]
    refine List.filter_congr fun e _ => ?_
    have imp : unsetIn s'.memory e = true → unsetIn s.memory e = true := by
      simp only [unsetIn, decide_eq_true_eq, marks]
      exact mt fun set => (isSet_update_iff (c := c)).2 (.inl set)
    cases h : unsetIn s'.memory e with
    | false => rfl
    | true => rw [imp h]; rfl
  apply Prod.Lex.left
  change (p.classes.filter (unsetIn s'.memory)).length <
    (p.classes.filter (unsetIn s.memory)).length
  rw [fewer, List.length_filter_lt_length_iff_exists]
  refine ⟨c, List.mem_filter.2 ⟨memc, decide_eq_true unset⟩, ?_⟩
  have set : IsSet s'.memory c := marks ▸ isSet_update_iff.2 (.inr rfl)
  have here : s'.memory (flagsAddress c.name) = some (.i32, flagsWord true) := set
  simp [unsetIn, here]

/-- As long as something is active, it can get closer to its end. -/
lemma Sound.exists_step (sound : s.Sound b.program) (active : s.active = a :: rest) :
    ∃ s', Step b s s' ∧ Closer b.program s' s := by
  have front := ahead_eq active
  cases a with
  | method r =>
    refine ⟨_, .finish active, .of_ahead rfl ?_⟩
    rw [front]
    exact Nat.lt_add_of_pos_left Nat.one_pos
  | initializer f σ =>
    obtain ⟨c, memc, rfl, stage⟩ := sound.running f σ rest active
    rw [ActiveCall.ahead] at front
    cases stage with
    | checks isSet flags checks =>
      obtain ⟨σ', step, outcome⟩ := Program.step_of_checks (p := b.program) flags checks
      refine ⟨_, .line active step, ?_⟩
      rcases outcome with ⟨memory, lt, _⟩ | ⟨rfl, memory, _⟩
      · refine .of_ahead memory ?_
        rw [front, ahead_eq rfl]
        exact Nat.add_lt_add_right lt _
      · have unset : ¬ IsSet s.memory c := fun set => by
          rw [IsSet, flags] at set
          cases set
        exact .of_mark memc unset memory
    | calls made rest' set calls =>
      have here := calls.ahead_eq
      cases rest' with
      | nil =>
        have line := Program.line?_of_calls_nil calls
        have goes : (b.program.initializer c).step? silent (σ.on s.memory) =
            some ((σ.on s.memory).enter .exit) :=
          Function.step?_leave (σ := σ.on s.memory) line rfl
        refine ⟨_, .line active goes, .of_ahead rfl ?_⟩
        rw [front, ahead_eq rfl, here]
        exact Nat.add_lt_add_right (show 1 < _ + 2 by omega) _
      | cons x rest' =>
        have line := Program.line?_of_calls calls
        have next := (calls.next s.memory).ahead_eq
        have lt := calls.length_lt
        rw [List.length_append, List.length_singleton] at next
        have memx : x ∈ b.program.initializerCalls c := by
          rw [calls.calls]
          exact List.mem_append_right _ (List.mem_cons_self ..)
        rcases Program.mem_initializerCalls.1 memx with ⟨n, parent, rfl⟩ | ⟨m, own, rfl⟩
        · have needed := (Option.filter_eq_some_iff.1 parent).2
          obtain ⟨d, memd, rfl⟩ := Backend.declares_of_needsInitialization needed
          refine ⟨_, .enter (g := b.program.initializer d) active line
            (mem_initializers.2 ⟨d, memd, needed, rfl⟩), .of_ahead rfl ?_⟩
          rw [front, ahead_eq rfl, List.map_cons, List.sum_cons, ActiveCall.ahead,
            ActiveCall.ahead, show Program.ahead (.start (fun _ => none) s.memory) = 8 from rfl]
          omega
        · refine ⟨_, .run active line, .of_ahead rfl ?_⟩
          rw [front, ahead_eq rfl, List.map_cons, List.sum_cons, ActiveCall.ahead,
            ActiveCall.ahead]
          omega
    | returns set returns =>
      refine ⟨_, .leave active (Program.line?_of_returns returns), .of_ahead rfl ?_⟩
      rw [front, returns.ahead_eq]
      exact Nat.lt_add_of_pos_left Nat.one_pos

/-- Whatever is active can return. -/
lemma Sound.exists_return (sound : s.Sound b.program) :
    ∃ s', Relation.ReflTransGen (Step b) s s' ∧ s'.active = [] := by
  have wf : WellFounded (Closer b.program) :=
    InvImage.wf (fun s : Session => (s.unmarked b.program, s.ahead))
      (WellFounded.prod_lex Nat.lt_wfRel.wf Nat.lt_wfRel.wf)
  induction s using wf.induction with
  | _ s ih =>
    cases active : s.active with
    | nil => exact ⟨s, .refl, active⟩
    | cons a rest =>
      obtain ⟨s₁, step, closer⟩ := sound.exists_step active
      obtain ⟨s', run, returned⟩ := ih s₁ closer (sound.step step)
      exact ⟨s', .head step run, returned⟩

end Returning

section Order

/-- What an active initializer will call is the method of its class. -/
lemma Sound.active_of_owed (sound : s.Sound p) (memd : d ∈ p.classes) {m : MethodDef}
    (owed : d.reference m ∈ s.active.filterMap ActiveCall.owed?) :
    ∃ σ, .initializer (p.initializer d) σ ∈ s.active := by
  obtain ⟨a, mema, owes⟩ := List.mem_filterMap.1 owed
  cases a with
  | method => cases owes
  | initializer f σ =>
    have placed : ∃ c ∈ p.classes, f = p.initializer c ∧ p.Stage s.memory c σ := by
      cases active : s.active with
      | nil =>
        rw [active] at mema
        cases mema
      | cons a rest =>
        rw [active] at mema
        cases mema with
        | head => exact sound.running f σ rest active
        | tail _ mem =>
          have mem : .initializer f σ ∈ s.active.tail := by rwa [active]
          obtain ⟨c, memc, eq, set, made, rest', calls⟩ := sound.waiting f σ mem
          exact ⟨c, memc, eq, .calls made rest' set calls⟩
    obtain ⟨c, memc, rfl, stage⟩ := placed
    have owner : c.name = d.name := by
      cases stage with
      | checks _ _ checks => cases checks.owed?_eq.symm.trans owes
      | returns _ returns => cases returns.owed?_eq.symm.trans owes
      | calls made rest' _ calls =>
        obtain ⟨x, memx, method⟩ :=
          List.exists_of_findSome?_eq_some (calls.owed?_eq.symm.trans owes)
        have memx : x ∈ p.initializerCalls c := calls.calls ▸ List.mem_append_right _ memx
        rcases Program.mem_initializerCalls.1 memx with ⟨n, _, rfl⟩ | ⟨m', _, rfl⟩
        · cases method
        · exact congrArg MethodRef.className (Option.some.inj method)
    obtain rfl := Program.eq_of_name_eq memc memd owner
    exact ⟨σ, mema⟩

/-- The methods of the ancestors of a class with its flag set have been called or will be. -/
lemma Sound.mem_promised (sound : s.Sound p) (settled : s.Settled p) (memc : c ∈ p.classes)
    (set : IsSet s.memory c) (mem : d ∈ p.ancestors c.name) {m : MethodDef}
    (own : d.initializer? = some m) : d.reference m ∈ s.promised :=
  (sound.marked _).2 ⟨d, Program.mem_of_mem_ancestors mem, m, own, rfl,
    settled.isSet_of_mem_ancestors memc set mem own⟩

/-- When a method is called for its class, those of the ancestors have been called or their
initializers are active. -/
lemma Sound.ancestors_first (sound : s.Sound b.program) (step : Step b s s')
    (memc : c ∈ b.program.classes) {r : MethodRef} (owner : r.className = c.name)
    (calls : s'.called = r :: s.called) (mem : d ∈ b.program.ancestors c.name) {m : MethodDef}
    (own : d.initializer? = some m) :
    d.reference m ∈ s.called ∨ ∃ σ, .initializer (b.program.initializer d) σ ∈ s.active := by
  cases step with
  | @run f σ rest r' active here =>
    obtain ⟨rfl, -⟩ := List.cons.inj calls
    have settled := sound.settled_of_line? active here (by rintro _ ⟨⟩) rfl
    obtain ⟨c', memc', rfl, stage⟩ := sound.running f σ rest active
    obtain ⟨set, made, rest', ready⟩ := stage.calls_of_line? here
    obtain ⟨_, m', _, rfl⟩ := ready.of_method
    obtain rfl := Program.eq_of_name_eq memc' memc owner
    rcases List.mem_append.1 (sound.mem_promised settled memc set mem own) with owed | called
    · exact .inr (sound.active_of_owed (Program.mem_of_mem_ancestors mem) owed)
    · exact .inl called
  | _ => exact absurd calls.symm (List.cons_ne_self r s.called)

/-- When an outermost initializer returns, the methods of all ancestors have been called. -/
lemma Sound.ancestors_called (sound : s.Sound b.program) (step : Step b s s')
    (memc : c ∈ b.program.classes)
    (outermost : s.active = [.initializer (b.program.initializer c) σ])
    (returned : s'.active = []) (mem : d ∈ b.program.ancestors c.name) {m : MethodDef}
    (own : d.initializer? = some m) : d.reference m ∈ s'.called := by
  cases step with
  | leave active here =>
    rw [outermost] at active
    cases active
    have settled := sound.settled_of_line? outermost here (by rintro _ ⟨⟩) rfl
    obtain ⟨c', memc', eq, stage⟩ := sound.running _ _ _ outermost
    obtain rfl := Program.initializer_inj memc memc' eq
    obtain ⟨set, returns⟩ := stage.returns_of_line? here
    have promised := sound.mem_promised settled memc set mem own
    rwa [Session.promised, outermost, List.filterMap_cons_none returns.owed?_eq] at promised
  | call free => exact absurd outermost (free _ _ _)
  | act free => exact absurd outermost (free _ _ _)
  | finish active =>
    rw [outermost] at active
    cases active
  | line | enter | run => cases returned

/-- Initializers of a module may be called in any order and from within the methods that they call.
Still the methods that they call are those that initialize classes, and no class is initialized
twice. When the method of a class is called, the method of each of its ancestors has been called or
its initializer is active; and when an outermost initializer returns, the methods of its class and
of all ancestors have been called. Of the flags only the last bit is changed. And whatever is active
can come to its end. -/
theorem initialized_once_in_order {settings : Settings}
    (built : Backend.ofProgram p settings = .ok b)
    {s₀ : Session} (fresh : s₀.Fresh p) (run : Relation.ReflTransGen (Step b) s₀ s) :
    (∀ r ∈ s.called, ∃ c ∈ p.classes, ∃ m, c.initializer? = some m ∧ r = c.reference m) ∧
    (s.called.map MethodRef.className).Nodup ∧
    (∀ s', Step b s s' → ∀ c ∈ p.classes, ∀ m, s'.called = c.reference m :: s.called →
      ∀ d ∈ p.ancestors c.name, ∀ m', d.initializer? = some m' →
        d.reference m' ∈ s.called ∨ ∃ σ, .initializer (p.initializer d) σ ∈ s.active) ∧
    (∀ s', Step b s s' → ∀ c ∈ p.classes, ∀ σ,
      s.active = [.initializer (p.initializer c) σ] → s'.active = [] →
      ∀ d ∈ p.ancestors c.name, ∀ m, d.initializer? = some m → d.reference m ∈ s'.called) ∧
    (∀ c ∈ p.classes, ∃ flags : BitVec 32,
      s.memory (flagsAddress c.name) = some (.i32, .int flags.toInt) ∧
      ∀ i, i ≠ 31 → flags.getLsbD i = false) ∧
    ∃ s', Relation.ReflTransGen (Step b) s s' ∧ s'.active = [] := by
  obtain ⟨rfl, -, -⟩ := Backend.ofProgram_spec built
  have sound : s.Sound b.program := (Sound.fresh fresh).run_keeps run
  have owned : ∀ r ∈ s.called,
      ∃ c ∈ b.program.classes, ∃ m, c.initializer? = some m ∧ r = c.reference m := by
    intro r mem
    obtain ⟨c, memc, m, own, eq, _⟩ := (sound.marked r).1 (List.mem_append_right _ mem)
    exact ⟨c, memc, m, own, eq⟩
  refine ⟨owned, ?_, ?_, ?_, ?_, sound.exists_return⟩
  · refine (List.nodup_append.1 sound.nodup).2.1.map_on fun r mem r' mem' same => ?_
    obtain ⟨c, memc, m, own, rfl⟩ := owned r mem
    obtain ⟨c', memc', m', own', rfl⟩ := owned r' mem'
    obtain rfl := Program.eq_of_name_eq memc memc' same
    rw [Option.some.inj (own.symm.trans own')]
  · intro s' step c memc m calls d mem m' own
    exact sound.ancestors_first step memc rfl calls mem own
  · intro s' step c memc σ outermost returned d mem m own
    exact sound.ancestors_called step memc outermost returned mem own
  · intro c memc
    obtain ⟨isSet, flags⟩ := sound.flags c memc
    cases isSet with
    | false => exact ⟨0, flags, fun i _ => BitVec.getLsbD_zero⟩
    | true =>
      refine ⟨.intMin 32, flags, fun i ne => ?_⟩
      rw [BitVec.getLsbD_intMin]
      exact decide_eq_false (by omega)

section Runs

variable {m : Memory} {called : List MethodRef} {made : List Symbol}

/-- An initializer that finds its flag unset comes to its calls, and sets nothing but the flag. -/
lemma exists_calls_setting (flags : m (flagsAddress c.name) = some (.i32, flagsWord false))
    (checks : Program.Checks false σ) (called : List MethodRef) (rest : List ActiveCall) :
    ∃ m' σ', (∀ a, a ≠ flagsAddress c.name → m' a = m a) ∧
      p.Calls c σ' [] (p.initializerCalls c) ∧
      Relation.ReflTransGen (Step b) ⟨m, called, .initializer (p.initializer c) σ :: rest⟩
        ⟨m', called, .initializer (p.initializer c) σ' :: rest⟩ := by
  induction ahead : Program.ahead σ using Nat.strong_induction_on generalizing σ with
  | _ n ih =>
    obtain ⟨σ', step, outcome⟩ := Program.step_of_checks (p := p) flags checks
    have first : Step b ⟨m, called, .initializer (p.initializer c) σ :: rest⟩
        ⟨σ'.memory, called, .initializer (p.initializer c) σ' :: rest⟩ :=
      .line (s := ⟨m, called, _⟩) rfl step
    rcases outcome with ⟨memory, lt, checks' | ⟨set, _⟩⟩ | ⟨_, memory, calls⟩
    · rw [memory] at first
      obtain ⟨m', σ'', kept, calls, run⟩ := ih _ (ahead ▸ lt) checks' rfl
      exact ⟨m', σ'', kept, calls, .head first run⟩
    · cases set
    · refine ⟨_, σ', fun a ne => ?_, calls, .single first⟩
      rw [memory]
      exact Function.update_of_ne ne ..

/-- The flags of other classes are kept. -/
lemma exists_calls (flags : m (flagsAddress c.name) = some (.i32, flagsWord false))
    (checks : Program.Checks false σ) (called : List MethodRef) (rest : List ActiveCall) :
    ∃ m' σ', (∀ name, name ≠ c.name → m' (flagsAddress name) = m (flagsAddress name)) ∧
      p.Calls c σ' [] (p.initializerCalls c) ∧
      Relation.ReflTransGen (Step b) ⟨m, called, .initializer (p.initializer c) σ :: rest⟩
        ⟨m', called, .initializer (p.initializer c) σ' :: rest⟩ := by
  obtain ⟨m', σ', kept, calls, run⟩ := exists_calls_setting flags checks called rest
  exact ⟨m', σ', fun name ne => kept _ fun eq => ne (flagsAddress_inj eq), calls, run⟩

/-- Its last call is that of the method of the class, which may change the memory but for the flags.
When that has returned, the initializer is about to do so, too. -/
lemma exists_returns_with {r : MethodRef} (calls : p.Calls c σ made [.method r]) {m m' : Memory}
    (flags : ∀ name, m' (flagsAddress name) = m (flagsAddress name)) (called : List MethodRef)
    (rest : List ActiveCall) :
    ∃ σ', Program.Returns σ' ∧
      Relation.ReflTransGen (Step b) ⟨m, called, .initializer (p.initializer c) σ :: rest⟩
        ⟨m', r :: called, .initializer (p.initializer c) σ' :: rest⟩ := by
  have here := Program.line?_of_calls_nil (calls.next m)
  have goes : (p.initializer c).step? silent ((σ.next m).on m') =
    some (((σ.next m).on m').enter .exit) :=
    Function.step?_leave (σ := (σ.next m).on m') here rfl
  refine ⟨((σ.next m).on m').enter .exit, ⟨rfl, rfl⟩, ?_⟩
  refine .head (.run (s := ⟨m, called, _⟩) rfl (Program.line?_of_calls calls)) ?_
  refine .head (.act (s := ⟨m, r :: called, _⟩) (by rintro _ _ _ ⟨⟩) flags) ?_
  refine .head (.finish (s := ⟨m', r :: called, _⟩) rfl) ?_
  exact .single (.line (s := ⟨m', r :: called, _⟩) rfl goes)

/-- The method may leave the memory as it is. -/
lemma exists_returns {r : MethodRef} (calls : p.Calls c σ made [.method r]) (m : Memory)
    (called : List MethodRef) (rest : List ActiveCall) :
    ∃ σ', Program.Returns σ' ∧
      Relation.ReflTransGen (Step b) ⟨m, called, .initializer (p.initializer c) σ :: rest⟩
        ⟨m, r :: called, .initializer (p.initializer c) σ' :: rest⟩ :=
  exists_returns_with calls (fun _ => rfl) called rest

end Runs

/-- A method that initializes its class with code from elsewhere. -/
def native : MethodDef :=
  { signature := ⟨initializerName, [], .void⟩
    isStatic := true, isNative := true, isAbstract := false, access := .anyClass, body := none }

/-- A class that is initialized. -/
def base : ClassDef := { ClassDef.empty "Base" with methods := [native] }

/-- A class whose parent is initialized, too. -/
def derived : ClassDef :=
  { ClassDef.empty "Derived" with parent := some "Base", methods := [native] }

/-- A program with a class and its parent. -/
def kin : Program := { classes := [base, derived], entryPoint := none, nodup := by decide }

/-- A back end can be built for the kin. -/
lemma exists_kin : ∃ b, Backend.ofProgram kin .default = .ok b := by
  have computed : ((Backend.ofProgram kin .default).toOption.map fun _ => ()) = some () := by cbv
  obtain ⟨b, made, _⟩ := Option.map_eq_some_iff.1 computed
  exact ⟨b, Except.eq_ok_of_toOption made⟩

/-- The memory in which neither class has been initialized. -/
def kinMemory : Memory := fun a =>
  if a = flagsAddress "Base" ∨ a = flagsAddress "Derived" then some (.i32, flagsWord false)
  else none

/-- Nothing of the kin has been initialized at the start. -/
lemma kin_fresh : Fresh kin ⟨kinMemory, [], []⟩ := ⟨by decide, rfl, rfl⟩

/-- The initializer of the class calls that of its parent, which is about to call its method then.
-/
lemma kin_calls_base {b : Backend} (built : Backend.ofProgram kin .default = .ok b) :
    ∃ (m : Memory) (σ τ : State Label) (made : List Symbol),
      Relation.ReflTransGen (Step b) ⟨kinMemory, [], []⟩ ⟨m, [],
        [.initializer (kin.initializer base) τ, .initializer (kin.initializer derived) σ]⟩ ∧
      kin.Calls derived σ made [.method (derived.reference native)] ∧
      kin.Calls base τ [] [.method (base.reference native)] := by
  obtain ⟨program, -, -⟩ := Backend.ofProgram_spec built
  have emitted (c : ClassDef) (mem : c ∈ kin.classes)
      (needed : kin.needsInitialization c.name = true) :
      .define (kin.initializer c) ∈ b.initializers :=
    mem_initializers.2 ⟨c, program ▸ mem, program ▸ needed, program ▸ rfl⟩
  have calls : kin.initializerCalls derived =
      [.initializer "Base", .method (derived.reference native)] := by cbv
  have calls' : kin.initializerCalls base = [.method (base.reference native)] := by cbv
  have memb : base ∈ kin.classes := List.mem_cons_self ..
  have memd : derived ∈ kin.classes := List.mem_cons_of_mem _ (List.mem_cons_self ..)
  have start : Step b ⟨kinMemory, [], []⟩ (push ⟨kinMemory, [], []⟩ (kin.initializer derived)) :=
    .call (fun _ _ _ => (List.cons_ne_nil _ _).symm) (emitted derived memd (by cbv))
  -- The flag of the class is set, and the initializer of its parent called.
  obtain ⟨m₁, σ₁, kept, calls₁, run₁⟩ := exists_calls (b := b) (p := kin) (c := derived)
    (m := kinMemory) (σ := .start (fun _ => none) kinMemory) (by decide) (.load rfl rfl) [] []
  rw [calls] at calls₁
  have enter := Step.enter (s := ⟨m₁, [], [.initializer (kin.initializer derived) σ₁]⟩)
    (g := kin.initializer base) rfl (Program.line?_of_calls calls₁) (emitted base memb (by cbv))
  -- The same for the parent.
  obtain ⟨m₂, σ₂, -, calls₂, run₂⟩ := exists_calls (b := b) (p := kin) (c := base) (m := m₁)
    (σ := .start (fun _ => none) m₁)
    ((kept "Base" (by decide)).trans (show kinMemory _ = _ by decide))
    (.load rfl rfl) [] [.initializer (kin.initializer derived) (σ₁.next m₁)]
  rw [calls'] at calls₂
  exact ⟨m₂, σ₁.next m₁, σ₂, _, (((Relation.ReflTransGen.single start).trans run₁).tail enter).trans
    run₂, calls₁.next m₁, calls₂⟩

/-- Both classes have been initialized when the initializer of the one with a parent returns. -/
theorem kin_initialized :
    ∃ b s₀ s s', Backend.ofProgram kin .default = .ok b ∧ s₀.Fresh kin ∧
      Relation.ReflTransGen (Step b) s₀ s ∧ Step b s s' ∧
      (∃ σ, s.active = [.initializer (kin.initializer derived) σ]) ∧ s'.active = [] ∧
      base.reference native ∈ s'.called ∧ derived.reference native ∈ s'.called := by
  obtain ⟨b, built⟩ := exists_kin
  obtain ⟨m, σ, τ, _, run, calls, calls'⟩ := kin_calls_base built
  have memd : derived ∈ kin.classes := List.mem_cons_of_mem _ (List.mem_cons_self ..)
  -- The method of the parent returns, then its initializer, and after that the method of the class.
  obtain ⟨τ', returns, run₁⟩ := exists_returns (b := b) calls' m []
    [.initializer (kin.initializer derived) σ]
  have leave := Step.leave (b := b)
    (s := ⟨m, [base.reference native], [_, .initializer (kin.initializer derived) σ]⟩) rfl
    (Program.line?_of_returns (p := kin) (c := base) returns)
  obtain ⟨σ', returns', run₂⟩ := exists_returns (b := b) calls m [base.reference native] []
  have last := Step.leave (b := b)
    (s := ⟨m, [derived.reference native, base.reference native], [_]⟩) rfl
    (Program.line?_of_returns (p := kin) (c := derived) returns')
  have run := ((run.trans run₁).tail leave).trans run₂
  have above : base ∈ kin.ancestors derived.name :=
    Program.mem_ancestors.2 ⟨derived, Program.lookup?_of_mem memd, .single ⟨"Base", rfl, rfl⟩⟩
  have ancestors := (initialized_once_in_order built kin_fresh run).2.2.2.1 _ last derived
    memd σ' rfl rfl
  refine ⟨b, _, _, _, built, kin_fresh, run, last, ⟨σ', rfl⟩, rfl, ?_, ?_⟩
  · exact ancestors base above native rfl
  · exact ancestors derived (Program.mem_ancestors_self memd) native rfl

end Order

end Session

end ObjectBackend
