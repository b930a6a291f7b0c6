import Mathlib.Data.List.Chain
import ObjectBackend.Proofs.Image.Initialization

/-!
# Failed initialization

What an initializer does when that of the parent comes back with an exception. A call that waits is
behind the line that has made it (`Session.Stacked.run_keeps`), so the initializer has its own
method still to call, if the class has one; and that is its next step, whatever the memory holds
(`Session.step_of_calls`). Nothing looks at the pending exception, which is only seen to behind the
call sites of methods.
-/

namespace ObjectBackend

open Target

/-- What is called when a call becomes active. -/
def ActiveCall.symbol : ActiveCall → Symbol
  | .initializer f _ => f.name
  | .method r => .method r

/-- An active call has been made by the one below it, if that is an initializer. -/
def ActiveCall.Awaited (a below : ActiveCall) : Prop :=
  ∀ f σ, below = .initializer f σ →
    ∃ σ₀ m, σ = State.next σ₀ m ∧ f.line? σ₀ = some (callLine a.symbol)

namespace Program

variable {p : Program} {c : ClassDef} {σ : State Label} {m : Memory} {made rest : List Symbol}
  {x : Symbol} {n : String}

/-- Behind a call, that call is the last one that has been made. -/
lemma Calls.last_made (calls : Calls p c (σ.next m) made rest)
    (here : (p.initializer c).line? σ = some (callLine x)) : ∃ before, made = before ++ [x] := by
  obtain ⟨all, label, position⟩ := calls
  have label : σ.label = .init := label
  rcases List.eq_nil_or_concat' made with rfl | ⟨before, y, rfl⟩
  -- the line in front of the first call is the one that sets the flag
  · obtain position : σ.position = 1 := Nat.succ.inj position
    rw [line?_of_label lines?_init label, position] at here
    cases here
  · rw [List.length_append, List.length_singleton] at position
    have earlier : Calls p c σ before (y :: rest) :=
      ⟨by rw [all, List.append_assoc]; rfl, label, Nat.succ.inj position⟩
    rw [line?_of_calls earlier] at here
    obtain rfl := callLine_inj (Option.some.inj here)
    exact ⟨before, rfl⟩

/-- Behind the call of another initializer, which is that of the parent, only the method of the
class is still to be called. -/
lemma Calls.behind_parent (calls : Calls p c (σ.next m) made rest)
    (here : (p.initializer c).line? σ = some (callLine (.initializer n))) :
    c.parentName.filter p.needsInitialization = some n ∧
      rest = (c.initializer?.map fun m => Symbol.method (c.reference m)).toList := by
  obtain ⟨before, rfl⟩ := calls.last_made here
  have eq := calls.calls
  rw [initializerCalls] at eq
  generalize c.parentName.filter p.needsInitialization = parent at eq ⊢
  generalize c.initializer? = own at eq ⊢
  cases parent <;> cases own <;> cases before with
  | nil => simp_all
  | cons first before => cases before <;> simp_all

end Program

namespace Session

variable {b : Backend} {s s' : Session} {a : ActiveCall} {rest : List ActiveCall}
  {f g : Function Label} {σ τ : State Label} {c : ClassDef}

/-- Every active call has been made by the one below it. -/
def Stacked (s : Session) : Prop := s.active.IsChain ActiveCall.Awaited

/-- A step keeps that active calls have been made by those below them. -/
lemma Stacked.step (stacked : s.Stacked) (step : Step b s s') : s'.Stacked := by
  -- what is below an initializer does not see how far it has got
  have advance {f : Function Label} {σ σ' : State Label} {rest : List ActiveCall}
      (chain : (.initializer f σ :: rest).IsChain ActiveCall.Awaited) :
      (.initializer f σ' :: rest).IsChain ActiveCall.Awaited := by
    rw [List.isChain_cons] at chain ⊢
    exact chain
  cases step with
  | call free =>
    refine List.isChain_cons.2 ⟨fun below first f σ eq => ?_, stacked⟩
    subst eq
    obtain ⟨rest, active⟩ := List.head?_eq_some_iff.1 first
    exact absurd active (free f σ rest)
  | act => exact stacked
  | finish active | leave active =>
    rw [Stacked, active] at stacked
    exact (List.isChain_cons.1 stacked).2
  | line active =>
    rw [Stacked, active] at stacked
    exact advance stacked
  | enter active here | run active here =>
    rw [Stacked, active] at stacked
    refine List.isChain_cons.2 ⟨fun below first f σ eq => ?_, advance stacked⟩
    obtain rfl := Option.some.inj first
    cases eq
    exact ⟨_, _, rfl, here⟩

/-- A run keeps that active calls have been made by those below them. -/
lemma Stacked.run_keeps (stacked : s.Stacked) (run : Relation.ReflTransGen (Step b) s s') :
    s'.Stacked := by
  induction run with
  | refl => exact stacked
  | tail _ step ih => exact ih.step step

/-- The initializer of a class is behind the call of another one, and `rest` is below it. -/
structure IsBack (b : Backend) (c : ClassDef) (σ : State Label) (rest : List ActiveCall)
    (s s' : Session) : Prop where
  step : Step b s s'
  called : ∃ g τ, s.active = .initializer g τ :: .initializer (b.program.initializer c) σ :: rest
  active : s'.active = .initializer (b.program.initializer c) σ :: rest

/-- The initializer that has returned is that of the parent, and what is still to be called is the
method of the class. -/
lemma IsBack.calls (sound : s.Sound b.program) (stacked : s.Stacked) (memc : c ∈ b.program.classes)
    (back : IsBack b c σ rest s s') :
    ∃ d ∈ b.program.classes,
      (∃ τ, s.active.head? = some (.initializer (b.program.initializer d) τ)) ∧
      c.parentName.filter b.program.needsInitialization = some d.name ∧
      ∃ made, b.program.Calls c σ made
        (c.initializer?.map fun m => Symbol.method (c.reference m)).toList := by
  obtain ⟨g, τ, active⟩ := back.called
  obtain ⟨d, memd, rfl, _⟩ := sound.running _ _ _ active
  have waits : .initializer (b.program.initializer c) σ ∈ s.active.tail := by
    rw [active]
    exact List.mem_cons_self ..
  obtain ⟨c', memc', eq, _, made, rest', calls⟩ := sound.waiting _ _ waits
  obtain rfl := Program.initializer_inj memc memc' eq
  rw [Stacked, active] at stacked
  obtain ⟨σ₀, m, rfl, here⟩ := (List.isChain_cons_cons.1 stacked).1 _ _ rfl
  obtain ⟨parent, rfl⟩ := calls.behind_parent here
  exact ⟨d, memd, ⟨τ, by rw [active]; rfl⟩, parent, made, calls⟩

/-- With only the method of its class to be called, an initializer calls it, if there is one, and
does nothing else. -/
lemma step_of_calls {made : List Symbol}
    (calls : b.program.Calls c σ made
      (c.initializer?.map fun m => Symbol.method (c.reference m)).toList)
    (active : s.active = .initializer (b.program.initializer c) σ :: rest) :
    (∃ s', Step b s s') ∧ ∀ s', Step b s s' →
      s'.memory = s.memory ∧ rest.length < s'.active.length ∧
      s'.called = (c.initializer?.map c.reference).toList ++ s.called := by
  have busy : ¬s.IsFree := fun free => free _ _ _ active
  cases own : c.initializer? with
  | some m =>
    rw [own] at calls
    have here := Program.line?_of_calls calls
    refine ⟨⟨_, .run active here⟩, fun s' step => ?_⟩
    -- the line calls `<clinit>`, so only `run` fits it
    cases step with
    | call free | act free => exact absurd free busy
    | finish active' => cases active.symm.trans active'
    | line active' step =>
      cases active.symm.trans active'
      rw [Function.step?_call here] at step
      cases step
    | enter active' here' emitted =>
      cases active.symm.trans active'
      obtain ⟨d, _, _, rfl⟩ := mem_initializers.1 emitted
      cases here.symm.trans here'
    | run active' here' =>
      cases active.symm.trans active'
      cases here.symm.trans here'
      exact ⟨rfl, Nat.lt_succ_of_lt (Nat.lt_succ_self _), rfl⟩
    | leave active' here' =>
      cases active.symm.trans active'
      cases here.symm.trans here'
  | none =>
    rw [own] at calls
    have here := Program.line?_of_calls_nil calls
    have goes : (b.program.initializer c).step? silent (σ.on s.memory) =
        some ((σ.on s.memory).enter .exit) := Function.step?_leave (σ := σ.on s.memory) here rfl
    refine ⟨⟨_, .line active goes⟩, fun s' step => ?_⟩
    cases step with
    | call free | act free => exact absurd free busy
    | finish active' => cases active.symm.trans active'
    | line active' step =>
      cases active.symm.trans active'
      obtain rfl := Option.some.inj (step.symm.trans goes)
      exact ⟨rfl, Nat.lt_succ_self _, rfl⟩
    | enter active' here' | run active' here' | leave active' here' =>
      cases active.symm.trans active'
      cases here.symm.trans here'

/-- What happens as long as more than some number of calls is active. -/
def Within (b : Backend) (depth : Nat) : Session → Session → Prop :=
  Relation.ReflTransGen fun s s' => Step b s s' ∧ depth < s'.active.length

/-- Whenever the initializer of the parent comes back with an exception, the method of the class is
not called before its own initializer has returned. -/
def StopsAfterFailure (b : Backend) (c : ClassDef) : Prop :=
  ∀ s₀ s s' s'' σ rest m, s₀.Fresh b.program → Relation.ReflTransGen (Step b) s₀ s →
    IsBack b c σ rest s s' → IsPending s'.memory → Within b rest.length s' s'' →
    c.initializer? = some m → c.reference m ∉ s''.called

section Failing

/-- Getting closer to the end comes to an end. -/
lemma closer_wf (p : Program) : WellFounded (Closer p) :=
  InvImage.wf (fun s : Session => (s.unmarked p, s.ahead))
    (WellFounded.prod_lex Nat.lt_wfRel.wf Nat.lt_wfRel.wf)

/-- An initializer sets nothing but flags. -/
lemma Sound.line_keeps {σ' : State Label} (sound : s.Sound b.program)
    (active : s.active = .initializer f σ :: rest)
    (step : f.step? silent (σ.on s.memory) = some σ') {a : Address}
    (other : ∀ name, a ≠ flagsAddress name) : σ'.memory a = s.memory a := by
  obtain ⟨c, memc, rfl, stage⟩ := sound.running f σ rest active
  cases stage with
  | checks isSet flags checks =>
    obtain ⟨τ, step', outcome⟩ := Program.step_of_checks (p := b.program) flags checks
    obtain rfl : σ' = τ := Option.some.inj (step.symm.trans step')
    rcases outcome with ⟨memory, _⟩ | ⟨_, memory, _⟩
    · rw [memory]
    · rw [memory]
      exact Function.update_of_ne (other c.name) ..
  | calls made rest' set calls =>
    cases rest' with
    | cons next rest' =>
      rw [Function.step?_call (Program.line?_of_calls calls)] at step
      cases step
    | nil =>
      have here := Program.line?_of_calls_nil calls
      have goes : (b.program.initializer c).step? silent (σ.on s.memory) =
          some ((σ.on s.memory).enter .exit) := Function.step?_leave (σ := σ.on s.memory) here rfl
      obtain rfl := Option.some.inj (step.symm.trans goes)
      rfl
  | returns set returns =>
    rw [Function.step?_return (Program.line?_of_returns returns)] at step
    cases step

/-- What gets closer to the end sets nothing but flags. -/
lemma Sound.closer_keeps (sound : s.Sound b.program) (step : Step b s s')
    (closer : Closer b.program s' s) {a : Address} (other : ∀ name, a ≠ flagsAddress name) :
    s'.memory a = s.memory a := by
  cases step with
  | @act m _ same =>
    have stays : unmarked b.program { s with memory := m } = s.unmarked b.program := by
      simp only [unmarked, same]
    rw [Closer, stays, Prod.lex_def] at closer
    simp [ahead] at closer
  | line active step => exact sound.line_keeps active step other
  | _ => rfl

/-- A step goes on on top of an initializer or with it, or the initializer returns. -/
lemma active_of_step (step : Step b s s') {top : List ActiveCall}
    (active : s.active = top ++ .initializer g τ :: rest) :
    (∃ top' τ', s'.active = top' ++ .initializer g τ' :: rest) ∨
      s.active = .initializer g τ :: rest ∧ s' = { s with active := rest } := by
  cases step with
  | @call f => exact .inl ⟨.initializer f _ :: top, τ, congrArg _ active⟩
  | act => exact .inl ⟨top, τ, active⟩
  | finish here =>
    -- what ends above the marked call leaves it where it is
    rw [here] at active
    cases top with
    | nil => cases active
    | cons _ top =>
      cases active
      exact .inl ⟨top, τ, rfl⟩
  | @line f _ σ' _ here =>
    rw [here] at active
    cases top with
    | nil =>
      cases active
      exact .inl ⟨[], σ', rfl⟩
    | cons _ top =>
      cases active
      exact .inl ⟨.initializer f σ' :: top, τ, rfl⟩
  | @enter f g' σ _ here =>
    rw [here] at active
    cases top with
    | nil =>
      cases active
      exact .inl ⟨[_], _, rfl⟩
    | cons _ top =>
      cases active
      exact .inl ⟨_ :: .initializer f (σ.next s.memory) :: top, τ, rfl⟩
  | @run f σ _ r here =>
    rw [here] at active
    cases top with
    | nil =>
      cases active
      exact .inl ⟨[.method r], _, rfl⟩
    | cons _ top =>
      cases active
      exact .inl ⟨.method r :: .initializer f (σ.next s.memory) :: top, τ, rfl⟩
  | leave here =>
    cases top with
    | nil =>
      obtain ⟨_, rfl⟩ := List.cons.inj (here.symm.trans active)
      exact .inr ⟨active, rfl⟩
    | cons _ top =>
      rw [here] at active
      cases active
      exact .inl ⟨top, τ, rfl⟩

/-- What is active on top of an initializer, and the initializer itself, can return with the memory
as it is but for flags. -/
lemma Sound.exists_leave (sound : s.Sound b.program) {top : List ActiveCall}
    (active : s.active = top ++ .initializer g τ :: rest) :
    ∃ s₁ τ', Relation.ReflTransGen (Step b) s s₁ ∧ s₁.active = .initializer g τ' :: rest ∧
      Step b s₁ { s₁ with active := rest } ∧
      ∀ a, (∀ name, a ≠ flagsAddress name) → s₁.memory a = s.memory a := by
  induction s using (closer_wf b.program).induction generalizing top τ with
  | _ s ih =>
    obtain ⟨_, _, nonempty⟩ := List.exists_cons_of_ne_nil
      (active ▸ List.append_ne_nil_of_right_ne_nil top (List.cons_ne_nil _ rest))
    obtain ⟨s₁, step, closer⟩ := sound.exists_step nonempty
    rcases active_of_step step active with ⟨top', τ₁, active₁⟩ | ⟨here, rfl⟩
    · obtain ⟨s₂, τ', run, active₂, leave, kept⟩ := ih s₁ closer (sound.step step) active₁
      refine ⟨s₂, τ', .head step run, active₂, leave, fun a other => ?_⟩
      rw [kept a other, sound.closer_keeps step closer other]
    · exact ⟨s, τ, .refl, here, step, fun _ _ => rfl⟩

/-- If a class has a method and a parent that needs initialization, the method is called though the
initializer of the parent comes back with an exception. -/
lemma exists_call_after_failure {n : String} {m : MethodDef} (memc : c ∈ b.program.classes)
    (parent : c.parentName.filter b.program.needsInitialization = some n)
    (own : c.initializer? = some m) : ¬StopsAfterFailure b c := by
  intro stops
  obtain ⟨d, memd, rfl⟩ :=
    Backend.declares_of_needsInitialization (Option.filter_eq_some_iff.1 parent).2
  have needed : b.program.needsInitialization c.name = true :=
    List.any_eq_true.2 ⟨c, Program.mem_ancestors_self memc, by rw [own]; rfl⟩
  have emitted : .define (b.program.initializer c) ∈ b.initializers :=
    mem_initializers.2 ⟨c, memc, needed, rfl⟩
  have emitted' : .define (b.program.initializer d) ∈ b.initializers :=
    mem_initializers.2 ⟨d, memd, (Option.filter_eq_some_iff.1 parent).2, rfl⟩
  -- no flag is set, and an exception is pending from the start
  let m₀ : Memory := Function.update (fun _ => some (.i32, flagsWord false)) pendingAddress
    (some (.ptr, .address (.object 0)))
  have unset (name : String) : m₀ (flagsAddress name) = some (.i32, flagsWord false) :=
    Function.update_of_ne (by rintro ⟨⟩) ..
  have fresh : Fresh b.program ⟨m₀, [], []⟩ := ⟨fun c _ => unset c.name, rfl, rfl⟩
  have start : Step b ⟨m₀, [], []⟩ (push ⟨m₀, [], []⟩ (b.program.initializer c)) :=
    .call (fun _ _ _ => (List.cons_ne_nil _ _).symm) emitted
  obtain ⟨m₁, σ₁, kept₁, calls₁, run₁⟩ := exists_calls_setting (b := b) (unset c.name)
    (.load rfl rfl : Program.Checks false (.start (fun _ => none) m₀)) [] []
  have first : b.program.initializerCalls c = [.initializer d.name, .method (c.reference m)] := by
    rw [Program.initializerCalls, parent, own]
    rfl
  rw [first] at calls₁
  have enter := Step.enter (s := ⟨m₁, [], [.initializer (b.program.initializer c) σ₁]⟩)
    (g := b.program.initializer d) rfl (Program.line?_of_calls calls₁) emitted'
  have run := ((Relation.ReflTransGen.single start).trans run₁).tail enter
  obtain ⟨s, τ, run', active, leave, kept⟩ :=
    ((Sound.fresh fresh).run_keeps run).exists_leave (List.nil_append _).symm
  have reached := run.trans run'
  have back : IsBack b c (σ₁.next m₁) [] s { s with active := _ } := ⟨leave, ⟨_, τ, active⟩, rfl⟩
  have pending : IsPending s.memory := by
    refine ⟨.object 0, ?_⟩
    rw [kept _ (by rintro _ ⟨⟩)]
    exact (kept₁ _ (by rintro ⟨⟩)).trans (Function.update_self ..)
  have stacked : Stacked ⟨m₀, [], []⟩ := .nil
  obtain ⟨_, _, _, _, made, calls⟩ :=
    back.calls ((Sound.fresh fresh).run_keeps reached) (stacked.run_keeps reached) memc
  obtain ⟨⟨s', step⟩, next⟩ := step_of_calls calls back.active
  obtain ⟨_, deep, called⟩ := next s' step
  refine stops _ _ _ s' _ _ m fresh reached back pending (.single ⟨step, deep⟩) own ?_
  rw [called, own]
  exact List.mem_cons_self ..

end Failing

/-- An initializer does not look whether that of the parent has failed. It stops after a failure
only if there is nothing to stop: its class has no method, or no parent that needs initialization.
What comes back is the initializer of the parent, and whatever the memory holds then, the next step
is the call of the class's method, if there is one. -/
theorem stopsAfterFailure_iff {p : Program} {settings : Settings}
    (built : Backend.ofProgram p settings = .ok b) (memc : c ∈ p.classes) :
    (StopsAfterFailure b c ↔
      c.parentName.filter p.needsInitialization = none ∨ c.initializer? = none) ∧
    ∀ s₀ s s' σ rest, s₀.Fresh p → Relation.ReflTransGen (Step b) s₀ s → IsBack b c σ rest s s' →
      (∃ d τ, p.IsParent c d ∧ s.active.head? = some (.initializer (p.initializer d) τ)) ∧
      (∃ s'', Step b s' s'') ∧
      ∀ s'', Step b s' s'' → s''.memory = s'.memory ∧ rest.length < s''.active.length ∧
        s''.called = (c.initializer?.map c.reference).toList ++ s'.called := by
  obtain ⟨rfl, -, -⟩ := Backend.ofProgram_spec built
  have spec {s₀ s s' : Session} {σ : State Label} {rest : List ActiveCall}
      (fresh : s₀.Fresh b.program) (run : Relation.ReflTransGen (Step b) s₀ s)
      (back : IsBack b c σ rest s s') := by
    have stacked : s₀.Stacked := by
      rw [Stacked, fresh.active]
      exact .nil
    exact back.calls ((Sound.fresh fresh).run_keeps run) (stacked.run_keeps run) memc
  refine ⟨⟨fun stops => ?_, ?_⟩, ?_⟩
  · cases parent : c.parentName.filter b.program.needsInitialization with
    | none => exact .inl rfl
    | some n =>
      cases own : c.initializer? with
      | none => exact .inr rfl
      | some m => exact absurd stops (exists_call_after_failure memc parent own)
  · rintro (childless | none) s₀ s s' s'' σ rest m fresh run back _ _ own
    · obtain ⟨d, _, _, parent, _⟩ := spec fresh run back
      cases childless.symm.trans parent
    · cases none.symm.trans own
  · intro s₀ s s' σ rest fresh run back
    obtain ⟨d, memd, ⟨τ, head⟩, parent, made, calls⟩ := spec fresh run back
    refine ⟨⟨d, τ, ⟨d.name, ?_, Program.lookup?_of_mem memd⟩, head⟩,
      step_of_calls calls back.active⟩
    exact (Option.filter_eq_some_iff.1 parent).1

section Kin

/-- A class without a parent has nothing to stop for. -/
theorem kin_stops : ∃ b, Backend.ofProgram kin .default = .ok b ∧
    StopsAfterFailure b base ∧ ¬StopsAfterFailure b derived := by
  obtain ⟨b, built⟩ := exists_kin
  have memb : base ∈ kin.classes := List.mem_cons_self ..
  have memd : derived ∈ kin.classes := List.mem_cons_of_mem _ (List.mem_cons_self ..)
  refine ⟨b, built, (stopsAfterFailure_iff built memb).1.2 (.inl rfl), fun stops => ?_⟩
  exact absurd ((stopsAfterFailure_iff built memd).1.1 stops) (by cbv; decide)

/-- The method of a class can raise an exception, which its initializer leaves pending. -/
lemma exists_raises {p : Program} {m : Memory} {made : List Symbol} {r : MethodRef}
    (calls : p.Calls c σ made [.method r]) (called : List MethodRef) (rest : List ActiveCall) :
    ∃ m' σ', IsPending m' ∧ Program.Returns σ' ∧
      Relation.ReflTransGen (Step b) ⟨m, called, .initializer (p.initializer c) σ :: rest⟩
        ⟨m', r :: called, .initializer (p.initializer c) σ' :: rest⟩ := by
  let m' : Memory := Function.update m pendingAddress (some (.ptr, .address (.object 0)))
  have flags (name : String) : m' (flagsAddress name) = m (flagsAddress name) :=
    Function.update_of_ne (by rintro ⟨⟩) ..
  obtain ⟨σ', returns, run⟩ := exists_returns_with calls flags called rest
  exact ⟨m', σ', ⟨.object 0, Function.update_self ..⟩, returns, run⟩

/-- When the method of the parent raises an exception, that of the class is called nevertheless. -/
theorem kin_goes_on :
    ∃ b s₀ s s' s'' σ, Backend.ofProgram kin .default = .ok b ∧
      s₀.Fresh kin ∧ ¬IsPending s₀.memory ∧ Relation.ReflTransGen (Step b) s₀ s ∧
      IsBack b derived σ [] s s' ∧ IsPending s'.memory ∧ Within b 0 s' s'' ∧
      derived.initializer? = some native ∧ derived.reference native ∈ s''.called := by
  obtain ⟨b, built⟩ := exists_kin
  obtain ⟨program, -, -⟩ := Backend.ofProgram_spec built
  obtain ⟨m, σ, τ, _, run, calls, calls'⟩ := kin_calls_base built
  have quiet : ¬IsPending kinMemory := by
    rintro ⟨a, pending⟩
    cases (show kinMemory pendingAddress = none by decide).symm.trans pending
  obtain ⟨m', τ', pending, returns, run'⟩ := exists_raises (b := b) (m := m) calls' []
    [.initializer (kin.initializer derived) σ]
  -- The initializer of the parent leaves with the exception pending, and the method is called next.
  have leave := Step.leave (b := b)
    (s := ⟨m', [base.reference native], [_, .initializer (kin.initializer derived) σ]⟩) rfl
    (Program.line?_of_returns (p := kin) (c := base) returns)
  have call := Step.run (b := b)
    (s := ⟨m', [base.reference native], [.initializer (kin.initializer derived) σ]⟩) rfl
    (Program.line?_of_calls calls)
  have back := IsBack.mk (c := derived) leave ⟨_, _, by rw [program]⟩ (by rw [program])
  exact ⟨b, _, _, _, _, σ, built, kin_fresh, quiet, run.trans run', back, pending,
    .single ⟨call, Nat.succ_pos _⟩, rfl, List.mem_cons_self ..⟩

end Kin

end Session

end ObjectBackend
