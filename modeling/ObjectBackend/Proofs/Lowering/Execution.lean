import ObjectBackend.Proofs.Lowering.Sites
import ObjectBackend.Proofs.Target.Machine

/-!
# Running emitted code

A triple `Emit.Triple host P e Q` says what a step of emission does when its code runs. The code is
run where it has been put, behind what was emitted before it and in any function that goes on from
there (`Carries`), and it runs to its own end. There is a rule for each way to put code together, so
a triple is derived along the code.

Conditions also speak of the number of the next temporary: nothing that is known of older registers
is lost when new ones are assigned. `Emit.Evaluates` makes use of that. Code that only computes adds
its result to the list of what is known.
-/

namespace ObjectBackend

open Target

namespace Target

/-- A machine stands behind the lines of a block. -/
structure State.Behind (σ : State Label) (b : DraftBlock) : Prop where
  label : σ.label = b.label
  position : σ.position = b.lines.length

/-- A function has some blocks, each of them at least up to the lines that it has so far. -/
def Function.Carries (f : Function Label) (blocks : List DraftBlock) : Prop :=
  ∃ resolve : Source Label → Label, (∀ l, resolve (.label l) = l) ∧
    ∀ b ∈ blocks, ∃ rest, f.lines? b.label = some (b.lines.map (Line.mapSources resolve) ++ rest)

/-- A machine is about to load through null. -/
def Function.LoadsNull (f : Function Label) (σ : State Label) : Prop :=
  ∃ type address, address.word? σ.registers = some .null ∧
    (f.line? σ = some (.run (.load type address)) ∨
      ∃ receiver, f.line? σ = some (.define receiver (.load type address)))

/-- A function that loads from null makes no step. -/
lemma Function.LoadsNull.step? {host : Host} {f : Function Label} {σ : State Label}
    (loads : f.LoadsNull σ) : f.step? host σ = none := by
  obtain ⟨type, address, null, at'⟩ := loads
  have fails : (Instr.load type address).run? host σ.registers σ.memory = none := by
    simp [Instr.run?, null, Word.address?]
  rcases at' with at' | ⟨receiver, at'⟩
  · rw [Function.step?, at']
    exact Line.run?_run_eq_none fails
  · rw [Function.step?, at']
    exact Line.run?_define_eq_none receiver fails

/-- A part is found from where the whole is. -/
lemma Instr.run?_fieldOf {host : Host} {m : Memory} {r : Registers} {base : IrType}
    {address : Value} {indices : List Int} {a : Address}
    (place : address.word? r = some (.address a)) :
    (Instr.fieldOf base address indices).run? host r m =
      some (some (.address (.part a base indices)), m) := by
  have path : (indices.map Value.int).mapM (fun i => i.word? r >>= Word.int?) = some indices := by
    induction indices with
    | nil => rfl
    | cons i is ih =>
      rw [List.map_cons, List.mapM_cons, ih]
      rfl
  simp only [fieldOf, run?, place, path]
  rfl

end Target

namespace Lowering

open Listing

variable {host : Host} {f : Function Label} {σ : State Label} {b : DraftBlock} {x y : Listing}

section Steps

/-- A function that carries two listings carries one after the other. -/
lemma Carries.of_append (carries : f.Carries (blocks b (x ++ y))) :
    f.Carries (blocks b x) ∧ f.Carries (blocks (last b x) y) := by
  obtain ⟨resolve, labels, has⟩ := carries
  rw [blocks_append] at has
  constructor
  · refine ⟨resolve, labels, fun c mem => ?_⟩
    rcases List.mem_append.1 mem with mem | mem
    · exact has c (List.mem_append_left _ mem)
    · -- the second listing goes on in the block that the first one ends in
      obtain rfl := List.mem_singleton.1 mem
      obtain ⟨d, memd, label, ⟨lines, eq⟩⟩ := exists_prefix_block (last b x) y
      obtain ⟨rest, found⟩ := has d (List.mem_append_right _ memd)
      refine ⟨lines.map (Line.mapSources resolve) ++ rest, ?_⟩
      rw [← label, found, ← eq, List.map_append, List.append_assoc]
  · exact ⟨resolve, labels, fun c mem => has c (List.mem_append_right _ mem)⟩

/-- A function that carries a listing carries the rest of it. -/
lemma Carries.tail {i : Item} (carries : f.Carries (blocks b (i :: x))) :
    f.Carries (blocks (last b [i]) x) := by
  have parts : f.Carries (blocks b ([i] ++ x)) := carries
  exact (Carries.of_append parts).2

/-- A machine behind the lines of a block is at the line that comes next. -/
lemma Carries.line? {l : DraftLine} (carries : f.Carries (blocks b (.line l :: x)))
    (behind : σ.Behind b) :
    ∃ resolve : Source Label → Label, (∀ l, resolve (.label l) = l) ∧
      f.line? σ = some (l.mapSources resolve) := by
  obtain ⟨resolve, labels, has⟩ := carries
  obtain ⟨c, mem, label, ⟨lines, eq⟩⟩ := exists_prefix_block (b.push l) x
  obtain ⟨rest, found⟩ := has c mem
  refine ⟨resolve, labels, ?_⟩
  have here : f.lines? σ.label = some (c.lines.map (Line.mapSources resolve) ++ rest) := by
    rw [behind.label, ← found, label]
    rfl
  change (do (← f.lines? σ.label)[σ.position]?) = _
  rw [here, behind.position, ← eq]
  simp [Block.push]

/-- A block is left for the one that its terminator goes to. -/
lemma Carries.step_leave {t : Term Label} {target : Label}
    (carries : f.Carries (blocks b (.line (.leave t) :: x))) (behind : σ.Behind b)
    (goes : t.target? σ.registers = some target) : f.step? host σ = some (σ.enter target) := by
  obtain ⟨resolve, _, at'⟩ := Carries.line? carries behind
  exact Function.step?_leave at' goes

/-- A phi behind the code before it takes its value for the block that this one has been entered
from. -/
lemma Carries.step_phi {receiver : Local} {type : IrType} {incomings : List (Value × Label)}
    {v : Value} {l : Label} {w : Word}
    (carries : f.Carries (blocks b (.line (.phi (.register receiver) type
      (incomings.map fun e => (e.1, .label e.2))) :: x)))
    (behind : σ.Behind b) (taken : incomings.find? (fun e => some e.2 = σ.source) = some (v, l))
    (word : v.word? σ.entered = some w) :
    f.step? host σ = some (σ.set receiver w σ.memory) := by
  obtain ⟨resolve, labels, at'⟩ := Carries.line? carries behind
  have same : List.map (fun e : Value × Source Label => (e.1, resolve e.2))
      (incomings.map fun e => (e.1, .label e.2)) = incomings := by
    rw [List.map_map]
    apply List.map_id''
    intro e
    exact Prod.ext rfl (labels e.2)
  rw [Line.mapSources, same] at at'
  exact Function.step?_phi at' taken word

/-- The function that a draft stands for has its blocks. -/
lemma carries_toFunction {d : Draft Label} (nodup : d.labels.Nodup) :
    d.toFunction.Carries d.blocks := by
  have labels : d.toFunction.blocks.map Block.label = d.labels := by
    rw [Draft.toFunction, List.map_map]
    rfl
  refine ⟨d.resolve, fun l => rfl, fun b mem => ⟨[], ?_⟩⟩
  have found := Function.lines?_of_mem (labels ▸ nodup) (List.mem_map_of_mem mem)
  rw [List.append_nil]
  exact found

/-- A function that enters a block is behind no line of it. -/
lemma behind_enter (σ : State Label) (target : Label) : (σ.enter target).Behind ⟨target, []⟩ :=
  ⟨rfl, rfl⟩

end Steps

/-- Code behind a test goes on in the block that its phi is in. -/
lemma Progress.At.skippable {s s₂ : Progress} {before after : List DraftBlock}
    {current : DraftBlock} {branch : Label → Label → Term Label} {v : Value}
    (inside : s₂.At (before ++ [current.push (.leave (branch
        (.split s.draft.currentLabel s.draft.nextSplit)
        (.split s.draft.currentLabel (s.draft.nextSplit + 1))))] ++
          closed ⟨.split s.draft.currentLabel (s.draft.nextSplit + 1), []⟩ x)
      (last ⟨.split s.draft.currentLabel (s.draft.nextSplit + 1), []⟩ x)
      (⟨.split s.draft.currentLabel s.draft.nextSplit, []⟩ :: after)) :
    let done : Label := .split s.draft.currentLabel s.draft.nextSplit
    let check : Label := .split s.draft.currentLabel (s.draft.nextSplit + 1)
    let code := skippable s.draft.currentLabel s₂.draft.currentLabel s.draft.nextSplit
      (branch done check) x (.register (.temporary s₂.draft.nextTemporary)) (.bool false) v
    ((Lowering.rejoin s.draft.currentLabel done v).next s₂).At (before ++ closed current code)
      (last current code) after := by
  intro done check code
  have moved := inside.rejoin s.draft.currentLabel done v
  rw [closed_skippable, last_skippable]
  simp only [List.append_assoc, List.cons_append, List.nil_append] at moved ⊢
  exact moved

/-- A condition on the number of the next temporary, the registers and the memory. -/
abbrev Assertion := Nat → Registers → Memory → Prop

namespace Emit

variable {α β : Type} {e : Emit α} {P P' : Assertion} {Q Q' : α → Assertion} {R : β → Assertion}

/-- Code that is put behind what has been emitted, and that other code can be put behind. -/
def Moves (e : Emit α) : Prop :=
  ∀ ⦃s before current after⦄, Progress.At s before current after →
    ∃ x, (e.next s).At (before ++ closed current x) (last current x) after

/-- Code that is put behind what has been emitted runs from there to its own end, and leads from the
one condition to the other. -/
def Triple (host : Host) (P : Assertion) (e : Emit α) (Q : α → Assertion) : Prop :=
  ∀ ⦃s before current after⦄, Progress.At s before current after →
    ∃ x, (e.next s).At (before ++ closed current x) (last current x) after ∧
      ∀ ⦃f σ⦄, Function.Carries f (blocks current x) → State.Behind σ current →
        P s.draft.nextTemporary σ.registers σ.memory →
        ∃ τ, f.Runs host σ τ ∧ τ.Behind (last current x) ∧
          Q (e.result s) (e.next s).draft.nextTemporary τ.registers τ.memory

/-- Code that adds a region moves. -/
lemma Emits.moves {c : Context} {p : Place} {points : List SitePoint} (emits : Emits c p points e) :
    e.Moves := by
  intro s before current after start
  obtain ⟨x, _, adds⟩ := emits start
  exact ⟨x, adds.code.moves start⟩

/-- Straight code moves. -/
lemma Straight.moves {n : Nat} (straight : Straight n e) : e.Moves := by
  intro s before current after start
  obtain ⟨lines, _, _, _, writes⟩ := straight s
  refine ⟨ofLines lines, ?_⟩
  rw [closed_ofLines, last_ofLines, List.append_nil]
  exact writes.moves start

/-- Code that moves may be put in front of more. -/
lemma Moves.bind {g : α → Emit β} (first : e.Moves) (second : ∀ a, (g a).Moves) :
    (e >>= g).Moves := by
  intro s before current after start
  obtain ⟨x, moves⟩ := first start
  obtain ⟨y, moves'⟩ := second (e.result s) moves
  refine ⟨x ++ y, ?_⟩
  rw [closed_append, last_append, ← List.append_assoc]
  exact moves'

namespace Triple

/-- A triple holds from a stronger condition, and with a weaker one. -/
lemma imp (triple : Triple host P e Q) (before : ∀ n r m, P' n r m → P n r m)
    (after : ∀ a n r m, Q a n r m → Q' a n r m) : Triple host P' e Q' := by
  intro s _ _ _ start
  obtain ⟨x, moves, runs⟩ := triple start
  refine ⟨x, moves, fun f σ carries behind holds => ?_⟩
  obtain ⟨τ, steps, behind, holds⟩ := runs carries behind (before _ _ _ holds)
  exact ⟨τ, steps, behind, after _ _ _ _ holds⟩

/-- A value that is at hand takes no run. -/
lemma pure (a : α) : Triple host (Q a) (Pure.pure a) Q := by
  intro s before current after start
  refine ⟨[], ?_, fun f σ _ behind holds => ⟨σ, .refl, behind, holds⟩⟩
  rw [closed, List.append_nil]
  exact start

/-- Code is run one after the other. -/
lemma bind {g : α → Emit β} (first : Triple host P e Q) (second : ∀ a, Triple host (Q a) (g a) R) :
    Triple host P (e >>= g) R := by
  intro s before current after start
  obtain ⟨x, moves, runs⟩ := first start
  obtain ⟨y, moves', runs'⟩ := second (e.result s) moves
  refine ⟨x ++ y, ?_, fun f σ carries behind holds => ?_⟩
  · rw [closed_append, last_append, ← List.append_assoc]
    exact moves'
  · obtain ⟨carries, carries'⟩ := Carries.of_append carries
    obtain ⟨τ, steps, behind, holds⟩ := runs carries behind holds
    obtain ⟨υ, steps', behind, holds⟩ := runs' carries' behind holds
    rw [last_append]
    exact ⟨υ, steps.trans steps', behind, holds⟩

/-- A condition on some object that is not named: where code goes does not depend on it. -/
lemma of_exists {ι : Type} {p : ι → Prop} {P : ι → Assertion}
    (moves : e.Moves) (each : ∀ i, p i → Triple host (P i) e Q) :
    Triple host (fun n r m => ∃ i, p i ∧ P i n r m) e Q := by
  intro s before current after start
  obtain ⟨x, moved⟩ := moves start
  refine ⟨x, moved, ?_⟩
  rintro f σ carries behind ⟨i, holds, holds'⟩
  obtain ⟨y, moved', runs⟩ := each i holds start
  obtain ⟨same, same'⟩ := moved.cursor.eq_of_cursor moved'.cursor
  have blocks_eq : blocks current y = blocks current x := by
    rw [blocks, blocks, List.append_cancel_left same, same']
  rw [← blocks_eq] at carries
  rw [same']
  exact runs carries behind holds'

/-- Code that appends one line. -/
lemma of_line {l : Progress → DraftLine} (writes : ∀ s : Progress, s.Writes [l s] (e.next s))
    (runs : ∀ (s : Progress) (g : Source Label → Label) (σ : State Label),
      P s.draft.nextTemporary σ.registers σ.memory →
      ∃ τ, ((l s).mapSources g).run? host σ = some τ ∧ τ.label = σ.label ∧
        τ.position = σ.position + 1 ∧
        Q (e.result s) (e.next s).draft.nextTemporary τ.registers τ.memory) :
    Triple host P e Q := by
  intro s before current after start
  refine ⟨[.line (l s)], ?_, fun f σ carries behind holds => ?_⟩
  · rw [closed, closed, List.append_nil]
    exact (writes s).moves start
  · obtain ⟨resolve, _, at'⟩ := Carries.line? carries behind
    obtain ⟨τ, step, label, position, holds⟩ := runs s resolve σ holds
    refine ⟨τ, .single ?_, ⟨?_, ?_⟩, holds⟩
    · rw [Function.step?, at']
      exact step
    · rw [label, behind.label]
      rfl
    · rw [position, behind.position]
      change _ = (current.lines ++ [l s]).length
      rw [List.length_append]
      rfl

/-- An instruction without result is run. -/
lemma run {i : Instr} {Q : Unit → Assertion}
    (runs : ∀ n r m, P n r m → ∃ w m', i.run? host r m = some (w, m') ∧ Q () n r m') :
    Triple host P (Emit.run i) Q := by
  apply of_line (l := fun _ => .run i) (fun s => .line s rfl)
  intro s g σ holds
  obtain ⟨w, m', result, holds⟩ := runs _ _ _ holds
  exact ⟨σ.next m', Line.run?_run result, rfl, rfl, holds⟩

/-- An assignment is run. -/
lemma assign {receiver : Local} {i : Instr} {Q : Unit → Assertion}
    (runs : ∀ n r m, P n r m → ∃ w m', i.run? host r m = some (some w, m') ∧
      Q () n (Function.update r receiver (some w)) m') :
    Triple host P (Emit.assign receiver i) Q := by
  apply of_line (l := fun _ => .define (.register receiver) i) (fun s => .line s rfl)
  intro s g σ holds
  obtain ⟨w, m', result, holds⟩ := runs _ _ _ holds
  exact ⟨σ.set receiver w m', Line.run?_define result, rfl, rfl, holds⟩

/-- An instruction is run into a new temporary. -/
lemma define {i : Instr} {Q : Value → Assertion}
    (runs : ∀ n r m, P n r m → ∃ w m', i.run? host r m = some (some w, m') ∧
      Q (.register (.temporary n)) (n + 1) (Function.update r (.temporary n) (some w)) m') :
    Triple host P (Emit.define i) Q := by
  apply of_line (l := fun s => .define (.register (.temporary s.draft.nextTemporary)) i)
    (fun s => .define s i)
  intro s g σ holds
  obtain ⟨w, m', result, holds⟩ := runs _ _ _ holds
  exact ⟨σ.set (.temporary s.draft.nextTemporary) w m', Line.run?_define result, rfl, rfl, holds⟩

/-- The phi behind a test that may be skipped tells by the block that has been left whether it has
been skipped. -/
lemma step_rejoin {x : Listing} {σ : State Label} {flag : Local} {ℓ tested done : Label}
    {value taken : Value} {w : Word}
    (carries : f.Carries (blocks ⟨done, []⟩ (.line (.phi (.register flag) .i1
      [(.bool false, .label ℓ), (value, .label tested)]) :: x)))
    (left : σ.label = ℓ ∧ taken = .bool false ∨
      σ.label = tested ∧ ℓ ≠ tested ∧ taken = value)
    (word : taken.word? σ.registers = some w) :
    f.step? host (σ.enter done) = some ((σ.enter done).set flag w σ.memory) := by
  have phi : f.Carries (blocks ⟨done, []⟩ (.line (.phi (.register flag) .i1
      ([(.bool false, ℓ), (value, tested)].map fun e => (e.1, .label e.2))) :: x)) := carries
  apply Carries.step_phi (v := taken) (l := σ.label) phi (behind_enter σ done) _ word
  change List.find? (fun e : Value × Label => some e.2 = some σ.label)
    [(.bool false, ℓ), (value, tested)] = _
  rcases left with ⟨rfl, rfl⟩ | ⟨rfl, other, rfl⟩
  · rw [List.find?_cons_of_pos]
    exact decide_eq_true rfl
  · rw [List.find?_cons_of_neg, List.find?_cons_of_pos]
    · exact decide_eq_true rfl
    · rw [decide_eq_true_eq]
      exact fun eq => other (Option.some.inj eq)

/-- What holds for the next temporary holds for the result of a test that may be skipped. -/
lemma holds_rejoin {Q : Value → Assertion} {s : Progress} {ℓ done : Label} {value : Value}
    {r : Registers} {m : Memory}
    (holds : Q (.register (.temporary s.draft.nextTemporary)) (s.draft.nextTemporary + 1) r m) :
    Q ((rejoin ℓ done value).result s) ((rejoin ℓ done value).next s).draft.nextTemporary r m := by
  rw [Progress.result_rejoin, Progress.nextTemporary_rejoin]
  exact holds

/-- A test that the branch goes to: its result goes to a new temporary by the phi behind it. -/
lemma testOrSkip {branch : Label → Label → Term Label} {test : Emit Value} {Q : Value → Assertion}
    (enters : ∀ done check n r m, P n r m → (branch done check).target? r = some check)
    (tests : Triple host P test fun v n r m => ∃ w, v.word? r = some w ∧
      Q (.register (.temporary n)) (n + 1) (Function.update r (.temporary n) (some w)) m) :
    Triple host P (Lowering.testOrSkip branch test) Q := by
  intro s before current after start
  let ℓ := s.draft.currentLabel
  let done : Label := .split ℓ s.draft.nextSplit
  let check : Label := .split ℓ (s.draft.nextSplit + 1)
  let s₁ := (enterTest branch).next s
  let s₂ := test.next s₁
  obtain ⟨x, moves, runs⟩ := tests (start.enterTest branch)
  let tested := s₂.draft.currentLabel
  let flag : Local := .temporary s₂.draft.nextTemporary
  refine ⟨skippable ℓ tested s.draft.nextSplit (branch done check) x (.register flag) (.bool false)
    (test.result s₁), moves.skippable, fun f σ carries behind holds => ?_⟩
  rw [last_skippable]
  -- the block is left for the test,
  have first : f.step? host σ = some (σ.enter check) :=
    Carries.step_leave carries behind (enters _ _ _ _ _ holds)
  have inside : f.Carries (blocks ⟨check, []⟩ (x ++ _)) := Carries.tail (Carries.tail carries)
  obtain ⟨carries, carries'⟩ := Carries.of_append inside
  rw [← Progress.nextTemporary_enterTest branch] at holds
  obtain ⟨τ, steps, behind, w, value, holds⟩ := runs carries (behind_enter σ check) holds
  -- the test for the block behind it,
  have second : f.step? host τ = some (τ.enter done) := Carries.step_leave carries' behind rfl
  -- whose phi tells by the label of the test that it has not been skipped
  have entered : τ.label = tested := by
    rw [behind.label]
    exact moves.currentLabel.symm
  have other : ℓ ≠ tested := by
    have left : current.push (.leave (branch done check)) ∈ before ++
        [current.push (.leave (branch done check))] ++ closed ⟨check, []⟩ x :=
      List.mem_append_left _ (List.mem_append_right _ (List.mem_singleton_self _))
    have differ := moves.cursor.label_ne left
    rw [← moves.currentLabel] at differ
    exact start.currentLabel.trans_ne differ
  have third : f.step? host (τ.enter done) = some ((τ.enter done).set flag w τ.memory) :=
    step_rejoin (Carries.tail (Carries.tail carries')) (.inr ⟨entered, other, rfl⟩) value
  refine ⟨(τ.enter done).set flag w τ.memory, ?_, ⟨rfl, rfl⟩, ?_⟩
  · exact .head first (steps.trans (.head second (.single third)))
  · change Q ((rejoin ℓ done (test.result s₁)).result s₂)
      ((rejoin ℓ done (test.result s₁)).next s₂).draft.nextTemporary _ _
    exact holds_rejoin holds

/-- A test that the branch goes around: a new temporary is false. -/
lemma skipTest {branch : Label → Label → Term Label} {test : Emit Value} {Q : Value → Assertion}
    (moves : test.Moves)
    (skips : ∀ done check n r m, P n r m → (branch done check).target? r = some done)
    (fails : ∀ n k r m, P n r m → Q (.register (.temporary k)) (k + 1)
      (Function.update r (.temporary k) (some (.ofBool false))) m) :
    Triple host P (Lowering.testOrSkip branch test) Q := by
  intro s before current after start
  let ℓ := s.draft.currentLabel
  let done : Label := .split ℓ s.draft.nextSplit
  let check : Label := .split ℓ (s.draft.nextSplit + 1)
  let s₁ := (enterTest branch).next s
  let s₂ := test.next s₁
  obtain ⟨x, moves⟩ := moves (start.enterTest branch)
  let tested := s₂.draft.currentLabel
  let flag : Local := .temporary s₂.draft.nextTemporary
  refine ⟨skippable ℓ tested s.draft.nextSplit (branch done check) x (.register flag) (.bool false)
    (test.result s₁), moves.skippable, fun f σ carries behind holds => ?_⟩
  rw [last_skippable]
  have first : f.step? host σ = some (σ.enter done) :=
    Carries.step_leave carries behind (skips _ _ _ _ _ holds)
  have inside : f.Carries (blocks ⟨check, []⟩ (x ++ _)) := Carries.tail (Carries.tail carries)
  have here : σ.label = ℓ := behind.label.trans start.currentLabel.symm
  have second : f.step? host (σ.enter done) =
      some ((σ.enter done).set flag (.ofBool false) σ.memory) :=
    step_rejoin (Carries.tail (Carries.tail (Carries.of_append inside).2)) (.inl ⟨here, rfl⟩) rfl
  refine ⟨(σ.enter done).set flag (.ofBool false) σ.memory, .head first (.single second),
    ⟨rfl, rfl⟩, ?_⟩
  change Q ((rejoin ℓ done (test.result s₁)).result s₂)
    ((rejoin ℓ done (test.result s₁)).next s₂).draft.nextTemporary _ _
  exact holds_rejoin (fails _ _ _ _ holds)

/-- Code runs when it stands alone in a function. -/
lemma exists_run (triple : Triple host P e Q) {s : Progress} (empty : s.At [] ⟨.entry, []⟩ [])
    {r : Registers} {m : Memory} (holds : P s.draft.nextTemporary r m) :
    ∃ τ, (e.next s).draft.toFunction.Runs host (.start r m) τ ∧
      Q (e.result s) (e.next s).draft.nextTemporary τ.registers τ.memory := by
  obtain ⟨x, moves, runs⟩ := triple empty
  have carries : (e.next s).draft.toFunction.Carries (blocks ⟨.entry, []⟩ x) := by
    have all := moves.cursor.blocks
    rw [List.nil_append] at all
    rw [blocks, ← all]
    exact carries_toFunction moves.cursor.nodup
  have behind : (State.start r m).Behind ⟨.entry, []⟩ := ⟨rfl, rfl⟩
  obtain ⟨τ, steps, _, holds⟩ := runs carries behind holds
  exact ⟨τ, steps, holds⟩

end Triple

/-- Code runs as a triple says, and at no place on the way does it load through null. -/
def Safely (host : Host) (P : Assertion) (e : Emit α) (Q : α → Assertion) : Prop :=
  ∀ ⦃s before current after⦄, Progress.At s before current after →
    ∃ x, (e.next s).At (before ++ closed current x) (last current x) after ∧
      ∀ ⦃f σ⦄, Function.Carries f (blocks current x) → State.Behind σ current →
        P s.draft.nextTemporary σ.registers σ.memory →
        ∃ τ, f.Runs host σ τ ∧ τ.Behind (last current x) ∧
          Q (e.result s) (e.next s).draft.nextTemporary τ.registers τ.memory ∧
          ∀ υ, f.Runs host σ υ → f.Runs host υ τ → υ ≠ τ → ¬ f.LoadsNull υ

/-- Code that runs to its end has not loaded through null: there is no step behind such a load. -/
lemma Triple.safely (triple : Triple host P e Q) : Safely host P e Q := by
  intro s before current after start
  obtain ⟨x, moves, runs⟩ := triple start
  refine ⟨x, moves, fun f σ carries behind holds => ?_⟩
  obtain ⟨τ, steps, behind, holds⟩ := runs carries behind holds
  refine ⟨τ, steps, behind, holds, fun υ _ rest other loads => ?_⟩
  rcases rest.cases_head with eq | ⟨_, step, _⟩
  · exact other eq
  · cases loads.step?.symm.trans step

/-- What runs safely runs. -/
lemma Safely.triple (safely : Safely host P e Q) : Triple host P e Q := by
  intro s before current after start
  obtain ⟨x, moves, runs⟩ := safely start
  refine ⟨x, moves, fun f σ carries behind holds => ?_⟩
  obtain ⟨τ, steps, behind, holds, _⟩ := runs carries behind holds
  exact ⟨τ, steps, behind, holds⟩

end Emit

section Computing

variable {m : Memory} {known known' : List (Value × Word)} {v : Value} {w w' : Word}

/-- Whether a value stays what it is when temporaries from a number on are assigned. -/
def Settled (n : Nat) : Value → Prop
  | .register (.temporary k) => k < n
  | _ => True

/-- A value that is settled does not depend on later temporaries. -/
lemma word?_update {n : Nat} (settled : Settled n v) (r : Registers) (x : Option Word) :
    v.word? (Function.update r (.temporary n) x) = v.word? r := by
  cases v with
  | register l =>
    apply Function.update_of_ne
    rintro rfl
    exact Nat.lt_irrefl n settled
  | symbol | int | real | bool | null | zero | undef | part | offset | verbatim => rfl

/-- Some values stand for the words that they are known to stand for, and they stay what they are
when more is computed. The memory does not change. -/
structure Knows (m₀ : Memory) (known : List (Value × Word)) (n : Nat) (r : Registers) (m : Memory) :
    Prop where
  memory : m = m₀
  words : ∀ e ∈ known, e.1.word? r = some e.2
  settled : ∀ e ∈ known, Settled n e.1

namespace Knows

variable {n : Nat} {r : Registers} {m' : Memory}

/-- What holds of more known values holds of fewer ones. -/
lemma mono (knows : Knows m known n r m') (subset : known' ⊆ known) : Knows m known' n r m' :=
  ⟨knows.memory, fun e mem => knows.words e (subset mem),
    fun e mem => knows.settled e (subset mem)⟩

/-- The word that a new temporary is assigned is known, too. -/
lemma assign (knows : Knows m known n r m') (w : Word) :
    Knows m ((.register (.temporary n), w) :: known) (n + 1)
      (Function.update r (.temporary n) (some w)) m' := by
  refine ⟨knows.memory, List.forall_mem_cons.2 ⟨Function.update_self .., ?_⟩,
    List.forall_mem_cons.2 ⟨Nat.lt_succ_self n, ?_⟩⟩
  · intro e mem
    rw [word?_update (knows.settled e mem)]
    exact knows.words e mem
  · intro e mem
    have settled := knows.settled e mem
    cases e with
    | mk v w =>
      cases v with
      | register l =>
        cases l with
        | temporary k => exact Nat.lt_succ_of_lt settled
        | var | frame | callerFrame | result | landingSite | named => trivial
      | symbol | int | real | bool | null | zero | undef | part | offset | verbatim => trivial

end Knows

/-- What is known says what word a value stands for. -/
def Gives (known : List (Value × Word)) (v : Value) (w : Word) : Prop :=
  ∀ r : Registers, (∀ e ∈ known, e.1.word? r = some e.2) → v.word? r = some w

/-- A known value stands for its word. -/
lemma gives_of_mem (mem : (v, w) ∈ known) : Gives known v w := fun _ words => words _ mem

/-- What follows from known values follows from more of them. -/
lemma Gives.mono (gives : Gives known v w) (subset : known ⊆ known') : Gives known' v w :=
  fun r words => gives r fun e mem => words e (subset mem)

/-- An integer stands for itself. -/
lemma gives_int (n : Int) : Gives known (.int n) (.int n) := fun _ _ => rfl

/-- The null address stands for itself. -/
lemma gives_null : Gives known .null .null := fun _ _ => rfl

/-- A symbol stands for its address. -/
lemma gives_symbol (s : Symbol) : Gives known (.symbol s) (.address (.symbol s)) := fun _ _ => rfl

/-- Code that computes a word from what is known. -/
def Emit.Evaluates (host : Host) (m : Memory) (known : List (Value × Word)) (e : Emit Value)
    (w : Word) : Prop :=
  Emit.Triple host (Knows m known) e fun v => Knows m ((v, w) :: known)

namespace Emit.Evaluates

variable {e : Emit Value} {g : Value → Emit Value}

/-- Code evaluates one value after the other. -/
lemma bind (first : Evaluates host m known e w)
    (second : ∀ v, Evaluates host m ((v, w) :: known) (g v) w') :
    Evaluates host m known (e >>= g) w' := by
  apply Triple.bind first
  intro v
  apply (second v).imp (fun _ _ _ knows => knows)
  intro v' n r m' knows
  -- the intermediate result is forgotten
  apply knows.mono
  exact List.cons_subset_cons _ (List.subset_cons_self ..)

/-- A known value takes no evaluation. -/
lemma pure (mem : (v, w) ∈ known) : Evaluates host m known (Pure.pure v) w := by
  apply (Triple.pure (Q := fun v => Knows m ((v, w) :: known)) v).imp ?_
    (fun _ _ _ _ knows => knows)
  intro n r m' knows
  apply knows.mono
  exact List.cons_subset.2 ⟨mem, List.Subset.refl known⟩

/-- An instruction is evaluated into a new temporary. -/
lemma define {i : Instr} (result : ∀ r : Registers, (∀ e ∈ known, e.1.word? r = some e.2) →
    i.run? host r m = some (some w, m)) : Evaluates host m known (Emit.define i) w := by
  apply Triple.define
  intro n r m' knows
  refine ⟨w, m', ?_, knows.assign w⟩
  rw [knows.memory]
  exact result r knows.words

/-- A comparison is evaluated to its flag. -/
lemma icmp {p : Predicate} {type : IrType} {lhs rhs : Value} {a b : Word} {holds : Bool}
    (left : Gives known lhs a) (right : Gives known rhs b) (compare : p.holds? a b = some holds) :
    Evaluates host m known (Emit.define (.icmp p type lhs rhs)) (.ofBool holds) := by
  apply define
  intro r words
  simp [Instr.run?, left r words, right r words, compare]

/-- A load is evaluated to what the cell holds. -/
lemma load {type : IrType} {a : Address} (address : Gives known v (.address a))
    (cell : m a = some (type, w)) : Evaluates host m known (Emit.define (.load type v)) w := by
  apply define
  intro r words
  simp [Instr.run?, address r words, Word.address?, cell]

/-- The address of a field is evaluated to that of the part. -/
lemma fieldOf {base : IrType} {a : Address} {indices : List Int}
    (address : Gives known v (.address a)) :
    Evaluates host m known (Emit.define (.fieldOf base v indices))
      (.address (.part a base indices)) :=
  define fun r words => Instr.run?_fieldOf (address r words)

/-- Truth values are combined as single bits. -/
lemma binary {op : BinaryOp} {lhs rhs : Value} {a b c : Bool} (left : Gives known lhs (.ofBool a))
    (right : Gives known rhs (.ofBool b)) (combine : op.eval? 1 a.toInt b.toInt = some c.toInt) :
    Evaluates host m known (Emit.define (.binary op .i1 lhs rhs)) (.ofBool c) := by
  apply define
  intro r words
  simp [Instr.run?, left r words, right r words, Word.ofBool, Word.int?, IrType.intWidth?,
    IrType.isInteger, IrType.width?, combine]

/-- A test that the branch goes to. -/
lemma testOrSkip {branch : Label → Label → Term Label}
    (enters : ∀ (done check : Label) (r : Registers), (∀ e ∈ known, e.1.word? r = some e.2) →
      (branch done check).target? r = some check)
    (test : Evaluates host m known e w) :
    Evaluates host m known (Lowering.testOrSkip branch e) w := by
  apply Triple.testOrSkip
  · intro done check n r m' knows
    exact enters done check r knows.words
  · apply test.imp (fun _ _ _ knows => knows)
    intro v n r m' knows
    refine ⟨w, knows.words _ (List.mem_cons_self ..), ?_⟩
    exact (knows.mono (List.subset_cons_self ..)).assign w

end Emit.Evaluates

end Computing

end Lowering

end ObjectBackend
