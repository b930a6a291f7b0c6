import ObjectBackend.Proofs.Target.Machine
import ObjectBackend.Proofs.Target.Tidy

/-!
# The top of the stack of frames

A function that runs may change the cell that holds the top of the stack of frames, but when it
returns the cell holds what it held before (`Function.KeepsStack.returns`). What is known of that
cell and of the register for the frame of the caller is followed from line to line (`Line.Leads`);
each block is entered with the same knowledge from everywhere.
-/

namespace ObjectBackend.Target

/-- The cell that holds the top of the stack of frames. -/
def topCell : Address := .symbol (.runtime .stackTop)

/-- The functions outside leave the top of the stack as they find it. -/
def KeepsTop (host : Host) : Prop :=
  ∀ ⦃g arguments m result m'⦄, host g arguments m = some (result, m') → m' topCell = m topCell

/-- Whether a line stores to the top of the stack. -/
def Line.storesTop {ℓ σ : Type} : Line ℓ σ → Bool
  | .run (.store _ address) => address = .ofRuntime .stackTop
  | _ => false

/-- A line that leaves the stack alone does not store its top. -/
lemma Line.IsTidy.storesTop {ℓ σ : Type} {known : List Local} {l : Line ℓ σ}
    (tidy : l.IsTidy known) : l.storesTop = false := by
  cases l with
  | run i =>
    cases i with
    | store operand address =>
      apply decide_eq_false
      rintro rfl
      exact tidy rfl
    | _ => rfl
  | _ => rfl

/-- Lines that leave the stack alone do not store its top. -/
lemma Line.Tidy.storesTop {ℓ σ : Type} {known : List Local} {lines : List (Line ℓ σ)}
    (tidy : Tidy known lines) : ∀ l ∈ lines, l.storesTop = false := by
  induction lines generalizing known with
  | nil => exact List.forall_mem_nil _
  | cons l lines ih => exact List.forall_mem_cons.2 ⟨tidy.1.storesTop, ih tidy.2⟩

/-- What is known at a line: the registers that hold the address of a part, whether the register for
the frame of the caller holds the top of the stack that the function found, and whether the stack
has that top. -/
structure Facts where
  parts : List Local
  saved : Bool
  restored : Bool

/-- The facts hold, if the function has found a top. -/
structure Facts.Hold (k : Facts) (top : Option (IrType × Word)) (r : Registers) (m : Memory) :
    Prop where
  parts : ∀ l ∈ k.parts, ∃ a type path, r l = some (.address (.part a type path))
  saved : k.saved = true → ∃ w, r .callerFrame = some w ∧ top = some (.ptr, w)
  restored : k.restored = true → m topCell = top

/-- What a line makes of the facts, if it does not leave the block. -/
inductive Line.Leads {ℓ σ : Type} : Facts → Line ℓ σ → Facts → Prop where
  | tidy {k : Facts} {l : Line ℓ σ} :
    l.IsTidy k.parts → Leads k l { k with parts := l.parts k.parts }
  | save {ps : List Local} {saved : Bool} :
    Leads ⟨ps, saved, true⟩ (.define (.register .callerFrame) (.load .ptr (.ofRuntime .stackTop)))
      ⟨ps.filter (· ≠ .callerFrame), true, true⟩
  | push {k : Facts} (operand : Operand) :
    Leads k (.run (.store operand (.ofRuntime .stackTop))) { k with restored := false }
  | pop {ps : List Local} {restored : Bool} :
    Leads ⟨ps, true, restored⟩
      (.run (.store (.ptr (.register .callerFrame)) (.ofRuntime .stackTop))) ⟨ps, true, true⟩

/-- Lines of a function with a frame, or of one without. The first kind keeps the top that it found
in a register, the other one on the stack; but both return only with that top on the stack. -/
inductive Line.Sound {ℓ σ : Type} (framed : Bool) : Facts → List (Line ℓ σ) → Prop where
  | nil {k : Facts} : Sound framed k []
  | cons {k k' : Facts} {l : Line ℓ σ} {lines : List (Line ℓ σ)} :
    l.isLeave = false → Leads k l k' → Sound framed k' lines → Sound framed k (l :: lines)
  | leave {k : Facts} {t : Term ℓ} {lines : List (Line ℓ σ)} :
    (if framed then k.saved else k.restored) = true →
    (∀ operand, t = .ret operand → k.restored = true) → Sound framed k (.leave t :: lines)

/-- What is known at the start of each block but the first. -/
def Facts.between (framed : Bool) : Facts := ⟨[], framed, !framed⟩

/-- The blocks of a function lead from the facts of the one to those of the other. -/
structure Function.KeepsStack {ℓ : Type} [DecidableEq ℓ] [BlockLabel ℓ] (framed : Bool)
    (f : Function ℓ) : Prop where
  entry : ∀ lines, f.lines? BlockLabel.entry = some lines →
    Line.Sound framed ⟨[], false, true⟩ lines
  others : ∀ l lines, f.lines? l = some lines → l ≠ BlockLabel.entry →
    Line.Sound framed (.between framed) lines
  targets : ∀ l lines t target, f.lines? l = some lines → .leave t ∈ lines → target ∈ t.targets →
    target ≠ BlockLabel.entry

section Lines

variable {ℓ σ : Type} {framed : Bool} {k : Facts} {lines : List (Line ℓ σ)}

/-- Tidy lines are sound, unless they return without the top on the stack. -/
lemma Line.Tidy.sound {ps : List Local} {saved restored : Bool} (tidy : Tidy ps lines)
    (kept : (if framed then saved else restored) = true)
    (returns : restored = false → ∀ operand, .leave (.ret operand) ∉ lines) :
    Sound framed ⟨ps, saved, restored⟩ lines := by
  induction lines generalizing ps with
  | nil => exact .nil
  | cons l lines ih =>
    have rest : Sound framed ⟨l.parts ps, saved, restored⟩ lines :=
      ih tidy.2 fun none operand mem => returns none operand (List.mem_cons_of_mem _ mem)
    cases l with
    | leave t =>
      refine .leave kept ?_
      rintro operand rfl
      by_contra none
      exact returns (Bool.not_eq_true _ ▸ none) operand (List.mem_cons_self ..)
    | _ => exact .cons rfl (.tidy tidy.1) rest

/-- Tidy lines that stay in their block, and then others. -/
lemma Line.Tidy.sound_append {ps : List Local} {saved restored : Bool} (tidy : Tidy ps lines)
    (stay : ∀ l ∈ lines, l.isLeave = false) {rest : List (Line ℓ σ)}
    (sound : ∀ ps, Sound framed ⟨ps, saved, restored⟩ rest) :
    Sound framed ⟨ps, saved, restored⟩ (lines ++ rest) := by
  induction lines generalizing ps with
  | nil => exact sound ps
  | cons l lines ih =>
    obtain ⟨first, others⟩ := List.forall_mem_cons.1 stay
    exact .cons first (.tidy tidy.1) (ih tidy.2 others)

end Lines

section Steps

variable {host : Host} {top : Option (IrType × Word)} {r : Registers} {m m' : Memory} {i : Instr}
  {k k' : Facts}

/-- Only stores change the top of the stack. -/
lemma Instr.run?_topCell (keeps : KeepsTop host) (stores : i.isStore = false)
    {result : Option Word} (runs : i.run? host r m = some (result, m')) :
    m' topCell = m topCell := by
  cases i with
  | store => cases stores
  | fneg | fcmp => cases runs
  | alloca type =>
    cases runs
    rfl
  | binary op type lhs rhs =>
    simp only [run?, Option.bind_eq_bind, Option.bind_eq_some_iff] at runs
    obtain ⟨_, _, _, _, _, _, _, _, _, _, _, _, eq⟩ := runs
    cases eq
    rfl
  | icmp | element | select =>
    simp only [run?, Option.bind_eq_bind, Option.bind_eq_some_iff] at runs
    obtain ⟨_, _, _, _, _, _, eq⟩ := runs
    cases eq
    rfl
  | cast op operand target =>
    simp only [run?, Option.bind_eq_bind, Option.bind_eq_some_iff] at runs
    obtain ⟨_, _, runs⟩ := runs
    split at runs
    · cases runs
      rfl
    · simp only [Option.bind_eq_some_iff] at runs
      obtain ⟨_, _, _, _, _, _, _, _, eq⟩ := runs
      cases eq
      rfl
  | load type address =>
    simp only [run?, Option.bind_eq_bind, Option.bind_eq_some_iff] at runs
    obtain ⟨_, _, _, _, _, _, runs⟩ := runs
    split at runs
    · cases runs
      rfl
    · cases runs
  | call type callee arguments =>
    simp only [run?, Option.bind_eq_bind, Option.bind_eq_some_iff] at runs
    obtain ⟨_, _, a, _, runs⟩ := runs
    split at runs
    · obtain ⟨_, _, runs⟩ := Option.bind_eq_some_iff.1 runs
      exact keeps runs
    · cases runs

/-- The address of a part is one. -/
lemma Instr.run?_element {base : IrType} {address : Value} {indices : List Value}
    {result : Option Word}
    (runs : (Instr.element base address indices).run? host r m = some (result, m')) :
    ∃ a type path, result = some (.address (.part a type path)) := by
  simp only [run?, Option.bind_eq_bind, Option.bind_eq_some_iff] at runs
  obtain ⟨_, _, a, _, path, _, eq⟩ := runs
  cases eq
  exact ⟨a, base, path, rfl⟩

namespace Facts.Hold

/-- What is known of other registers still holds when one is assigned. -/
lemma assign (hold : k.Hold top r m) {receiver : Local} (other : receiver ≠ .callerFrame)
    (w : Word) (unchanged : m' topCell = m topCell) :
    Hold { k with parts := k.parts.filter (· ≠ receiver) } top
      (Function.update r receiver (some w)) m' where
  parts := fun l mem => by
    obtain ⟨mem, ne⟩ := List.mem_filter.1 mem
    rw [Function.update_of_ne (of_decide_eq_true ne)]
    exact hold.parts l mem
  saved := fun saved => by
    rw [Function.update_of_ne other.symm]
    exact hold.saved saved
  restored := fun restored => unchanged.trans (hold.restored restored)

end Facts.Hold

/-- A store that leaves the stack alone goes to a part of something or to another symbol. -/
lemma Line.IsTidy.store_topCell {ℓ σ : Type} {operand : Operand} {address : Value}
    {result : Option Word} (tidy : (run (.store operand address) : Line ℓ σ).IsTidy k.parts)
    (hold : k.Hold top r m)
    (runs : (Instr.store operand address).run? host r m = some (result, m')) :
    m' topCell = m topCell := by
  simp only [Instr.run?, Option.bind_eq_bind, Option.bind_eq_some_iff] at runs
  obtain ⟨w, _, address', word, a, points, eq⟩ := runs
  have other : a ≠ topCell := by
    rintro rfl
    cases address with
    | register l =>
      obtain ⟨a, type, path, part⟩ := hold.parts l tidy
      rw [Value.word?, part] at word
      cases word
      cases points
    | symbol g =>
      cases word
      cases points
      exact tidy rfl
    | _ => exact tidy
  cases eq
  exact Function.update_of_ne other.symm _ _

variable {ℓ : Type} [DecidableEq ℓ] {s s' : State ℓ} {l : Line ℓ ℓ}

/-- A tidy line keeps what is known. -/
lemma Line.IsTidy.step (keeps : KeepsTop host) (tidy : l.IsTidy k.parts)
    (hold : k.Hold top s.registers s.memory) (stays : l.isLeave = false)
    (runs : l.run? host s = some s') :
    Facts.Hold { k with parts := l.parts k.parts } top s'.registers s'.memory ∧
      s'.label = s.label ∧ s'.position = s.position + 1 := by
  cases l with
  | leave t => cases stays
  | comment text =>
    cases runs
    exact ⟨hold, rfl, rfl⟩
  | run i =>
    obtain ⟨⟨result, m'⟩, ran, eq⟩ := Option.bind_eq_some_iff.1 runs
    cases eq
    -- only a store can change the cell, and a tidy one keeps it
    have unchanged : m' topCell = s.memory topCell := by
      cases i with
      | store operand address => exact IsTidy.store_topCell tidy hold ran
      | _ => exact Instr.run?_topCell keeps rfl ran
    exact ⟨⟨hold.parts, hold.saved, fun restored => unchanged.trans (hold.restored restored)⟩, rfl,
      rfl⟩
  | define receiver i =>
    cases receiver with
    | register receiver =>
      obtain ⟨⟨result, m'⟩, ran, eq⟩ := Option.bind_eq_some_iff.1 runs
      cases result with
      | none => cases eq
      | some w =>
        cases eq
        have unchanged := Instr.run?_topCell keeps tidy.2 ran
        -- the register of the caller's frame is never assigned again
        have other : receiver ≠ .callerFrame := fun eq => tidy.1 (congrArg Value.register eq)
        have assigned := hold.assign other w unchanged
        refine ⟨?_, rfl, rfl⟩
        cases i with
        | element base address indices =>
          obtain ⟨a, type, path, eq⟩ := Instr.run?_element ran
          cases eq
          have here := Function.update_self receiver (some (.address (.part a type path)))
            s.registers
          refine ⟨List.forall_mem_cons.2 ⟨⟨a, type, path, here⟩, fun l mem => ?_⟩, assigned.saved,
            assigned.restored⟩
          by_cases eq : l = receiver
          · exact ⟨a, type, path, eq ▸ here⟩
          · exact assigned.parts l (List.mem_filter.2 ⟨mem, decide_eq_true eq⟩)
        | _ => exact assigned
    | _ => cases runs
  | phi receiver type incomings =>
    cases receiver with
    | register receiver =>
      obtain ⟨⟨value, _⟩, _, runs⟩ := Option.bind_eq_some_iff.1 runs
      obtain ⟨w, _, eq⟩ := Option.bind_eq_some_iff.1 runs
      cases eq
      have other : receiver ≠ .callerFrame := fun eq => tidy (congrArg Value.register eq)
      exact ⟨hold.assign other w rfl, rfl, rfl⟩
    | _ => cases runs

/-- The facts behind a line hold behind it. -/
lemma Line.Leads.step (keeps : KeepsTop host) (leads : Line.Leads k l k')
    (hold : k.Hold top s.registers s.memory) (stays : l.isLeave = false)
    (runs : l.run? host s = some s') :
    k'.Hold top s'.registers s'.memory ∧ s'.label = s.label ∧ s'.position = s.position + 1 := by
  cases leads with
  | tidy tidy => exact tidy.step keeps hold stays runs
  | @save ps saved =>
    -- the top is loaded as a pointer, and it is still the one that was found
    obtain ⟨⟨result, m'⟩, ran, eq⟩ := Option.bind_eq_some_iff.1 runs
    obtain ⟨⟨stored, w⟩, cell, ran⟩ := Option.bind_eq_some_iff.1 ran
    have found : s.memory topCell = top := hold.restored rfl
    dsimp only at ran
    split at ran
    case isTrue pointer =>
      obtain rfl : stored = .ptr := pointer
      cases ran
      cases eq
      have loaded : s.memory topCell = some (.ptr, w) := cell
      refine ⟨⟨fun l mem => ?_, fun _ => ⟨w, ?_, ?_⟩, fun _ => found⟩, rfl, rfl⟩
      · obtain ⟨mem, ne⟩ := List.mem_filter.1 mem
        obtain ⟨a, type, path, part⟩ := hold.parts l mem
        refine ⟨a, type, path, ?_⟩
        exact (Function.update_of_ne (of_decide_eq_true ne) _ _).trans part
      · exact Function.update_self Local.callerFrame (some w) s.registers
      · rw [← found, loaded]
    case isFalse => cases ran
  | push operand =>
    obtain ⟨⟨result, m'⟩, _, eq⟩ := Option.bind_eq_some_iff.1 runs
    cases eq
    exact ⟨⟨hold.parts, hold.saved, by rintro ⟨⟩⟩, rfl, rfl⟩
  | @pop ps restored =>
    obtain ⟨w, register, found⟩ := hold.saved rfl
    obtain ⟨⟨result, m'⟩, ran, eq⟩ := Option.bind_eq_some_iff.1 runs
    simp only [Instr.run?, Operand.ptr, Value.word?, register] at ran
    cases ran
    cases eq
    refine ⟨⟨hold.parts, hold.saved, fun _ => ?_⟩, rfl, rfl⟩
    rw [found]
    exact Function.update_self topCell _ s.memory

end Steps

section Run

variable {ℓ : Type} {host : Host} {top : Option (IrType × Word)} {framed : Bool} {s s' : State ℓ}

/-- A terminator goes to one of its targets. -/
lemma Term.mem_targets {t : Term ℓ} {r : Registers} {target : ℓ}
    (goes : t.target? r = some target) : target ∈ t.targets := by
  cases t with
  | br => exact List.mem_singleton.2 (Option.some.inj goes).symm
  | condBr condition consequent alternative =>
    simp only [target?, Option.bind_eq_bind, Option.bind_eq_some_iff] at goes
    obtain ⟨_, _, n, _, eq⟩ := goes
    rw [← Option.some.inj eq]
    split
    · exact List.mem_cons_of_mem _ (List.mem_singleton_self _)
    · exact List.mem_cons_self ..
  | switch type value otherwise cases =>
    simp only [target?, Option.bind_eq_bind, Option.bind_eq_some_iff] at goes
    obtain ⟨_, _, n, _, eq⟩ := goes
    rw [← Option.some.inj eq]
    cases found : cases.lookup n with
    | none => exact List.mem_cons_self ..
    | some target =>
      obtain ⟨before, after, split, _⟩ := List.lookup_eq_some_iff.1 found
      rw [split]
      apply List.mem_cons_of_mem
      exact List.mem_map_of_mem (List.mem_append_right _ (List.mem_cons_self ..))
  | ret | unreachable => cases goes

variable [DecidableEq ℓ] {f : Function ℓ}

/-- What is left of the block is sound, given facts that hold. -/
def State.Sound (s : State ℓ) (f : Function ℓ) (framed : Bool) (top : Option (IrType × Word)) :
    Prop :=
  ∀ lines, f.lines? s.label = some lines →
    ∃ k : Facts, Line.Sound framed k (lines.drop s.position) ∧ k.Hold top s.registers s.memory

/-- The line that a function is at is the first of those that are left of its block. -/
lemma Function.drop_of_line? {l : Line ℓ ℓ} (at' : f.line? s = some l) :
    ∃ lines, f.lines? s.label = some lines ∧
      lines.drop s.position = l :: lines.drop (s.position + 1) := by
  obtain ⟨lines, found, here⟩ := Option.bind_eq_some_iff.1 at'
  obtain ⟨lt, eq⟩ := List.getElem?_eq_some_iff.1 here
  refine ⟨lines, found, ?_⟩
  rw [List.drop_eq_getElem_cons lt, eq]

variable [BlockLabel ℓ]

namespace Function.KeepsStack

/-- A step keeps what holds of the stack. -/
lemma step (stack : f.KeepsStack framed) (keeps : KeepsTop host) (sound : s.Sound f framed top)
    (steps : f.step? host s = some s') : s'.Sound f framed top := by
  obtain ⟨l, at', runs⟩ := Option.bind_eq_some_iff.1 steps
  obtain ⟨lines, found, here⟩ := drop_of_line? at'
  obtain ⟨k, sound, hold⟩ := sound lines found
  rw [here] at sound
  cases sound with
  | cons stays leads sound =>
    obtain ⟨hold', label, position⟩ := leads.step keeps hold stays runs
    intro lines' found'
    rw [label, found] at found'
    obtain rfl := Option.some.inj found'
    exact ⟨_, position ▸ sound, hold'⟩
  | @leave _ t _ kept _ =>
    obtain ⟨target, goes, eq⟩ := Option.bind_eq_some_iff.1 runs
    cases eq
    have left : .leave t ∈ lines := List.mem_of_mem_drop (here ▸ List.mem_cons_self ..)
    have other := stack.targets _ lines t target found left (Term.mem_targets goes)
    intro lines' found'
    refine ⟨.between framed, stack.others target lines' found' other, List.forall_mem_nil _, ?_, ?_⟩
    · rintro rfl
      exact hold.saved kept
    · cases framed with
      | true => rintro ⟨⟩
      | false => exact fun _ => hold.restored kept

/-- A function that returns leaves the top of the stack as it has found it, if the functions that it
calls do. -/
lemma returns (stack : f.KeepsStack framed) (keeps : KeepsTop host) {r : Registers} {m : Memory}
    (runs : f.Runs host (.start r m) s) {operand : Option Operand}
    (at' : f.line? s = some (.leave (.ret operand))) : s.memory topCell = m topCell := by
  have sound : s.Sound f framed (m topCell) := by
    clear at'
    induction runs with
    | refl => exact fun lines found => ⟨_, stack.entry lines found, List.forall_mem_nil _,
      by rintro ⟨⟩,
        fun _ => rfl⟩
    | tail _ steps ih => exact stack.step keeps ih steps
  obtain ⟨lines, found, here⟩ := drop_of_line? at'
  obtain ⟨k, sound, hold⟩ := sound lines found
  rw [here] at sound
  cases sound with
  | cons stays => cases stays
  | leave _ restored => exact hold.restored (restored operand rfl)

end Function.KeepsStack

end Run

end ObjectBackend.Target
