import ObjectBackend.Proofs.Image.Definitions
import ObjectBackend.Proofs.Lowering.Straight

/-!
# Emission with names of the module

What has been emitted refers to known names and to literals only (`Progress.Resolved`), and steps of
emission keep it so if the names they use are known (`Emit.Resolves`). Literals are not known in
advance, but once a module has one, it keeps it.
-/

namespace ObjectBackend

open Target

attribute [simp] Backend.Knows.runtimeType Backend.Knows.runtime Backend.Knows.arrayMetadata

/-- Whether a module with some pools has a name: a known one or that of a literal. -/
def Backend.Provides (b : Backend) (pools : Pools) (n : Name) : Prop :=
  b.Knows n ∨ n ∈ Literals.names pools.literals.texts.length

/-- A text becomes a literal of the pools, which keep all others. -/
lemma Literals.intern_spec (l : Literals) (text : String) :
    (l.intern text).1 < (l.intern text).2.texts.length ∧
      l.texts.length ≤ (l.intern text).2.texts.length := by
  rw [Literals.intern]
  split
  case h_1 id found =>
    exact ⟨(List.getElem?_eq_some_iff.1 ((l.indexed text id).1 found)).1, Nat.le_refl _⟩
  case h_2 => simp [Literals.add]

/-- More literals provide more names. -/
lemma Backend.provides_of_le {b : Backend} {pools pools' : Pools} {n : Name}
    (provided : b.Provides pools n)
    (le : pools.literals.texts.length ≤ pools'.literals.texts.length) : b.Provides pools' n :=
  provided.imp_right fun mem => Literals.names_subset le mem

namespace Lowering

variable {b : Backend} {s s' s'' : Progress}

namespace Progress

/-- What has been emitted refers to names of the module only. -/
structure Resolved (b : Backend) (s : Progress) : Prop where
  code : ∀ n ∈ s.draft.names, b.Provides s.pools n
  exits : ∀ e ∈ s.exits, ∀ v, e.1 = some v → ∀ n ∈ v.names, b.Knows n
  handled : ∀ site ∈ s.pools.sites.sites, ∀ name, some name ∈ site.handled → b.Declares name

/-- Emission has gone on with names of the module only. -/
structure Reaches (b : Backend) (s s' : Progress) : Prop where
  resolved : s'.Resolved b
  literals : s.pools.literals.texts.length ≤ s'.pools.literals.texts.length
  head : s'.draft.head = s.draft.head

namespace Reaches

/-- What is resolved reaches itself. -/
lemma refl (resolved : s.Resolved b) : s.Reaches b s := ⟨resolved, Nat.le_refl _, rfl⟩

/-- What is reached in two rounds is reached in one. -/
lemma trans (h : s.Reaches b s') (h' : s'.Reaches b s'') : s.Reaches b s'' :=
  ⟨h'.resolved, Nat.le_trans h.literals h'.literals, h'.head.trans h.head⟩

/-- A step that changes the draft only. -/
lemma of_draft {d : Draft Label} (resolved : s.Resolved b) (head : d.head = s.draft.head)
    (new : ∀ n ∈ d.names, n ∈ s.draft.names ∨ b.Provides s.pools n) :
    s.Reaches b { s with draft := d } where
  resolved :=
    { code := fun n mem => (new n mem).elim (resolved.code n) id
      exits := resolved.exits
      handled := resolved.handled }
  literals := Nat.le_refl _
  head := head

/-- A line may be pushed whose names are provided. -/
lemma push (resolved : s.Resolved b) {l : DraftLine}
    (provided : ∀ n ∈ l.names, b.Provides s.pools n) :
    s.Reaches b { s with draft := s.draft.push l } :=
  of_draft resolved rfl fun n mem => (Draft.mem_names_push mem).imp_right (provided n)

end Reaches

end Progress

/-- Emission with names of the module only; the result has a property. -/
def Emit.Resolves (b : Backend) {α : Type} (Q : α → Prop) (e : Emit α) : Prop :=
  ∀ s, s.Resolved b → s.Reaches b (e.next s) ∧ Q (e.result s)

/-- A value that names known names only. -/
abbrev KnownValue (b : Backend) (v : Value) : Prop := ∀ n ∈ v.names, b.Knows n

namespace Emit.Resolves

variable {α β : Type} {P : α → Prop} {Q : β → Prop}

/-- A value that is at hand refers to nothing. -/
lemma pure {a : α} (holds : P a) : Resolves b P (Pure.pure a) := fun _ resolved =>
  ⟨.refl resolved, holds⟩

/-- Code refers to declared names only, one after the other. -/
lemma bind {e : Emit α} {f : α → Emit β} (he : Resolves b P e)
    (hf : ∀ a, P a → Resolves b Q (f a)) : Resolves b Q (e >>= f) := by
  intro s resolved
  obtain ⟨reaches, holds⟩ := he s resolved
  obtain ⟨reaches', holds'⟩ := hf _ holds _ reaches.resolved
  exact ⟨reaches.trans reaches', holds'⟩

/-- Code for each item of a list refers to declared names only if each code does. -/
lemma forM {f : α → Emit Unit} {xs : List α} (each : ∀ x ∈ xs, Resolves b (fun _ => True) (f x)) :
    Resolves b (fun _ => True) (xs.forM f) := by
  induction xs with
  | nil => exact pure trivial
  | cons x xs ih =>
    obtain ⟨first, others⟩ := List.forall_mem_cons.1 each
    exact first.bind fun _ _ => ih others

/-- A fold refers to declared names only if each step does. -/
lemma foldlM {f : β → α → Emit β} (step : ∀ c a, Q c → Resolves b Q (f c a)) (xs : List α) {c : β}
    (holds : Q c) : Resolves b Q (xs.foldlM f c) := by
  induction xs generalizing c with
  | nil => exact pure holds
  | cons x xs ih =>
    rw [List.foldlM_cons]
    exact (step c x holds).bind fun c' holds' => ih holds'

/-- A line refers to declared names only. -/
lemma line {l : DraftLine} (known : ∀ n ∈ l.names, b.Knows n) :
    Resolves b (fun _ => True) (Emit.line l) := fun _ resolved =>
  ⟨.push resolved fun n mem => .inl (known n mem), trivial⟩

/-- An instruction without result refers to declared names only. -/
lemma run {i : Instr} (known : ∀ n ∈ i.names, b.Knows n) :
    Resolves b (fun _ => True) (Emit.run i) := line known

/-- An assignment refers to declared names only. -/
lemma assign {receiver : Local} {i : Instr} (known : ∀ n ∈ i.names, b.Knows n) :
    Resolves b (fun _ => True) (Emit.assign receiver i) := line known

/-- An assignment to a variable refers to declared names only. -/
lemma assignVar {receiver : Var} {i : Instr} (known : ∀ n ∈ i.names, b.Knows n) :
    Resolves b (fun _ => True) (Emit.assignVar receiver i) := line known

/-- A copy refers to declared names only if its value does. -/
lemma copyTo {receiver : Var} {type : IrType} {v : Value} (known : ∀ n ∈ type.names, b.Knows n)
    (value : KnownValue b v) : Resolves b (fun _ => True) (Emit.copyTo receiver type v) := by
  refine assignVar fun n mem => ?_
  rw [Instr.names_copy, List.mem_append, List.mem_append] at mem
  exact mem.elim (fun mem => mem.elim (known n) (value n)) (known n)

/-- A new temporary refers to nothing. -/
lemma fresh : Resolves b (KnownValue b) Emit.fresh := fun _ resolved =>
  ⟨.of_draft resolved rfl fun _ => .inl, fun _ mem => nomatch mem⟩

/-- A temporary refers to declared names only. -/
lemma define {i : Instr} (known : ∀ n ∈ i.names, b.Knows n) :
    Resolves b (KnownValue b) (Emit.define i) :=
  fresh.bind (f := fun receiver => Emit.line (.define receiver i) >>= fun _ => Pure.pure receiver)
    fun receiver value => (line (l := .define receiver i) fun n mem =>
      (List.mem_append.1 mem).elim (value n) (known n)).bind fun _ _ => pure value

/-- A call refers to declared names only. -/
lemma call {result : IrType} {callee : Symbol} {arguments : List Target.Operand}
    (known : ∀ n ∈ (Instr.call result (.symbol callee) arguments).names, b.Knows n) :
    Resolves b (fun v => ∀ v', v = some v' → KnownValue b v')
      (Emit.call result callee arguments) := by
  by_cases void : result = .void
  · rw [call_of_void void]
    exact (run known).bind fun _ _ => pure nofun
  · rw [call_of_ne_void void]
    exact (define known).bind fun v value => pure fun _ eq => Option.some.inj eq ▸ value

/-- A terminator refers to declared names only. -/
lemma leave {t : Term Label} (known : ∀ n ∈ t.names, b.Knows n) :
    Resolves b (fun _ => True) (Emit.leave t) := fun _ resolved =>
  ⟨.of_draft resolved rfl fun n mem => (Draft.mem_names_terminate mem).imp_right fun mem =>
    .inl (known n mem), trivial⟩

/-- Asking for the current block refers to nothing. -/
lemma here : Resolves b (fun _ => True) Emit.here := fun _ resolved =>
  ⟨.of_draft resolved rfl fun _ => .inl, trivial⟩

/-- An empty block at the end refers to nothing. -/
lemma appendBlock (l : Label) : Resolves b (fun _ => True) (Emit.appendBlock l) := fun _ resolved =>
  ⟨.of_draft resolved rfl fun _ mem => .inl (Draft.names_appendBlock l ▸ mem), trivial⟩

/-- An empty block that is inserted refers to nothing. -/
lemma insertBlock (l : Label) : Resolves b (fun _ => True) (Emit.insertBlock l) := fun _ resolved =>
  ⟨.of_draft resolved rfl fun _ mem => .inl (Draft.mem_names_insertBlock mem), trivial⟩

/-- Splitting a block refers to nothing. -/
lemma split (first : Label) : Resolves b (fun _ => True) (Emit.split first) := fun _ resolved =>
  ⟨.of_draft resolved rfl fun _ mem => .inl (Draft.mem_names_insertBlock mem), trivial⟩

/-- Going on at a block refers to nothing. -/
lemma continueAt (l : Label) : Resolves b (fun _ => True) (Emit.continueAt l) := by
  intro s resolved
  obtain ⟨i, eq⟩ := s.draft.goTo_eq l
  have head : (s.draft.goTo l).head = s.draft.head := by
    rw [eq]
    rfl
  exact ⟨.of_draft resolved head fun n mem => .inl (Draft.names_goTo l ▸ mem), trivial⟩

/-- Finishing a block refers to nothing. -/
lemma finishBlock (id : BlockId) :
    Resolves b (fun _ => True) (Emit.onDraft fun d => ((), d.finishBlock id)) := fun _ resolved =>
  ⟨.of_draft resolved rfl fun _ => .inl, trivial⟩

/-- A call site that is registered handles declared classes only. -/
lemma register {site : CallSite} (handled : ∀ name, some name ∈ site.handled → b.Declares name) :
    Resolves b (fun _ => True) (Emit.register site) := by
  intro s resolved
  refine ⟨⟨⟨resolved.code, resolved.exits, fun site' mem => ?_⟩, Nat.le_refl _, rfl⟩, trivial⟩
  have registered : site' ∈ (s.pools.sites.register site).2.sites := mem
  rw [CallSites.sites_register] at registered
  rcases List.mem_append.1 registered with mem | mem
  · exact resolved.handled site' mem
  · exact List.mem_singleton.1 mem ▸ handled

/-- Looking at the progress refers to nothing, and finds it resolved. -/
lemma get : Resolves b (fun s => s.Resolved b) (MonadState.get : Emit Progress) := fun _ resolved =>
  ⟨.refl resolved, resolved⟩

/-- A change of what is recorded beside the code. -/
lemma record {f : Progress → Progress} (draft : ∀ s, (f s).draft = s.draft)
    (pools : ∀ s, (f s).pools = s.pools)
    (exits : ∀ s, s.Resolved b → ∀ e ∈ (f s).exits, ∀ v, e.1 = some v → KnownValue b v) :
    Resolves b (fun _ => True) (modify f : Emit PUnit) := by
  intro s resolved
  refine ⟨⟨⟨?_, exits s resolved, ?_⟩, ?_, ?_⟩, trivial⟩
  · change ∀ n ∈ (f s).draft.names, b.Provides (f s).pools n
    rw [draft, pools]
    exact resolved.code
  · change ∀ site ∈ (f s).pools.sites.sites, _
    rw [pools]
    exact resolved.handled
  · change _ ≤ (f s).pools.literals.texts.length
    rw [pools]
  · exact congrArg Draft.head (draft s)

end Emit.Resolves

end Lowering

end ObjectBackend
