import ObjectBackend.Proofs.Lowering.Straight
import ObjectBackend.Proofs.Success
import ObjectBackend.Proofs.Target.Typing

/-!
# Emission of well-typed code

What has been emitted is well typed at any time, given the types of the variables and of the
registers that it defines (`Progress.Typed`), and steps of emission keep it so if they use registers
that have been defined before (`Emit.Types`). Temporaries are told apart by their numbers, so each
of them keeps its type; the type of any other register is known in advance (`Context.localType?`).
-/

namespace ObjectBackend

open Target

namespace Target.Draft

variable {d : Draft Label} {l : DraftLine} {t : Term Label}

/-- All lines of a draft. -/
def lines (d : Draft Label) : List DraftLine := d.blocks.flatMap Block.lines

/-- The registers that a draft defines, with their types. -/
def definitions (d : Draft Label) : List (Local × IrType) :=
  d.parameters.filterMap Operand.definition? ++ d.blocks.flatMap Block.definitions

/-- The definitions of a draft are its parameters and those of its lines. -/
lemma definitions_eq (d : Draft Label) : d.definitions =
    d.parameters.filterMap Operand.definition? ++ d.lines.filterMap Line.definition? := by
  rw [definitions, lines, List.filterMap_flatMap]
  rfl

/-- What is defined besides, if at most one line is added. -/
lemma definitions_perm {d' : Draft Label} (new : Option DraftLine)
    (lines : d'.lines.Perm (new.toList ++ d.lines)) (head : d'.head = d.head) :
    d'.definitions.Perm ((new.bind Line.definition?).toList ++ d.definitions) := by
  have parameters : d'.parameters = d.parameters := (Prod.mk.inj (Prod.mk.inj head).2).2
  have added : (new.toList ++ d.lines).filterMap Line.definition? =
      (new.bind Line.definition?).toList ++ d.lines.filterMap Line.definition? := by
    cases new with
    | none => rfl
    | some l => cases defines : l.definition? <;> simp [defines]
  rw [definitions_eq, definitions_eq, parameters]
  exact ((added ▸ lines.filterMap Line.definition?).append_left _).trans
    (List.perm_append_comm_assoc ..)

/-- The blocks around the current one. -/
lemma exists_current (inside : d.current < d.blocks.length) :
    ∃ before block after, d.blocks = before ++ block :: after ∧
      ∀ f, d.blocks.modify d.current f = before ++ f block :: after := by
  have blocks : d.blocks = d.blocks.take d.current ++ d.blocks[d.current] ::
      d.blocks.drop (d.current + 1) := by
    rw [List.getElem_cons_drop, List.take_append_drop]
  have position : (d.blocks.take d.current).length = d.current :=
    List.length_take_of_le (Nat.le_of_lt inside)
  have modified := List.modify_length_append (d.blocks.take d.current)
    (d.blocks.drop (d.current + 1)) d.blocks[d.current]
  rw [position, ← blocks] at modified
  exact ⟨_, _, _, blocks, modified⟩

/-- A line that is pushed is one more line. -/
lemma lines_push (inside : d.current < d.blocks.length) : (d.push l).lines.Perm (l :: d.lines) := by
  obtain ⟨before, block, after, blocks, modified⟩ := exists_current inside
  rw [lines, lines, push, modified, blocks]
  simp only [List.flatMap_append, List.flatMap_cons, Block.push, List.append_assoc]
  exact ((List.perm_middle.append_left _).trans List.perm_middle)

/-- A terminator is one more line, unless there is one already. -/
lemma lines_terminate (inside : d.current < d.blocks.length) :
    (d.terminate t).lines = d.lines ∨ (d.terminate t).lines.Perm (.leave t :: d.lines) := by
  obtain ⟨before, block, after, blocks, modified⟩ := exists_current inside
  by_cases left : block.isTerminated = true
  · left
    rw [lines, lines, terminate, modified, blocks, Block.terminate, if_pos left]
  · right
    have same : (d.terminate t).blocks = (d.push (.leave t)).blocks := by
      rw [terminate, push, modified, modified, Block.terminate, if_neg left]
    rw [lines, same]
    exact lines_push inside

/-- An empty block at the end has no lines. -/
lemma lines_appendBlock (l : Label) : (d.appendBlock l).lines = d.lines := by
  rw [lines, lines, appendBlock]
  simp

/-- An empty block that is inserted has no lines. -/
lemma lines_insertBlock (l : Label) : (d.insertBlock l).lines.Perm d.lines := by
  have perm := List.perm_insertIdx (⟨l, []⟩ : DraftBlock) d.blocks
    (Nat.min_le_right (d.current + 1) d.blocks.length)
  exact perm.flatMap_right Block.lines

/-- The current block is there when one is inserted behind it. -/
lemma current_insertBlock_lt (l : Label) (inside : d.current < d.blocks.length) :
    (d.insertBlock l).current < (d.insertBlock l).blocks.length := by
  refine Nat.lt_of_lt_of_le inside ?_
  rw [insertBlock, List.length_insertIdx_of_le_length (Nat.min_le_right ..)]
  exact Nat.le_succ _

/-- Where lines go to does not matter to which there are. -/
lemma lines_goTo (l : Label) : (d.goTo l).lines = d.lines := by
  obtain ⟨i, eq⟩ := d.goTo_eq l
  rw [eq]
  rfl

/-- The current block is one of the blocks when lines go elsewhere. -/
lemma current_goTo_lt (inside : d.current < d.blocks.length) (l : Label) :
    (d.goTo l).current < (d.goTo l).blocks.length := by
  rw [goTo]
  split
  case h_1 i found => exact (List.findIdx?_eq_some_iff_findIdx_eq.1 found).1
  case h_2 => exact inside

end Target.Draft

namespace Lowering

variable {c : Context} {Δ Δ' : List (Local × IrType)} {s s' s'' : Progress}

namespace Context

/-- The type of a register that is known in advance. -/
def localType? (c : Context) : Local → Option IrType
  | .var v => (c.typeOf v).toOption
  | .frame | .callerFrame => some .ptr
  | .result => some c.result
  | .landingSite _ => some .i32
  | .temporary _ | .named _ => none

/-- The types of registers, given those that have been defined. -/
def Assigns (c : Context) (Δ : List (Local × IrType)) : Local → IrType → Prop
  | .var v, type => c.typeOf v = .ok type
  | r, type => (r, type) ∈ Δ

/-- Variables are of scalar types. -/
lemma isScalar {v : Var} {type : IrType} (known : c.typeOf v = .ok type) : type.IsScalar := by
  obtain ⟨kind, _, eq⟩ := Except.exists_of_bind_eq_ok known
  rw [← Except.ok.inj eq]
  cases kind <;> rfl

/-- What is assigned stays assigned with more definitions. -/
lemma Assigns.mono (more : Δ ⊆ Δ') (r : Local) (type : IrType) (assigned : c.Assigns Δ r type) :
    c.Assigns Δ' r type := by
  cases r with
  | var v => exact assigned
  | _ => exact more assigned

/-- A register that is defined with the type known in advance has that type. -/
lemma Assigns.of_mem {r : Local} {type : IrType} (known : c.localType? r = some type)
    (defined : (r, type) ∈ Δ) : c.Assigns Δ r type := by
  cases r with
  | var v =>
    rw [localType?] at known
    exact Except.eq_ok_of_toOption known
  | _ => exact defined

end Context

end Lowering

/-- The register of a variable has the type of the variable. -/
lemma Target.Value.HasType.ofVar {c : Lowering.Context} {Δ : List (Local × IrType)} {v : Var}
    {type : IrType} (known : c.typeOf v = .ok type) :
    (Value.ofVar v).HasType (c.Assigns Δ) type := .register known

/-- A variable is well typed as an operand. -/
lemma Target.Operand.WellTyped.ofVar {c : Lowering.Context} {Δ : List (Local × IrType)} {v : Var}
    {type : IrType} (known : c.typeOf v = .ok type) :
    Operand.WellTyped (c.Assigns Δ) ⟨type, .ofVar v⟩ := .register known

namespace Lowering

variable {c : Context} {Δ Δ' : List (Local × IrType)} {s s' s'' : Progress}

namespace Progress

/-- What has been emitted is well typed. -/
structure Typed (c : Context) (s : Progress) : Prop where
  inside : s.draft.current < s.draft.blocks.length
  result : s.draft.result = c.result
  parameters : ∀ o ∈ s.draft.parameters, o.WellTyped (c.Assigns s.draft.definitions)
  lines : ∀ l ∈ s.draft.lines, l.WellTyped (c.Assigns s.draft.definitions) c.result
  exits : ∀ e ∈ s.exits, ∀ v, e.1 = some v → v.HasType (c.Assigns s.draft.definitions) c.result
  known : ∀ d ∈ s.draft.definitions, c.localType? d.1 = some d.2 ∨
    ∃ n < s.draft.nextTemporary, d.1 = .temporary n
  unique : ∀ n type type', (.temporary n, type) ∈ s.draft.definitions →
    (.temporary n, type') ∈ s.draft.definitions → type = type'

/-- Well-typed code has been added. -/
structure Grows (c : Context) (s s' : Progress) : Prop where
  typed : s'.Typed c
  definitions : s.draft.definitions ⊆ s'.draft.definitions

namespace Grows

/-- Nothing grows where nothing is done. -/
lemma refl (typed : s.Typed c) : s.Grows c s := ⟨typed, List.Subset.refl _⟩

/-- What grows in two rounds grows in one. -/
lemma trans (h : s.Grows c s') (h' : s'.Grows c s'') : s.Grows c s'' :=
  ⟨h'.typed, List.Subset.trans h.definitions h'.definitions⟩

/-- At most one line is added, which defines a register with the type that is known in advance, or a
new temporary. -/
lemma of_draft {d : Draft Label} (new : Option DraftLine) (typed : s.Typed c)
    (head : d.head = s.draft.head) (lines : d.lines.Perm (new.toList ++ s.draft.lines))
    (inside : d.current < d.blocks.length) (le : s.draft.nextTemporary ≤ d.nextTemporary)
    (wellTyped : ∀ l ∈ new, l.WellTyped (c.Assigns d.definitions) c.result)
    (known : ∀ l ∈ new, ∀ x ∈ l.definition?, c.localType? x.1 = some x.2 ∨
      ∃ n < d.nextTemporary, s.draft.nextTemporary ≤ n ∧ x.1 = .temporary n) :
    s.Grows c { s with draft := d } := by
  obtain ⟨result, parameters⟩ := Prod.mk.inj (Prod.mk.inj head).2
  have definitions := Draft.definitions_perm new lines head
  have subset : s.draft.definitions ⊆ d.definitions := fun x mem =>
    definitions.mem_iff.2 (List.mem_append_right _ mem)
  have more := Context.Assigns.mono (c := c) subset
  refine ⟨⟨inside, result.trans typed.result, ?_, ?_, ?_, ?_, ?_⟩, subset⟩
  · intro o mem
    exact (typed.parameters o (parameters ▸ mem)).mono more
  · intro l mem
    rcases List.mem_append.1 (lines.mem_iff.1 mem) with mem | mem
    · exact wellTyped l (Option.mem_toList.1 mem)
    · exact (typed.lines l mem).mono more
  · intro e mem v eq
    exact (typed.exits e mem v eq).mono more
  · intro x mem
    rcases List.mem_append.1 (definitions.mem_iff.1 mem) with mem | mem
    · obtain ⟨l, meml, defines⟩ := Option.bind_eq_some_iff.1 (Option.mem_toList.1 mem)
      exact (known l meml x defines).imp_right fun ⟨n, lt, _, eq⟩ => ⟨n, lt, eq⟩
    · exact (typed.known x mem).imp_right fun ⟨n, lt, eq⟩ => ⟨n, Nat.lt_of_lt_of_le lt le, eq⟩
  · -- a new temporary has a number that no other one has
    have apart {n : Nat} {type type' : IrType}
        (mem : (.temporary n, type) ∈ (new.bind Line.definition?).toList) :
        (.temporary n, type') ∉ s.draft.definitions := by
      intro mem'
      obtain ⟨l, meml, defines⟩ := Option.bind_eq_some_iff.1 (Option.mem_toList.1 mem)
      rcases known l meml _ defines with given | ⟨m, _, ge, eq⟩
      · cases given
      rcases typed.known _ mem' with given | ⟨m', lt, eq'⟩
      · cases given
      · cases eq
        cases eq'
        omega
    intro n type type' mem mem'
    rcases List.mem_append.1 (definitions.mem_iff.1 mem) with mem | mem <;>
      rcases List.mem_append.1 (definitions.mem_iff.1 mem') with mem' | mem'
    · have same := (Option.mem_toList.1 mem).symm.trans (Option.mem_toList.1 mem')
      exact (Prod.mk.inj (Option.some.inj same)).2
    · exact absurd mem' (apart mem)
    · exact absurd mem (apart mem')
    · exact typed.unique n type type' mem mem'

/-- No line is added. -/
lemma of_perm {d : Draft Label} (typed : s.Typed c) (head : d.head = s.draft.head)
    (lines : d.lines.Perm s.draft.lines) (inside : d.current < d.blocks.length)
    (le : s.draft.nextTemporary ≤ d.nextTemporary) : s.Grows c { s with draft := d } :=
  of_draft none typed head lines inside le (fun _ mem => absurd mem (Option.not_mem_none _))
    fun _ mem => absurd mem (Option.not_mem_none _)

end Grows

end Progress

/-- Emission of well-typed code that may use what has been defined; the result has a property,
depending on what has been defined by then. -/
def Emit.Types (c : Context) (Δ : List (Local × IrType)) {α : Type}
    (Q : List (Local × IrType) → α → Prop) (e : Emit α) : Prop :=
  ∀ s : Progress, s.Typed c → Δ ⊆ s.draft.definitions →
    s.Grows c (e.next s) ∧ Q (e.next s).draft.definitions (e.result s)

/-- Well-typed code without result. -/
abbrev Emit.Typed (c : Context) (Δ : List (Local × IrType)) (e : Emit Unit) : Prop :=
  e.Types c Δ fun _ _ => True

/-- Well-typed code for a value of a type. -/
abbrev Emit.Yields (c : Context) (Δ : List (Local × IrType)) (type : IrType) (e : Emit Value) :
    Prop :=
  e.Types c Δ fun Δ' v => v.HasType (c.Assigns Δ') type

namespace Emit.Types

variable {α β : Type} {P : List (Local × IrType) → α → Prop} {Q : List (Local × IrType) → β → Prop}
  {type : IrType}

/-- Code that is well typed after some definitions is so after more. -/
lemma weaken {e : Emit α} (types : Types c Δ P e) (more : Δ ⊆ Δ') : Types c Δ' P e :=
  fun s typed sub => types s typed (List.Subset.trans more sub)

/-- What is known of the result may be weakened. -/
lemma imp {e : Emit α} {P' : List (Local × IrType) → α → Prop} (types : Types c Δ P e)
    (implied : ∀ Δ' a, P Δ' a → P' Δ' a) : Types c Δ P' e :=
  fun s typed sub => (types s typed sub).imp_right (implied _ _)

/-- A value that is at hand defines nothing. -/
lemma pure {a : α} (holds : ∀ Δ', Δ ⊆ Δ' → P Δ' a) : Types c Δ P (Pure.pure a) :=
  fun s typed sub => ⟨.refl typed, holds s.draft.definitions sub⟩

/-- Code is well typed one after the other, with what has been defined before. -/
lemma bind {e : Emit α} {f : α → Emit β} (first : Types c Δ P e)
    (rest : ∀ a Δ', Δ ⊆ Δ' → P Δ' a → Types c Δ' Q (f a)) : Types c Δ Q (e >>= f) := by
  intro s typed sub
  obtain ⟨grows, holds⟩ := first s typed sub
  obtain ⟨grows', holds'⟩ := rest _ _ (List.Subset.trans sub grows.definitions) holds _ grows.typed
    (List.Subset.refl _)
  exact ⟨grows.trans grows', holds'⟩

/-- Code that is followed by other code. -/
lemma andThen {e : Emit Unit} {f : Emit β} (first : e.Typed c Δ) (rest : Types c Δ Q f) :
    Types c Δ Q (e >>= fun _ => f) :=
  first.bind fun _ _ more _ => rest.weaken more

/-- What has been defined remains defined. -/
lemma keep {e : Emit α} (types : Types c Δ P e) :
    Types c Δ (fun Δ' a => Δ ⊆ Δ' ∧ P Δ' a) e := fun s typed sub =>
  have ⟨grows, holds⟩ := types s typed sub
  ⟨grows, List.Subset.trans sub grows.definitions, holds⟩

/-- Code for each item of a list is well typed if each code is. -/
lemma forM {f : α → Emit Unit} {xs : List α} (each : ∀ x ∈ xs, (f x).Typed c Δ) :
    Emit.Typed c Δ (xs.forM f) := by
  induction xs with
  | nil => exact pure fun _ _ => trivial
  | cons x xs ih =>
    obtain ⟨first, others⟩ := List.forall_mem_cons.1 each
    exact first.andThen (ih others)

/-- A value of a type yields it. -/
lemma value {v : Value} (typed : v.HasType (c.Assigns Δ) type) :
    Emit.Yields c Δ type (Pure.pure v) :=
  pure fun _ more => typed.mono (Context.Assigns.mono more)

/-- A fold yields a type if its steps do. -/
lemma foldlM {f : Value → α → Emit Value} (step : ∀ v a Δ', Δ ⊆ Δ' →
      v.HasType (c.Assigns Δ') type → (f v a).Yields c Δ' type) (xs : List α) {v : Value}
    (typed : v.HasType (c.Assigns Δ) type) : Emit.Yields c Δ type (xs.foldlM f v) := by
  induction xs generalizing v Δ with
  | nil => exact value typed
  | cons x xs ih =>
    rw [List.foldlM_cons]
    refine (step v x Δ (List.Subset.refl _) typed).bind fun v' Δ' more typed' => ih ?_ typed'
    exact fun v a Δ'' more' => step v a Δ'' (List.Subset.trans more more')

/-- A line that defines no new temporary. -/
lemma line {l : DraftLine} (known : ∀ x ∈ l.definition?, c.localType? x.1 = some x.2)
    (wellTyped : ∀ Δ', Δ ⊆ Δ' → (∀ x ∈ l.definition?, x ∈ Δ') →
      l.WellTyped (c.Assigns Δ') c.result) :
    Types c Δ (fun Δ' _ => ∀ x ∈ l.definition?, x ∈ Δ') (Emit.line l) := by
  intro s typed sub
  have lines := Draft.lines_push (l := l) typed.inside
  have definitions := Draft.definitions_perm (some l) lines rfl
  have defined : ∀ x ∈ l.definition?, x ∈ (s.draft.push l).definitions := fun x mem =>
    definitions.mem_iff.2 (List.mem_append_left _ (Option.mem_toList.2 mem))
  refine ⟨.of_draft (some l) typed rfl lines ?_ (Nat.le_refl _) ?_ ?_, defined⟩
  · exact (List.length_modify ..).symm ▸ typed.inside
  · rintro _ ⟨⟩
    exact wellTyped _ (fun x mem => definitions.mem_iff.2 (List.mem_append_right _ (sub mem)))
      defined
  · rintro _ ⟨⟩ x mem
    exact .inl (known x mem)

/-- A line that defines a new temporary. -/
lemma temporary {l : Value → DraftLine}
    (defines : ∀ r, (l (.register r)).definition? = some (r, type))
    (wellTyped : ∀ Δ' n, Δ ⊆ Δ' → (.temporary n, type) ∈ Δ' →
      (l (.register (.temporary n))).WellTyped (c.Assigns Δ') c.result) :
    Emit.Yields c Δ type (do
      let v ← Emit.fresh
      Emit.line (l v)
      return v) := by
  intro s typed sub
  let d := s.draft.fresh.2
  let n := s.draft.nextTemporary
  have lines := Draft.lines_push (d := d) (l := l (.register (.temporary n))) typed.inside
  have definitions := Draft.definitions_perm (d := s.draft) (some (l (.register (.temporary n))))
    lines rfl
  have defined : (.temporary n, type) ∈ (d.push (l (.register (.temporary n)))).definitions :=
    definitions.mem_iff.2 (List.mem_append_left _ (Option.mem_toList.2 (defines _)))
  refine ⟨.of_draft (some (l (.register (.temporary n)))) typed rfl lines ?_ (Nat.le_succ _) ?_ ?_,
    .register defined⟩
  · exact (List.length_modify ..).symm ▸ typed.inside
  · rintro _ ⟨⟩
    exact wellTyped _ n (fun x mem => definitions.mem_iff.2 (List.mem_append_right _ (sub mem)))
      defined
  · rintro _ ⟨⟩ x mem
    cases (defines _).symm.trans mem
    exact .inr ⟨n, Nat.lt_succ_self n, Nat.le_refl n, rfl⟩

section Lines

variable {i : Instr}

/-- An instruction without result is well typed if it is. -/
lemma run (wellTyped : i.WellTyped (c.Assigns Δ)) : (Emit.run i).Typed c Δ :=
  (line (l := .run i) nofun fun _ more _ => .run (wellTyped.mono (Context.Assigns.mono more))).imp
    fun _ _ _ => trivial

/-- A comment is well typed. -/
lemma comment (text : String) : (Emit.line (.comment text)).Typed c Δ :=
  (line (l := .comment text) nofun fun _ _ _ => .comment).imp fun _ _ _ => trivial

/-- An instruction whose result goes to a register with a type that is known in advance. -/
lemma assign (type : IrType) {r : Local} (known : c.localType? r = some type)
    (computes : i.type? = some type)
    (wellTyped : i.WellTyped (c.Assigns Δ)) :
    Types c Δ (fun Δ' _ => (Value.register r).HasType (c.Assigns Δ') type) (Emit.assign r i) := by
  have defines : (Line.define (.register r) i : DraftLine).definition? = some (r, type) := by
    rw [Line.definition?, computes]
    rfl
  refine (line (l := .define (.register r) i) ?_ fun Δ' more defined => ?_).imp
    fun Δ' _ defined => .register (.of_mem known (defined _ defines))
  · rw [defines]
    rintro _ ⟨⟩
    exact known
  · exact .define (.of_mem known (defined _ defines)) computes
      (wellTyped.mono (Context.Assigns.mono more))

/-- An assignment to a variable is well typed if the result is of its type. -/
lemma assignVar {v : Var} (known : c.typeOf v = .ok type) (computes : i.type? = some type)
    (wellTyped : i.WellTyped (c.Assigns Δ)) : (Emit.assignVar v i).Typed c Δ :=
  (assign type (r := .var v) (congrArg Except.toOption known) computes wellTyped).imp
    fun _ _ _ => trivial

/-- A copy to a variable is well typed if the value is of its type. -/
lemma copyTo {v : Var} {value : Value} (known : c.typeOf v = .ok type)
    (typed : value.HasType (c.Assigns Δ) type) : (Emit.copyTo v type value).Typed c Δ :=
  assignVar known rfl (.cast ⟨c.isScalar known, c.isScalar known, Iff.rfl, rfl⟩ typed)

/-- A phi whose result goes to a register with a type that is known in advance. -/
lemma phi {r : Local} {incomings : List (Value × Source Label)} (known : c.localType? r = some type)
    (typed : ∀ e ∈ incomings, e.1.HasType (c.Assigns Δ) type) :
    Types c Δ (fun Δ' _ => (Value.register r).HasType (c.Assigns Δ') type)
      (Emit.phi (.register r) type incomings) := by
  refine (line (l := .phi (.register r) type incomings) ?_ fun Δ' more defined => ?_).imp
    fun Δ' _ defined => .register (.of_mem known (defined _ rfl))
  · rintro _ ⟨⟩
    exact known
  · exact .phi (.of_mem known (defined _ rfl)) fun e mem =>
      (typed e mem).mono (Context.Assigns.mono more)

/-- A temporary yields the type of its instruction. -/
lemma define (computes : i.type? = some type) (wellTyped : i.WellTyped (c.Assigns Δ)) :
    (Emit.define i).Yields c Δ type := by
  refine temporary (l := fun v => .define v i) (fun r => ?_) fun Δ' n more defined => ?_
  · rw [Line.definition?, computes]
    rfl
  · exact .define defined computes (wellTyped.mono (Context.Assigns.mono more))

/-- A load yields the type that is loaded. -/
lemma load (type : IrType) (scalar : type.IsScalar) {address : Value}
    (typed : address.HasType (c.Assigns Δ) .ptr) :
    (Emit.define (.load type address)).Yields c Δ type :=
  define rfl (.load scalar typed)

/-- A store is well typed if its value is of the type and its address is one. -/
lemma store (type : IrType) (scalar : type.IsScalar) {value address : Value}
    (stored : value.HasType (c.Assigns Δ) type) (typed : address.HasType (c.Assigns Δ) .ptr) :
    (Emit.run (.store ⟨type, value⟩ address)).Typed c Δ := run (.store scalar stored typed)

/-- A phi whose result goes to a new temporary. -/
lemma freshPhi {incomings : List (Value × Source Label)}
    (typed : ∀ e ∈ incomings, e.1.HasType (c.Assigns Δ) type) :
    Emit.Yields c Δ type (do
      let v ← Emit.fresh
      Emit.phi v type incomings
      return v) :=
  temporary (l := fun v => .phi v type incomings) (fun _ => rfl) fun _ _ more defined =>
    .phi defined fun e mem => (typed e mem).mono (Context.Assigns.mono more)

/-- A call yields its result type. -/
lemma call (result : IrType) {callee : Symbol} {arguments : List Target.Operand}
    (typed : ∀ o ∈ arguments, o.WellTyped (c.Assigns Δ)) :
    Types c Δ (fun Δ' v => ∀ v', v = some v' → v'.HasType (c.Assigns Δ') result)
      (Emit.call result callee arguments) := by
  have wellTyped : (Instr.call result (.symbol callee) arguments).WellTyped (c.Assigns Δ) :=
    .call .symbol typed
  by_cases void : result = .void
  · rw [call_of_void void]
    refine (run wellTyped).andThen (pure fun _ _ v' eq => ?_)
    cases eq
  · rw [call_of_ne_void void]
    refine (define (i := .call ..) (if_neg void) wellTyped).bind fun v Δ' _ typed =>
      pure fun Δ'' more v' eq => ?_
    exact Option.some.inj eq ▸ typed.mono (Context.Assigns.mono more)

/-- A terminator is well typed. -/
lemma leave {t : Term Label} (wellTyped : t.WellTyped (c.Assigns Δ) c.result) :
    (Emit.leave t).Typed c Δ := by
  intro s typed sub
  suffices grows : s.Grows c { s with draft := s.draft.terminate t } from ⟨grows, trivial⟩
  have inside : (s.draft.terminate t).current < (s.draft.terminate t).blocks.length :=
    (List.length_modify ..).symm ▸ typed.inside
  rcases Draft.lines_terminate (t := t) typed.inside with same | lines
  · exact .of_perm typed rfl (.of_eq same) inside (Nat.le_refl _)
  · have definitions := Draft.definitions_perm (some (.leave t)) lines rfl
    refine .of_draft (some (.leave t)) typed rfl lines inside (Nat.le_refl _) ?_ ?_
    · rintro _ ⟨⟩
      exact .leave (wellTyped.mono (Context.Assigns.mono fun x mem =>
        definitions.mem_iff.2 (List.mem_append_right _ (sub mem))))
    · rintro _ ⟨⟩ x mem
      cases mem

end Lines

section Blocks

/-- A step that adds no line. -/
lemma move {f : Draft Label → α × Draft Label} (head : ∀ d, (f d).2.head = d.head)
    (lines : ∀ d, (f d).2.lines.Perm d.lines)
    (temporaries : ∀ d, d.nextTemporary = (f d).2.nextTemporary)
    (inside : ∀ d, d.current < d.blocks.length → (f d).2.current < (f d).2.blocks.length) :
    Types c Δ (fun _ _ => True) (onDraft f) := by
  intro s typed _
  have grows : s.Grows c { s with draft := (f s.draft).2 } :=
    .of_perm typed (head s.draft) (lines s.draft) (inside s.draft typed.inside)
      (Nat.le_of_eq (temporaries s.draft))
  exact ⟨grows, trivial⟩

/-- Asking for the current block defines nothing. -/
lemma here : Types c Δ (fun _ _ => True) Emit.here :=
  move (fun _ => rfl) (fun _ => .refl _) (fun _ => rfl) fun _ inside => inside

/-- An empty block at the end defines nothing. -/
lemma appendBlock (l : Label) : (Emit.appendBlock l).Typed c Δ :=
  move (fun _ => rfl) (fun _ => .of_eq (Draft.lines_appendBlock l)) (fun _ => rfl) fun d inside =>
    Nat.lt_of_lt_of_le inside (by simp [Draft.appendBlock])

/-- An empty block that is inserted defines nothing. -/
lemma insertBlock (l : Label) : (Emit.insertBlock l).Typed c Δ :=
  move (fun _ => rfl) (fun _ => Draft.lines_insertBlock l) (fun _ => rfl) fun _ =>
    Draft.current_insertBlock_lt l

/-- Splitting a block defines nothing. -/
lemma split (first : Label) : Types c Δ (fun _ _ => True) (Emit.split first) :=
  move (fun _ => rfl) (fun _ => Draft.lines_insertBlock _) (fun _ => rfl) fun _ =>
    Draft.current_insertBlock_lt _

/-- Going on at a block defines nothing. -/
lemma continueAt (l : Label) : (Emit.continueAt l).Typed c Δ := by
  have eq (d : Draft Label) :
      (d.goTo l).head = d.head ∧ d.nextTemporary = (d.goTo l).nextTemporary := by
    obtain ⟨i, eq⟩ := d.goTo_eq l
    rw [eq]
    exact ⟨rfl, rfl⟩
  exact move (fun d => (eq d).1) (fun _ => .of_eq (Draft.lines_goTo l)) (fun d => (eq d).2)
    fun _ inside => Draft.current_goTo_lt inside l

/-- Finishing a block defines nothing. -/
lemma finishBlock (id : BlockId) :
    Emit.Typed c Δ (Emit.onDraft fun d => ((), d.finishBlock id)) :=
  move (fun _ => rfl) (fun _ => .refl _) (fun _ => rfl) fun _ inside => inside

end Blocks

section Records

/-- A change of what is recorded beside the code. -/
lemma record {f : Progress → Progress} (draft : ∀ s, (f s).draft = s.draft)
    (exits : ∀ s, s.Typed c → Δ ⊆ s.draft.definitions → ∀ e ∈ (f s).exits, ∀ v, e.1 = some v →
      v.HasType (c.Assigns s.draft.definitions) c.result) :
    Emit.Typed c Δ (modify f) := by
  intro s typed sub
  have same := draft s
  have typed' : (f s).Typed c := by
    refine ⟨?_, ?_, ?_, ?_, ?_, ?_, ?_⟩ <;> rw [same]
    · exact typed.inside
    · exact typed.result
    · exact typed.parameters
    · exact typed.lines
    · exact exits s typed sub
    · exact typed.known
    · exact typed.unique
  exact ⟨⟨typed', same ▸ List.Subset.refl _⟩, trivial⟩

/-- Registering a call site defines nothing. -/
lemma register (site : CallSite) : Types c Δ (fun _ _ => True) (Emit.register site) :=
  fun _ typed _ => ⟨⟨⟨typed.inside, typed.result, typed.parameters, typed.lines, typed.exits,
    typed.known, typed.unique⟩, List.Subset.refl _⟩, trivial⟩

/-- A literal yields an address. -/
lemma literal (text : String) : (Emit.literal text).Yields c Δ .ptr :=
  fun _ typed _ => ⟨⟨⟨typed.inside, typed.result, typed.parameters, typed.lines, typed.exits,
    typed.known, typed.unique⟩, List.Subset.refl _⟩, .symbol⟩

/-- The values that have been collected for the shared exit are of the type of the result. -/
lemma get : Types c Δ (fun Δ' s => ∀ e ∈ s.exits, ∀ v, e.1 = some v →
    v.HasType (c.Assigns Δ') c.result) (MonadState.get : Emit Progress) :=
  fun _ typed _ => ⟨.refl typed, typed.exits⟩

end Records

end Emit.Types

end Lowering

end ObjectBackend
