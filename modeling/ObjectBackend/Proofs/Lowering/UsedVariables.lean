import ObjectBackend.Proofs.Lowering.CodePaths
import ObjectBackend.Proofs.Lowering.Placement

/-!
# The variables that code reads and writes

Which variables an instruction writes and reads is told twice: by `Instruction.defined` and
`Instruction.used`, which the analysis goes by, and by the operands of its code. The code reads no
other variable and writes no other one, and on every way through it the result is written once, and
not read before (`instruction_accesses`). Apart from that there are only the stores of live
references in front of a call.

`Emit.Reads` says of code that it reads some variables and writes none, `Emit.Accesses` that it
writes one of them on the way.
-/

namespace ObjectBackend

namespace Target

/-- The variable whose register a value is. -/
def Value.vars : Value → List Var
  | .register (.var v) => [v]
  | _ => []

/-- The variables whose registers are operands of an instruction. -/
def Instr.reads : Instr → List Var
  | binary _ _ lhs rhs | icmp _ _ lhs rhs | fcmp _ _ lhs rhs => lhs.vars ++ rhs.vars
  | fneg _ value => value.vars
  | cast _ operand _ => operand.value.vars
  | load _ address => address.vars
  | store operand address => operand.value.vars ++ address.vars
  | element _ address indices => address.vars ++ indices.flatMap Value.vars
  | call _ callee arguments => callee.vars ++ arguments.flatMap fun o => o.value.vars
  | alloca _ => []
  | select condition _ consequent alternative =>
    condition.vars ++ consequent.vars ++ alternative.vars

/-- The variables whose registers are operands of a terminator. -/
def Term.reads {ℓ : Type} : Term ℓ → List Var
  | condBr condition _ _ => condition.vars
  | switch _ value _ _ => value.vars
  | ret operand => operand.toList.flatMap fun o => o.value.vars
  | br _ | unreachable => []

namespace Line

variable {ℓ σ : Type}

/-- The variables whose registers are operands of a line. -/
def reads : Line ℓ σ → List Var
  | comment _ => []
  | run i | define _ i => i.reads
  | phi _ _ incomings => incomings.flatMap fun e => e.1.vars
  | leave t => t.reads

/-- The variable whose register a line defines. -/
def written : Line ℓ σ → List Var
  | define receiver _ | phi receiver _ _ => receiver.vars
  | _ => []

/-- A line reads only some variables, and defines none. -/
structure IsConfined (used : List Var) (l : Line ℓ σ) : Prop where
  reads : l.reads ⊆ used
  written : l.written = []

/-- Lines read only some variables. If there is a result, one of the lines defines it and no other
line defines anything; the lines behind it may read it, too. -/
def Accesses (used : List Var) : Option Var → List (Line ℓ σ) → Prop
  | none, lines => ∀ l ∈ lines, l.IsConfined used
  | some v, lines => ∃ before i after, lines = before ++ define (.ofVar v) i :: after ∧
      (∀ l ∈ before, l.IsConfined used) ∧ i.reads ⊆ used ∧ ∀ l ∈ after, l.IsConfined (v :: used)

end Line

/-- The register of a variable reads it. -/
@[simp]
lemma Value.vars_ofVar (v : Var) : (Value.ofVar v).vars = [v] := rfl

/-- A temporary reads no variable. -/
@[simp]
lemma Value.vars_temporary (n : Nat) : (Value.register (.temporary n)).vars = [] := rfl

/-- An integer reads no variable. -/
@[simp]
lemma Value.vars_int (n : Int) : (Value.int n).vars = [] := rfl

/-- A symbol reads no variable. -/
@[simp]
lemma Value.vars_symbol (s : Symbol) : (Value.symbol s).vars = [] := rfl

/-- The null address reads no variable. -/
@[simp]
lemma Value.vars_null : Value.null.vars = [] := rfl

/-- Indices that are numbers name no variable. -/
lemma Instr.reads_fieldOf (base : IrType) (address : Value) (indices : List Int) :
    (Instr.fieldOf base address indices).reads = address.vars := by
  have none : (indices.map Value.int).flatMap Value.vars = [] := by
    rw [List.flatMap_eq_nil_iff]
    intro _ mem
    obtain ⟨_, _, rfl⟩ := List.mem_map.1 mem
    rfl
  rw [Instr.fieldOf, Instr.reads, none, List.append_nil]

namespace Line

variable {ℓ σ : Type} {used : List Var} {l : Line ℓ σ}

/-- A line that reads only some variables reads only more of them. -/
lemma IsConfined.mono {used' : List Var} (subset : used ⊆ used') (confined : l.IsConfined used) :
    l.IsConfined used' :=
  ⟨List.Subset.trans confined.reads subset, confined.written⟩

/-- Lines that define nothing may follow. -/
lemma Accesses.append {v? : Option Var} {lines others : List (Line ℓ σ)}
    (accesses : Accesses used v? lines) (confined : ∀ l ∈ others, l.IsConfined []) :
    Accesses used v? (lines ++ others) := by
  cases v? with
  | none =>
    exact List.forall_mem_append.2
      ⟨accesses, fun l mem => (confined l mem).mono (List.nil_subset _)⟩
  | some v =>
    obtain ⟨before, i, after, rfl, inside, reads, behind⟩ := accesses
    refine ⟨before, i, after ++ others, by simp, inside, reads, ?_⟩
    exact List.forall_mem_append.2
      ⟨behind, fun l mem => (confined l mem).mono (List.nil_subset _)⟩

end Line

end Target

namespace Lowering

open Target Listing

namespace Progress

variable {s s' s'' : Progress} {x y : Listing} {used : List Var}

/-- A region that no exception leaves has been added to the current block. -/
structure Continues (s : Progress) (x : Listing) (s' : Progress) : Prop where
  moves : ∀ {before current after}, s.At before current after →
    s'.At (before ++ closed current x) (last current x) after
  region : Region s.draft.currentLabel s.draft.nextSplit x s'.draft.currentLabel
    s'.draft.nextSplit []

namespace Continues

/-- Code continues one after the other. -/
lemma append (h : s.Continues x s') (h' : s'.Continues y s'') : s.Continues (x ++ y) s'' where
  moves := fun start => by
    rw [closed_append, last_append, ← List.append_assoc]
    exact h'.moves (h.moves start)
  region := h.region.append h'.region

/-- Plain lines continue the code. -/
lemma of_writes {ls : List DraftLine} {before after : List DraftBlock} {current : DraftBlock}
    (writes : s.Writes ls s') (plain : ∀ l ∈ ls, l.isPlain = true)
    (start : s.At before current after) : s.Continues (ofLines ls) s' where
  moves := fun start => by
    rw [closed_ofLines, List.append_nil, last_ofLines]
    exact writes.moves start
  region := by
    rw [start.currentLabel, (writes.moves start).currentLabel, writes.splits]
    exact .ofLines _ _ plain

end Continues

/-- Code has been added that reads only some variables. It either defines none, or one of its lines,
which every way goes through, defines the result, and the lines behind it may read it, too. -/
inductive Accesses (used : List Var) : Option Var → Progress → Listing → Progress → Prop where
  | none {s s' : Progress} {x : Listing} :
    s.Continues x s' →
    (∀ l ∈ lines x, l.IsConfined used) →
    Accesses used none s x s'
  | some {v : Var} {i : Instr} {s s₁ s₂ s' : Progress} {x y : Listing} :
    s.Continues x s₁ →
    (∀ l ∈ lines x, l.IsConfined used) →
    s₁.Continues [.line (.define (.ofVar v) i)] s₂ →
    i.reads ⊆ used →
    s₂.Continues y s' →
    (∀ l ∈ lines y, l.IsConfined (v :: used)) →
    Accesses used (some v) s (x ++ .line (.define (.ofVar v) i) :: y) s'

namespace Accesses

variable {v? : Option Var}

/-- Code that accesses variables continues what has been emitted. -/
lemma continues (accesses : Accesses used v? s x s') : s.Continues x s' := by
  cases accesses with
  | none continues _ => exact continues
  | some first _ defines _ second _ => exact first.append (defines.append second)

/-- The lines of such code, whatever way is taken. -/
lemma forall_mem (accesses : Accesses used v? s x s') :
    ∀ l ∈ lines x, l.reads ⊆ v?.toList ++ used ∧ l.written ⊆ v?.toList := by
  cases accesses with
  | none _ confined =>
    exact fun l mem => ⟨(confined l mem).reads, List.subset_nil.2 (confined l mem).written⟩
  | some _ confined _ reads _ confined' =>
    rw [lines_append]
    refine List.forall_mem_append.2 ⟨fun l mem => ?_, List.forall_mem_cons.2 ⟨?_, fun l mem => ?_⟩⟩
    · exact ⟨List.subset_append_of_subset_right _ (confined l mem).reads,
        (confined l mem).written ▸ List.nil_subset _⟩
    · exact ⟨List.subset_append_of_subset_right _ reads, List.Subset.refl _⟩
    · exact ⟨(confined' l mem).reads, (confined' l mem).written ▸ List.nil_subset _⟩

/-- What is met on a way through such code. -/
lemma of_path {whole before after : Listing} {ls : List DraftLine}
    (accesses : Accesses used v? s x s') (nodup : (labels whole).Nodup)
    (here : whole = before ++ (x ++ after)) (path : Path whole (x ++ after) ls) :
    ∃ ms ls', ls = ms ++ ls' ∧ Line.Accesses used v? ms ∧ Path whole after ls' := by
  cases accesses with
  | none continues confined =>
    obtain ⟨ms, ls', rfl, within, behind⟩ := continues.region.exists_of_path nodup here path
    exact ⟨ms, ls', rfl, fun l mem => confined l (within mem), behind⟩
  | @some v i _ _ _ _ x y first confined _ reads second confined' =>
    rw [List.append_assoc] at here path
    obtain ⟨ms, ls₁, rfl, within, behind⟩ := first.region.exists_of_path nodup here path
    obtain ⟨ls₂, rfl, behind₂⟩ := behind.of_stay rfl
    have here' : whole = (before ++ x ++ [.line (.define (.ofVar v) i)]) ++ (y ++ after) := by
      simpa using here
    obtain ⟨ms', ls', rfl, within', behind'⟩ :=
      second.region.exists_of_path nodup here' behind₂
    exact ⟨ms ++ .define (.ofVar v) i :: ms', ls', by simp,
      ⟨ms, i, ms', rfl, fun l mem => confined l (within mem), reads,
        fun l mem => confined' l (within' mem)⟩, behind'⟩

end Accesses

end Progress

namespace Emit

variable {α β : Type} {used : List Var} {e : Emit α} {f : α → Emit β} {Q : α → Prop}
  {R : β → Prop}

/-- Code that reads only some variables and defines none, with what is known of its result. -/
def Reads (used : List Var) (e : Emit α) (Q : α → Prop) : Prop :=
  ∀ ⦃s before current after⦄, Progress.At s before current after →
    ∃ x, s.Continues x (e.next s) ∧ (∀ l ∈ lines x, l.IsConfined used) ∧ Q (e.result s)

/-- Code for a value that may be one of the variables it reads. -/
abbrev Within (used : List Var) (e : Emit Value) : Prop := e.Reads used fun v => v.vars ⊆ used

/-- Code that reads only some variables, and that defines the result, if there is one. -/
def Accesses (used : List Var) (v? : Option Var) (e : Emit Unit) : Prop :=
  ∀ ⦃s before current after⦄, Progress.At s before current after →
    ∃ x, Progress.Accesses used v? s x (e.next s)

/-- More variables may be named. -/
lemma Within.mono {e : Emit Value} {used' : List Var} (within : e.Within used)
    (subset : used ⊆ used') : e.Within used' := by
  intro s before current after start
  obtain ⟨x, continues, confined, names⟩ := within start
  exact ⟨x, continues, fun l mem => (confined l mem).mono subset, List.Subset.trans names subset⟩

namespace Reads

/-- Code reads some variables only, one after the other. -/
lemma bind (first : e.Reads used Q) (second : ∀ a, Q a → (f a).Reads used R) :
    (e >>= f).Reads used R := by
  intro s before current after start
  obtain ⟨x, continues, confined, holds⟩ := first start
  obtain ⟨y, continues', confined', holds'⟩ := second _ holds (continues.moves start)
  refine ⟨x ++ y, continues.append continues', ?_, holds'⟩
  rw [lines_append]
  exact List.forall_mem_append.2 ⟨confined, confined'⟩

/-- Code that writes lines reads what they read. -/
lemma of_writes (ls : Progress → List DraftLine)
    (writes : ∀ s : Progress, s.Writes (ls s) (e.next s))
    (plain : ∀ s, ∀ l ∈ ls s, l.isPlain = true) (confined : ∀ s, ∀ l ∈ ls s, l.IsConfined used)
    (holds : ∀ s, Q (e.result s)) : e.Reads used Q := by
  intro s before current after start
  refine ⟨ofLines (ls s), .of_writes (writes s) (plain s) start, ?_, holds s⟩
  rw [lines_ofLines]
  exact confined s

/-- A value that is at hand reads nothing. -/
lemma pure {a : α} (holds : Q a) : (Pure.pure a : Emit α).Reads used Q :=
  of_writes (fun _ => []) (fun s => .refl s) (fun _ => List.forall_mem_nil _)
    (fun _ => List.forall_mem_nil _) fun _ => holds

/-- An instruction without result reads its operands. -/
lemma run {i : Instr} (reads : i.reads ⊆ used) : (Emit.run i).Reads used fun _ => True :=
  of_writes (fun _ => [.run i]) (fun s => .line s rfl)
    (fun _ => List.forall_mem_singleton.2 rfl)
    (fun _ => List.forall_mem_singleton.2 ⟨reads, rfl⟩) fun _ => trivial

/-- A temporary reads the operands of its instruction. -/
lemma define {i : Instr} (reads : i.reads ⊆ used) : (Emit.define i).Within used :=
  of_writes (fun s => [.define (.register (.temporary s.draft.nextTemporary)) i])
    (fun s => .define s i) (fun _ => List.forall_mem_singleton.2 rfl)
    (fun _ => List.forall_mem_singleton.2 ⟨reads, rfl⟩) fun _ => List.nil_subset _

/-- A literal reads nothing. -/
lemma literal (text : String) : (Emit.literal text).Within used :=
  of_writes (fun _ => []) (fun _ => .of_blocks rfl rfl rfl ⟨rfl, rfl, rfl, rfl, rfl, rfl⟩)
    (fun _ => List.forall_mem_nil _) (fun _ => List.forall_mem_nil _) fun _ => List.nil_subset _

/-- A fold reads what its steps read. -/
lemma foldlM {γ δ : Type} {g : γ → δ → Emit γ} {P : γ → Prop}
    (step : ∀ c d, P c → (g c d).Reads used P) (ds : List δ) {c : γ} (holds : P c) :
    (ds.foldlM g c).Reads used P := by
  induction ds generalizing c with
  | nil => exact pure holds
  | cons d ds ih =>
    rw [List.foldlM_cons]
    exact (step c d holds).bind fun _ holds' => ih holds'

/-- A test that may be skipped: its result comes through a phi. -/
lemma testOrSkip {branch : Label → Label → Term Label} {test : Emit Value}
    (perm : ∀ done check, (branch done check).targets.Perm [done, check])
    (reads : ∀ done check, (branch done check).reads ⊆ used) (tests : test.Within used) :
    (Lowering.testOrSkip branch test).Within used := by
  intro s before current after start
  let ℓ := s.draft.currentLabel
  let done : Label := .split ℓ s.draft.nextSplit
  let check : Label := .split ℓ (s.draft.nextSplit + 1)
  let s₁ := (enterTest branch).next s
  let s₂ := test.next s₁
  let s' := (Lowering.testOrSkip branch test).next s
  obtain ⟨x, continues, confined, within⟩ := tests (start.enterTest branch)
  let code := skippable ℓ s₂.draft.currentLabel s.draft.nextSplit (branch done check) x
    (.register (.temporary s₂.draft.nextTemporary)) (.bool false) (test.result s₁)
  have moves : ∀ {before current after}, s.At before current after →
      s'.At (before ++ closed current code) (last current code) after := fun start =>
    (continues.moves (start.enterTest branch)).skippable
  refine ⟨code, ⟨moves, ?region⟩, ?confined, ?result⟩
  case region =>
    have inside := continues.region
    rw [(start.enterTest branch).currentLabel, Progress.nextSplit_enterTest] at inside
    have label : s'.draft.currentLabel = done := by
      rw [(moves start).currentLabel, last_skippable]
    have splits : s'.draft.nextSplit = s₂.draft.nextSplit := Progress.nextSplit_rejoin s₂ _ _ _
    rw [label, splits]
    exact .test _ _ _ (perm done check) inside
  case confined =>
    rw [lines_skippable]
    refine List.forall_mem_cons.2 ⟨⟨reads done check, rfl⟩, List.forall_mem_append.2 ⟨confined, ?_⟩⟩
    refine List.forall_mem_cons.2 ⟨⟨List.nil_subset _, rfl⟩, List.forall_mem_singleton.2 ⟨?_, rfl⟩⟩
    simpa [Line.reads, Value.vars] using within
  case result =>
    change ((rejoin ℓ done (test.result s₁)).result s₂).vars ⊆ used
    rw [Progress.result_rejoin]
    exact List.nil_subset _

end Reads

namespace Accesses

variable {v? : Option Var} {g : Unit → Emit Unit}

/-- Code without result accesses what it reads. -/
lemma of_reads {e : Emit Unit} (reads : e.Reads used fun _ => True) : Accesses used none e := by
  intro s before current after start
  obtain ⟨x, continues, confined, _⟩ := reads start
  exact ⟨x, .none continues confined⟩

/-- What is computed first may be read later. -/
lemma bind {f : α → Emit Unit} (first : e.Reads used Q)
    (second : ∀ a, Q a → Accesses used v? (f a)) : Accesses used v? (e >>= f) := by
  intro s before current after start
  obtain ⟨x, continues, confined, holds⟩ := first start
  obtain ⟨y, accesses⟩ := second _ holds (continues.moves start)
  refine ⟨x ++ y, ?_⟩
  cases accesses with
  | none continues' confined' =>
    refine .none (continues.append continues') ?_
    rw [lines_append]
    exact List.forall_mem_append.2 ⟨confined, confined'⟩
  | some continues' confined' defines reads behind confined'' =>
    rw [← List.append_assoc]
    refine .some (continues.append continues') ?_ defines reads behind confined''
    rw [lines_append]
    exact List.forall_mem_append.2 ⟨confined, confined'⟩

/-- The result may be read once it is there. -/
lemma assign_bind {v : Var} {i : Instr} (reads : i.reads ⊆ used)
    (second : ∀ a, (g a).Reads (v :: used) fun _ => True) :
    Accesses used (some v) (Emit.assignVar v i >>= g) := by
  intro s before current after start
  have writes : s.Writes [.define (.ofVar v) i] ((Emit.assignVar v i).next s) := .line s rfl
  obtain ⟨y, continues, confined, _⟩ := second () (writes.moves start)
  have before' : s.Continues [] s :=
    .of_writes (.refl s) (List.forall_mem_nil _) start
  exact ⟨[] ++ _ :: y, .some before' (List.forall_mem_nil _)
    (.of_writes writes (List.forall_mem_singleton.2 rfl) start) reads continues confined⟩

/-- An assignment to a variable reads the operands and defines the variable. -/
lemma assign {v : Var} {i : Instr} (reads : i.reads ⊆ used) :
    Accesses used (some v) (Emit.assignVar v i) :=
  assign_bind (g := fun _ => Pure.pure ()) reads fun _ => .pure trivial

/-- A copy reads its value and defines the variable. -/
lemma copyTo {v : Var} {type : IrType} {value : Value} (reads : value.vars ⊆ used) :
    Accesses used (some v) (Emit.copyTo v type value) := assign reads

end Accesses

end Emit

end Lowering

end ObjectBackend
