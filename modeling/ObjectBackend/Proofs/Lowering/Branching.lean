import ObjectBackend.Proofs.Lowering.Arithmetic
import ObjectBackend.Proofs.Lowering.Terminators

/-!
# The code of branches

The code of a terminator runs to the end of its block and leaves it for the block that the
terminator goes to, or returns the value that the terminator returns (`terminator_ends`).
-/

namespace ObjectBackend.Lowering

open Target Emit Listing

variable {host : Host} {c : Context} {values : Values Address} {m : Memory} {r : Registers}
  {v : Var} {d : Scalar Address}

section Ends

variable {α : Type} {P : Assertion} {Q : α → Assertion} {R : Term Label → Registers → Memory → Prop}

/-- Code that leaves its block runs to its terminator, and then a condition holds. -/
def Emit.Ends (host : Host) (P : Assertion) (e : Emit Unit)
    (R : Term Label → Registers → Memory → Prop) : Prop :=
  ∀ ⦃s before current after⦄, Progress.At s before current after →
    ∃ x t, (e.next s).draft.Cursor (before ++ closed current (x ++ [.line (.leave t)]))
        (last current (x ++ [.line (.leave t)])) after ∧
      ∀ ⦃f σ⦄, Function.Carries f (blocks current (x ++ [.line (.leave t)])) →
        State.Behind σ current → P s.draft.nextTemporary σ.registers σ.memory →
        ∃ τ, f.Runs host σ τ ∧ τ.Behind (last current x) ∧ f.line? τ = some (.leave t) ∧
          R t τ.registers τ.memory

/-- A terminator ends the code where it stands. -/
lemma Emit.Ends.leave (t : Term Label) :
    Emit.Ends host (fun _ r m => R t r m) (Emit.leave t) R := by
  intro s before current after start
  refine ⟨[], t, ?_, fun f σ carries behind holds => ⟨σ, .refl, behind, ?_, holds⟩⟩
  · rw [List.nil_append, closed, last, closed, last, List.append_nil]
    exact start.cursor.terminate start.isOpen.isTerminated t
  · obtain ⟨_, _, at'⟩ := Carries.line? carries behind
    exact at'

/-- Code may be put in front of code that ends its block. -/
lemma Emit.Triple.ends {e : Emit α} {g : α → Emit Unit} (first : Triple host P e Q)
    (second : ∀ a, Emit.Ends host (Q a) (g a) R) : Emit.Ends host P (e >>= g) R := by
  intro s before current after start
  obtain ⟨x, moves, runs⟩ := first start
  obtain ⟨y, t, cursor, runs'⟩ := second (e.result s) moves
  refine ⟨x ++ y, t, ?_, fun f σ carries behind holds => ?_⟩
  · rw [List.append_assoc, closed_append, last_append, ← List.append_assoc]
    exact cursor
  · rw [List.append_assoc] at carries
    obtain ⟨carries, carries'⟩ := Carries.of_append carries
    obtain ⟨τ, steps, behind, holds⟩ := runs carries behind holds
    obtain ⟨υ, steps', behind, at', holds⟩ := runs' carries' behind holds
    rw [last_append]
    exact ⟨υ, steps.trans steps', behind, at', holds⟩

/-- Code that ends its block does so from a stronger condition, and with a weaker one. -/
lemma Emit.Ends.imp {P' : Assertion} {R' : Term Label → Registers → Memory → Prop} {e : Emit Unit}
    (ends : Emit.Ends host P e R) (before : ∀ n r m, P' n r m → P n r m)
    (after : ∀ t r m, R t r m → R' t r m) : Emit.Ends host P' e R' := by
  intro s _ _ _ start
  obtain ⟨x, t, cursor, runs⟩ := ends start
  refine ⟨x, t, cursor, fun f σ carries behind holds => ?_⟩
  obtain ⟨τ, steps, behind, at', holds⟩ := runs carries behind (before _ _ _ holds)
  exact ⟨τ, steps, behind, at', after _ _ _ holds⟩

end Ends

/-- A terminator of the emitted code does what a terminator of the body does. -/
inductive Agrees (c : Context) (values : Values Address) (r : Registers) :
    Terminator → Term Label → Prop where
  | goes {u : Terminator} {t : Term Label} {target : BlockId} :
    u.target? values = some target →
    t.target? r = some (.block target) →
    Agrees c values r u t
  | returns {v : Var} {d : Scalar Address} :
    values v = some d →
    Agrees c values r (.exit (some v)) (.ret (some ⟨c.result, .ofVar v⟩))

/-- At the end of a block, the registers hold what the variables do. -/
structure Finished (c : Context) (m₀ : Memory) (values : Values Address) (u : Terminator)
    (t : Term Label) (r : Registers) (m : Memory) : Prop where
  memory : m = m₀
  mirrors : Mirrors values r
  agrees : Agrees c values r u t

section Tests

/-- Numbers are compared with zero. -/
lemma holds?_number {condition : BranchCondition} (number : condition.isNullTest = false)
    (n : Int) :
    ∃ p, BranchCondition.holds?.ofNumber? n condition = some p ∧
      condition.predicate.holds? (.int n) (.int 0) = some p := by
  cases condition with
  | equal | notEqual => exact ⟨_, rfl, by simp [BranchCondition.predicate, Predicate.holds?]⟩
  | less | lessOrEqual | greater | greaterOrEqual => exact ⟨_, rfl, rfl⟩
  | null | notNull => cases number

/-- References are compared with null. -/
lemma holds?_reference {condition : BranchCondition} (unordered : condition.isOrdered = false)
    (object? : Option Address) :
    ∃ p, condition.holds? (.reference object?) = some p ∧
      condition.predicate.holds? (Scalar.reference object?).word .null = some p := by
  cases condition with
  | equal | notEqual | null | notNull => cases object? <;> exact ⟨_, rfl, rfl⟩
  | less | lessOrEqual | greater | greaterOrEqual => cases unordered

/-- A comparison of what two values are known to stand for yields its flag. -/
lemma icmp_runs {p : Predicate} {type : IrType} {a b : Value} {x y : Word} {q : Bool}
    (left : ∀ r : Registers, Mirrors values r → a.word? r = some x)
    (right : ∀ r : Registers, Mirrors values r → b.word? r = some y)
    (compare : p.holds? x y = some q) (m : Memory) :
    Triple host (Holding m values []) (Emit.define (.icmp p type a b))
      fun v => Holding m values [(v, .ofBool q)] := by
  apply Computes.define
  intro r _ mirrors
  simp [Instr.run?, left r mirrors, right r mirrors, compare]

/-- The comparison with zero or null is the test. -/
lemma branchTest_runs (typed : Typed c values) (condition : BranchCondition)
    (holds : values v = some d) :
    Except.Ensures (fun test => ∃ p, condition.holds? d = some p ∧ ∀ m,
        Triple host (Holding m values []) test fun a => Holding m values [(a, .ofBool p)])
      (branchTest c condition v) := by
  refine .bind fun type given => ?_
  obtain rfl : d.type = type := Except.ok.inj ((typed v d holds).symm.trans given)
  have operand : ∀ r : Registers, Mirrors values r → (Value.ofVar v).word? r = some d.word :=
    fun r mirrors => mirrors v d holds
  dsimp only
  split
  case isTrue => exact .error _
  case isFalse noNull =>
    split
    case isTrue => exact .error _
    case isFalse noReal =>
      split
      case isTrue => exact .error _
      case isFalse noOrder =>
        cases d with
        | int n =>
          obtain ⟨p, test, compare⟩ := holds?_number (by simpa [Scalar.type] using noNull) n.toInt
          exact .pure ⟨p, test, icmp_runs operand (fun _ _ => rfl) compare⟩
        | long n =>
          obtain ⟨p, test, compare⟩ := holds?_number (by simpa [Scalar.type] using noNull) n.toInt
          exact .pure ⟨p, test, icmp_runs operand (fun _ _ => rfl) compare⟩
        | reference object? =>
          obtain ⟨p, test, compare⟩ :=
            holds?_reference (by simpa [Scalar.type] using noOrder) object?
          exact .pure ⟨p, test, icmp_runs operand (fun _ _ => rfl) compare⟩
        | float | double => exact absurd rfl noReal

/-- The comparison of two variables is the test. -/
lemma binaryBranchTest_runs (typed : Typed c values) (condition : BinaryBranchCondition)
    {first second : Var} {x y : Scalar Address} (left : values first = some x)
    (right : values second = some y) :
    Except.Ensures (fun test => ∃ p, condition.holds? x y = some p ∧ ∀ m,
        Triple host (Holding m values []) test fun a => Holding m values [(a, .ofBool p)])
      (binaryBranchTest c condition first second) := by
  refine .bind fun type given => .bind fun _ ofSecond => ?_
  obtain rfl : x.type = type := Except.ok.inj ((typed first x left).symm.trans given)
  have same := typed_eq typed right ofSecond
  have operands : ∀ {p : Bool}, condition.predicate.holds? x.word y.word = some p → ∀ m,
      Triple host (Holding m values [])
        (Emit.define (.icmp condition.predicate x.type (.ofVar first) (.ofVar second)))
        fun a => Holding m values [(a, .ofBool p)] :=
    icmp_runs (fun r mirrors => mirrors first x left) (fun r mirrors => mirrors second y right)
  -- both operands have the same type, so only comparisons that suit it are left
  have compare : (if condition.isReference = true then x.type = .ptr else x.type.isInteger = true) →
      ∃ p, condition.holds? x y = some p ∧ condition.predicate.holds? x.word y.word = some p := by
    intro fits
    cases x with
    | int a =>
      obtain ⟨b, rfl⟩ := Scalar.exists_int same
      cases condition with
      | equal | notEqual =>
        exact ⟨_, rfl, by
          simp [BinaryBranchCondition.predicate, Predicate.holds?, Scalar.word, BitVec.toInt_inj]⟩
      | referenceEqual | referenceNotEqual => cases fits
    | long a =>
      obtain ⟨b, rfl⟩ := Scalar.exists_long same
      cases condition with
      | equal | notEqual =>
        exact ⟨_, rfl, by
          simp [BinaryBranchCondition.predicate, Predicate.holds?, Scalar.word, BitVec.toInt_inj]⟩
      | referenceEqual | referenceNotEqual => cases fits
    | reference a =>
      obtain ⟨b, rfl⟩ := Scalar.exists_reference same
      cases condition with
      | equal | notEqual => cases fits
      | referenceEqual | referenceNotEqual =>
        cases a <;> cases b <;>
          exact ⟨_, rfl, by simp [BinaryBranchCondition.predicate, Predicate.holds?, Scalar.word]⟩
    | float | double => cases condition <;> cases fits
  dsimp only
  split
  case isTrue reference =>
    split
    case isTrue fits =>
      rw [if_pos reference] at compare
      obtain ⟨p, test, compare⟩ := compare fits
      exact .pure ⟨p, test, operands compare⟩
    case isFalse => exact .error _
  case isFalse number =>
    split
    case isTrue fits =>
      rw [if_neg number] at compare
      obtain ⟨p, test, compare⟩ := compare fits
      exact .pure ⟨p, test, operands compare⟩
    case isFalse => exact .error _

end Tests

/-- Code leaves its block for where the test leads. -/
lemma test_ends {u : Terminator} {test : Emit Value} {p : Bool} {consequent alternative : BlockId}
    (runs : ∀ m, Triple host (Holding m values []) test fun a => Holding m values [(a, .ofBool p)])
    (goes : u.target? values = some (if p then consequent else alternative)) (m : Memory) :
    Emit.Ends host (Holding m values [])
      (test >>= fun a => .leave (.condBr a (.block consequent) (.block alternative)))
      (Finished c m values u) := by
  apply (runs m).ends
  intro a
  refine (Ends.leave _).imp (fun n r m' holding => ?_) (fun _ _ _ finished => finished)
  refine ⟨holding.knows.memory, holding.mirrors, .goes goes ?_⟩
  have word : a.word? r = some (.ofBool p) := holding.knows.words _ (List.mem_singleton_self _)
  cases p with
  | _ => simp [Term.target?, word, Word.ofBool, Word.int?]

/-- A switch goes to the target of the first key that equals the number. -/
lemma lookup_cases (table : List (Int32 × BlockId)) (otherwise : BlockId) (n : BitVec 32) :
    ((table.map fun (key, target) => (key.toInt, Label.block target)).lookup n.toInt).getD
        (.block otherwise) =
      .block (((table.find? (·.1.toBitVec = n)).map (·.2)).getD otherwise) := by
  induction table with
  | nil => rfl
  | cons e table ih =>
    rw [List.map_cons, List.lookup_cons, List.find?_cons]
    by_cases eq : e.1.toBitVec = n
    · have same : (n.toInt == e.1.toInt) = true := beq_iff_eq.2 (congrArg BitVec.toInt eq.symm)
      rw [same, decide_eq_true eq]
      rfl
    · have other : (n.toInt == e.1.toInt) = false :=
        beq_eq_false_iff_ne.2 fun same => eq (BitVec.toInt_inj.1 same.symm)
      rw [other, decide_eq_false eq]
      exact ih

/-- The code of a terminator does what the terminator does. -/
lemma terminator_ends {id : BlockId} {b : BasicBlock} (typed : Typed c values)
    (arithmetic : b.terminator.isArithmetic = true) (frameless : c.frameSize? = none)
    (reads : ∀ v ∈ b.terminator.used, ∃ d, values v = some d) :
    Except.Ensures (fun code => ∀ m, Emit.Ends host (Holding m values []) code
        (Finished c m values b.terminator))
      (terminator c id b) := by
  rw [terminator.eq_def]
  -- most forms leave at once, with the registers as they are
  have leaves : ∀ {t : Term Label} {m : Memory},
      (∀ r, Mirrors values r → Agrees c values r b.terminator t) →
      Emit.Ends host (Holding m values []) (.leave t) (Finished c m values b.terminator) := by
    intro t m agrees
    refine (Ends.leave _).imp (fun n r m' holding => ?_) (fun _ _ _ finished => finished)
    exact ⟨holding.knows.memory, holding.mirrors, agrees r holding.mirrors⟩
  generalize b.terminator = u at *
  cases u with
  | jump target => exact .pure fun m => leaves fun _ _ => .goes rfl rfl
  | branch condition operand consequent alternative =>
    obtain ⟨d, holds⟩ := reads operand (List.mem_singleton_self _)
    refine .bind fun test given => .pure ?_
    obtain ⟨p, passes, runs⟩ := branchTest_runs typed condition holds test given
    refine test_ends runs ?_
    rw [Terminator.target?, holds]
    change (do return if ← condition.holds? d then consequent else alternative) = _
    rw [passes]
    rfl
  | binaryBranch condition first second consequent alternative =>
    obtain ⟨x, left⟩ := reads first (List.mem_cons_self ..)
    obtain ⟨y, right⟩ := reads second (List.mem_cons_of_mem _ (List.mem_singleton_self _))
    refine .bind fun test given => .pure ?_
    obtain ⟨p, passes, runs⟩ := binaryBranchTest_runs typed condition left right test given
    refine test_ends runs ?_
    rw [Terminator.target?, left, right]
    change (do return if ← condition.holds? x y then consequent else alternative) = _
    rw [passes]
    rfl
  | switch condition table otherwise =>
    obtain ⟨d, holds⟩ := reads condition (List.mem_singleton_self _)
    refine .bind fun _ checked => .pure fun m => leaves fun r mirrors => ?_
    obtain ⟨n, rfl⟩ := Scalar.exists_int (typed_eq typed holds checked)
    have goes : (Terminator.switch condition table otherwise).target? values =
        some (((table.find? (·.1.toBitVec = n)).map (·.2)).getD otherwise) := by
      rw [Terminator.target?, holds]
      rfl
    refine .goes goes ?_
    have word : (Value.ofVar condition).word? r = some (.int n.toInt) := mirrors _ _ holds
    rw [Term.target?, word, ← lookup_cases]
    rfl
  | exit value =>
    cases value with
    | none => cases arithmetic
    | some v =>
      obtain ⟨d, holds⟩ := reads v (List.mem_singleton_self _)
      dsimp only [exit]
      split
      · exact .error _
      · refine .bind fun _ checked => .pure fun m => ?_
        rw [returnValue, frameless]
        exact leaves fun _ _ => .returns holds
  | raise exception => cases arithmetic
  | unreachable => cases arithmetic

end ObjectBackend.Lowering
