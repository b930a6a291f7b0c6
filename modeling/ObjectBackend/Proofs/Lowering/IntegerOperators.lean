import ObjectBackend.Proofs.Lowering.Placement

/-!
# Operators on integers

What the code of an operator on `int` or `long` does, for all operands with which the operator is
defined. It runs to its end and leaves the result that wraps around (`BinaryOperator.wrapped?`) in
the register of the receiver, with one exception. The quotient of the least number and minus one is
beyond the range of their type, and neither the code of a quotient nor that of a remainder takes
care of it: it is stuck at its one line (`Lowering.operator_runs_iff`).
-/

namespace ObjectBackend

open Target

variable {ρ : Type} {w : Nat}

namespace BinaryOperator

/-- Whether an operator divides. -/
def isDivision : BinaryOperator → Bool
  | divide | modulo => true
  | _ => false

/-- The result of a division that rounds towards zero, as far as the bits reach. Nothing can be
divided by zero. -/
def divided? (a b : BitVec w) : BinaryOperator → Option (BitVec w)
  | divide => if b = 0 then none else some (.ofInt w (a.toInt.tdiv b.toInt))
  | modulo => if b = 0 then none else some (.ofInt w (a.toInt.tmod b.toInt))
  | _ => none

/-- The result of an operator on integers, divisions included. -/
def wrapped? (operator : BinaryOperator) (operand : Numeric) (x y : Scalar ρ) :
    Option (Scalar ρ) :=
  if operator.isDivision then
    match operand, x, y with
    | .int, .int a, .int b => (operator.divided? a b).map .int
    | .long, .long a, .long b => (operator.divided? a b).map .long
    | _, _, _ => none
  else operator.result? operand x y

end BinaryOperator

namespace Scalar

/-- A number is zero. -/
def IsZero (x : Scalar ρ) : Prop := x = .int 0 ∨ x = .long 0

/-- The quotient of two numbers is beyond the range of their type. -/
inductive QuotientOverflows : Scalar ρ → Scalar ρ → Prop where
  | int : QuotientOverflows (.int (.intMin 32)) (.int (-1))
  | long : QuotientOverflows (.long (.intMin 64)) (.long (-1))

end Scalar

/-- An operator divides by zero. -/
def BinaryOperator.DividesByZero (operator : BinaryOperator) (y : Scalar ρ) : Prop :=
  operator.isDivision = true ∧ y.IsZero

/-- An operator divides two numbers whose quotient is beyond the range of their type. -/
def BinaryOperator.Overflows (operator : BinaryOperator) (x y : Scalar ρ) : Prop :=
  operator.isDivision = true ∧ x.QuotientOverflows y

namespace Lowering

open Emit Listing

section Numbers

variable {operator : BinaryOperator} {op : BinaryOp} {x y : BitVec w}
  {operand : Numeric} {make : BitVec w → Scalar Address}

/-- The truncated quotient of signed numbers is that of their bits. -/
lemma ofInt_tdiv (x y : BitVec w) : BitVec.ofInt w (x.toInt.tdiv y.toInt) = x.sdiv y := by
  apply BitVec.eq_of_toInt_eq
  rw [BitVec.toInt_ofInt, BitVec.toInt_sdiv]

/-- The truncated remainder of signed numbers is that of their bits. -/
lemma ofInt_tmod (x y : BitVec w) : BitVec.ofInt w (x.toInt.tmod y.toInt) = x.srem y := by
  rw [← BitVec.toInt_srem, BitVec.ofInt_toInt]

/-- A division that does not overflow is defined. -/
lemma bits?_eq_of_isDivision (is : operator.integerOp? = some op)
    (division : operator.isDivision = true) (nonzero : y ≠ 0) (fits : ¬(x = .intMin w ∧ y = -1)) :
    ∃ z, op.bits? x y = some z ∧ operator.divided? x y = some z := by
  have positive : ¬y = 0#w := nonzero
  have defined : ¬(y = 0 || x = .intMin w && y = -1) = true := by simpa [positive] using fits
  cases operator with
  | divide =>
    obtain rfl := Option.some.inj is
    exact ⟨x.sdiv y, if_neg defined, (if_neg nonzero).trans (congrArg some (ofInt_tdiv x y))⟩
  | modulo =>
    obtain rfl := Option.some.inj is
    exact ⟨x.srem y, if_neg defined, (if_neg nonzero).trans (congrArg some (ofInt_tmod x y))⟩
  | _ => cases division

/-- A division that overflows is not. -/
lemma bits?_eq_none_of_isDivision (is : operator.integerOp? = some op)
    (division : operator.isDivision = true) : op.bits? (.intMin w) (-1) = none := by
  have overflows : ((-1 : BitVec w) = 0 || BitVec.intMin w = .intMin w && (-1 : BitVec w) = -1) =
      true := by simp
  cases operator with
  | divide | modulo =>
    obtain rfl := Option.some.inj is
    exact if_pos overflows
  | _ => cases division

namespace IsInteger

/-- An integer that is not zero has a bit. -/
lemma ne_zero (is : IsInteger operand w make) (nonzero : ¬ (make y).IsZero) : y ≠ 0 := by
  rintro rfl
  cases is with
  | int => exact nonzero (.inl rfl)
  | long => exact nonzero (.inr rfl)

/-- A quotient overflows just if the least number is divided by minus one. -/
lemma overflows_iff (is : IsInteger operand w make) :
    (make x).QuotientOverflows (make y) ↔ x = .intMin w ∧ y = -1 := by
  constructor
  · intro overflows
    cases is with
    | _ =>
      cases overflows
      exact ⟨rfl, rfl⟩
  · rintro ⟨rfl, rfl⟩
    cases is with
    | int => exact .int
    | long => exact .long

/-- Where the division of bits has a result, that is the quotient that wraps around. -/
lemma wrapped?_divided (is : IsInteger operand w make) (division : operator.isDivision = true)
    {z : BitVec w} (divided : operator.divided? x y = some z) :
    operator.wrapped? operand (make x) (make y) = some (make z) := by
  cases is with
  | int => exact (if_pos division).trans (congrArg (Option.map Scalar.int) divided)
  | long => exact (if_pos division).trans (congrArg (Option.map Scalar.long) divided)

end IsInteger

end Numbers

section Operators

variable {host : Host} {c : Context} {values : Values Address} {receiver first second : Var}
  {operator : BinaryOperator} {operand : Numeric} {x y : Scalar Address}

/-- The code of a division is one operation, and its operands are integers of one type. -/
lemma division_spec (typed : Typed c values) (left : values first = some x)
    (right : values second = some y) (integer : operand.isFloating = false)
    (division : operator.isDivision = true) {code : Emit Unit}
    (given : arithmetic c operator receiver first second operand = .ok code) :
    ∃ w, ∃ make : BitVec w → Scalar Address, ∃ op n k, IsInteger operand w make ∧
      operator.integerOp? = some op ∧ x = make n ∧ y = make k ∧
      c.typeOf receiver = .ok operand.irType ∧
      code = .assignVar receiver (.binary op operand.irType (.ofVar first) (.ofVar second)) := by
  have noShift : operator.isShift = false := by cases operator <;> first | rfl | cases division
  obtain ⟨op, real | ⟨_, intended⟩, ofFirst, ofReceiver, ofSecond, rfl⟩ :=
    arithmetic_spec code given
  · exact absurd (real.1.symm.trans integer) nofun
  rw [noShift] at ofSecond
  obtain ⟨w, make, is⟩ := IsInteger.exists_of_isFloating integer
  obtain ⟨n, rfl⟩ := is.exists_eq (Except.ok.inj ((typed first x left).symm.trans ofFirst))
  obtain ⟨k, rfl⟩ := is.exists_eq (Except.ok.inj ((typed second y right).symm.trans ofSecond))
  rw [operationCode, noShift]
  exact ⟨w, make, op, n, k, is, intended, rfl, rfl, ofReceiver, rfl⟩

/-- A division that does not overflow gives the result its value. -/
lemma division_assigns (typed : Typed c values) (left : values first = some x)
    (right : values second = some y) (integer : operand.isFloating = false)
    (division : operator.isDivision = true) (nonzero : ¬y.IsZero)
    (fits : ¬x.QuotientOverflows y) :
    Except.Ensures (Assigning host c values receiver (operator.wrapped? operand x y))
      (arithmetic c operator receiver first second operand) := by
  intro code given
  obtain ⟨w, make, op, n, k, integral, is, rfl, rfl, isReceiver, rfl⟩ :=
    division_spec typed left right integer division given
  rw [integral.overflows_iff] at fits
  obtain ⟨z, result, divided⟩ :=
    bits?_eq_of_isDivision is division (integral.ne_zero nonzero) fits
  refine ⟨make z, integral.wrapped?_divided division divided, (integral.type z).symm ▸ isReceiver,
    fun m => Computes.assign (integral.computes left result fun r _ mirrors => ?_)⟩
  exact integral.word k ▸ mirrors second _ right

/-- Where an operator is defined, its code assigns what it computes. -/
lemma binary_wraps (provided : ∀ type, (Environment.comparison type).ProvidedBy host)
    (typed : Typed c values) (left : values first = some x) (right : values second = some y)
    (integer : operand.isFloating = false) (nonzero : ¬operator.DividesByZero y)
    (fits : ¬operator.Overflows x y) :
    Except.Ensures (Assigning host c values receiver (operator.wrapped? operand x y))
      (binary c operator receiver first second operand) := by
  cases division : operator.isDivision with
  | true =>
    have noCompare : operator ≠ .compare := by
      rintro rfl
      cases division
    rw [binary, if_neg noCompare]
    exact division_assigns typed left right integer division (fun zero => nonzero ⟨division, zero⟩)
      fun overflows => fits ⟨division, overflows⟩
  | false =>
    have same : operator.wrapped? operand x y = operator.result? operand x y :=
      if_neg (Bool.eq_false_iff.1 division)
    rw [same]
    apply binary_assigns provided typed left right integer
    · rintro rfl
      cases division
    · rintro rfl
      cases division

/-- The code of a division that overflows consists of an instruction without result. -/
lemma binary_overflows (host : Host) (typed : Typed c values) (left : values first = some x)
    (right : values second = some y) (integer : operand.isFloating = false)
    (overflows : operator.Overflows x y) :
    Except.Ensures (fun code => ∃ i, code = Emit.assignVar receiver i ∧
        ∀ r m, Mirrors values r → i.run? host r m = none)
      (binary c operator receiver first second operand) := by
  obtain ⟨division, overflows⟩ := overflows
  have noCompare : operator ≠ .compare := by
    rintro rfl
    cases division
  rw [binary, if_neg noCompare]
  intro code given
  obtain ⟨w, make, op, n, k, integral, is, rfl, rfl, _, rfl⟩ :=
    division_spec typed left right integer division given
  obtain ⟨rfl, rfl⟩ := integral.overflows_iff.1 overflows
  refine ⟨_, rfl, fun r m mirrors => ?_⟩
  have holdsFirst : (Value.ofVar first).word? r = some (.int (BitVec.intMin w).toInt) :=
    integral.word _ ▸ mirrors first _ left
  have holdsSecond : (Value.ofVar second).word? r = some (.int (-1 : BitVec w).toInt) :=
    integral.word _ ▸ mirrors second _ right
  have undefined : op.eval? w (BitVec.intMin w).toInt (-1 : BitVec w).toInt = none := by
    rw [BinaryOp.eval?, BitVec.ofInt_toInt, BitVec.ofInt_toInt,
      bits?_eq_none_of_isDivision is division]
    rfl
  simp only [Instr.run?, holdsFirst, holdsSecond, integral.width]
  simp only [Option.bind_eq_bind, Option.bind_some, Word.int?, undefined, Option.bind_none]

end Operators

section Placements

variable {α : Type} {e : Emit α} {host : Host} {f : Function Label} {σ : State Label}

/-- Code runs where it stands. -/
lemma Emit.Placement.runs {P : Assertion} {Q : α → Assertion} (p : e.Placement f)
    (triple : Triple host P e Q) (behind : σ.Behind p.current)
    (holds : P p.start.draft.nextTemporary σ.registers σ.memory) :
    ∃ τ, f.Runs host σ τ ∧ τ.Behind (last p.current p.listing) ∧
      Q (e.result p.start) (e.next p.start).draft.nextTemporary τ.registers τ.memory := by
  obtain ⟨x, moves, runs⟩ := triple p.here
  obtain rfl := p.listing_eq moves
  exact runs p.carries behind holds

/-- Code of one line is that line, where it stands. -/
lemma Emit.Placement.line? {v : Var} {i : Instr} (p : (Emit.assignVar v i).Placement f)
    (behind : σ.Behind p.current) :
    f.line? σ = some (.define (.register (.var v)) i) ∧
      last p.current p.listing = p.current.push (.define (.register (.var v)) i) := by
  let l : DraftLine := .define (.register (.var v)) i
  have writes : p.start.Writes [l] ((Emit.assignVar v i).next p.start) := .line p.start rfl
  have moves : ((Emit.assignVar v i).next p.start).At (p.before ++ closed p.current [.line l])
      (last p.current [.line l]) p.after := by
    rw [closed, closed, List.append_nil]
    exact writes.moves p.here
  have same := p.listing_eq moves
  have carries := p.carries
  rw [same] at carries ⊢
  obtain ⟨_, _, at'⟩ := Carries.line? carries behind
  exact ⟨at', rfl⟩

end Placements

section Runs

variable {host : Host} {c : Context} {values : Values Address} {receiver first second : Var}
  {operator : BinaryOperator} {operand : Numeric} {x y : Scalar Address} {id : BlockId}
  {b : BasicBlock} {position : Nat} {code : Emit Unit} {f : Function Label} {σ : State Label}

/-- The code of an operator on integers, wherever it stands, runs to its end and leaves the result
that wraps around in the register of the receiver, unless it is that of a division that overflows.
Then it is stuck. Operands are any numbers but a divisor of zero. -/
theorem operator_runs_iff (provided : ∀ type, (Environment.comparison type).ProvidedBy host)
    (integer : operand.isFloating = false)
    (lowered : instruction c id b (.binary operator receiver first second operand) position =
      .ok code)
    (p : code.Placement f) (behind : σ.Behind p.current) (typed : Typed c values)
    (mirrors : Mirrors values σ.registers) (left : values first = some x)
    (right : values second = some y) (nonzero : ¬operator.DividesByZero y) :
    ((∃ d τ, operator.wrapped? operand x y = some d ∧ f.Runs host σ τ ∧
        τ.Behind (last p.current p.listing) ∧ τ.memory = σ.memory ∧
        Mirrors (Function.update values receiver (some d)) τ.registers) ↔
      ¬operator.Overflows x y) ∧
      (operator.Overflows x y → f.step? host σ = none) := by
  have stuck (overflows : operator.Overflows x y) :
      f.step? host σ = none ∧ ∀ τ, f.Runs host σ τ → ¬τ.Behind (last p.current p.listing) := by
    obtain ⟨i, rfl, fails⟩ := binary_overflows host typed left right integer overflows code lowered
    obtain ⟨at', ends⟩ := p.line? behind
    have none : f.step? host σ = none := by
      rw [Function.step?, at']
      exact Line.run?_define_eq_none (.register (.var receiver)) (fails _ _ mirrors)
    refine ⟨none, fun τ runs behind' => ?_⟩
    rcases runs.cases_head with rfl | ⟨_, step, _⟩
    · have position := behind'.position
      rw [ends, behind.position] at position
      simp [Block.push] at position
    · cases none.symm.trans step
  refine ⟨⟨?_, fun fits => ?_⟩, fun overflows => (stuck overflows).1⟩
  · rintro ⟨d, τ, _, runs, ends, _⟩ overflows
    exact (stuck overflows).2 τ runs ends
  · obtain ⟨d, result, assigns⟩ :=
      binary_wraps provided typed left right integer nonzero fits code lowered
    have start : Holding σ.memory values [] p.start.draft.nextTemporary σ.registers σ.memory :=
      ⟨⟨rfl, List.forall_mem_nil _, List.forall_mem_nil _⟩, mirrors⟩
    obtain ⟨τ, runs, ends, holding⟩ := p.runs (assigns.runs σ.memory) behind start
    exact ⟨d, τ, result, runs, ends, holding.knows.memory, holding.mirrors⟩

end Runs

/-- Divide one number by another one. -/
def quotient : Body :=
  { kinds := [.int, .int, .int]
    blocks :=
      [{ BasicBlock.empty with
          instructions := [.binary .divide ⟨2⟩ ⟨0⟩ ⟨1⟩ .int]
          terminator := .exit (some ⟨2⟩) }] }

/-- The method of the body. -/
def quotientMethod : MethodDef :=
  { digitsMethod with
    signature := ⟨"quotient", [.primitive .int, .primitive .int], .primitive .int⟩
    body := some quotient }

/-- The variables of the body when it is given two numbers. -/
def quotientOperands (x y : BitVec 32) : Values Address := fun v =>
  ([.int x, .int y] : List (Scalar Address))[v.index]?

/-- The operands of the example are of their types. -/
lemma quotientOperands_typed (b : Backend) (x y : BitVec 32) :
    Typed (.ofBody b numbers quotientMethod quotient) (quotientOperands x y) := by
  intro v d holds
  change [Scalar.int x, .int y][v.index]? = some d at holds
  rw [Context.typeOf, Context.kindOf, Body.kindOf]
  revert holds
  generalize v.index = n
  rcases n with _ | _ | n
  · rintro ⟨⟩
    rfl
  · rintro ⟨⟩
    rfl
  · rintro ⟨⟩

/-- Registers that hold the words for what some variables hold. -/
def registersOf (values : Values Address) : Registers
  | .var v => (values v).map Scalar.word
  | _ => none

/-- The registers of the example mirror its values. -/
lemma mirrors_registersOf (values : Values Address) : Mirrors values (registersOf values) := by
  intro v d holds
  rw [registersOf, holds, Option.map_some]

/-- Seven divided by minus two is minus three. -/
theorem quotient_rounds :
    ∃ b f pools code, Backend.ofProgram numbersProgram .default = .ok b ∧
      (function (.ofBody b numbers quotientMethod quotient)).run .empty = .ok (f, pools) ∧
      instruction (.ofBody b numbers quotientMethod quotient) ⟨0⟩ quotient.blocks[0]
        (.binary .divide ⟨2⟩ ⟨0⟩ ⟨1⟩ .int) 0 = .ok code ∧
      ∃ (p : code.Placement f) (σ τ : State Label), σ.Behind p.current ∧
        Mirrors (quotientOperands 7 (-2)) σ.registers ∧ f.Runs Environment.comparing σ τ ∧
        τ.Behind (last p.current p.listing) ∧ τ.registers (.var ⟨2⟩) = some (.int (-3)) := by
  have computed : ((Backend.ofProgram numbersProgram .default).toOption.bind fun b =>
      ((function (.ofBody b numbers quotientMethod quotient)).run .empty).toOption.map
        fun _ => ()) =
        some () := by
    cbv
  obtain ⟨b, ⟨f, pools⟩, built, lowered, _⟩ := Except.exists_of_toOption_bind_map computed
  have bound : quotient.blocks.length ≤ UInt32.size := by decide
  have found : quotient.block? ⟨0⟩ = some quotient.blocks[0] := rfl
  have instr : quotient.blocks[0].instructions[0]? = some (.binary .divide ⟨2⟩ ⟨0⟩ ⟨1⟩ .int) := rfl
  obtain ⟨code, given, ⟨p⟩⟩ :=
    exists_placement (c := .ofBody b numbers quotientMethod quotient) bound lowered found instr
  let r := registersOf (quotientOperands 7 (-2))
  have mirrors : Mirrors (quotientOperands 7 (-2)) r := mirrors_registersOf _
  let σ : State Label :=
    { label := p.current.label, position := p.current.lines.length, source := none, entered := r
      registers := r, memory := fun _ => none }
  -- the divisor is not zero, and the quotient does not overflow
  have nonzero : ¬BinaryOperator.divide.DividesByZero (.int (-2) : Scalar Address) := by
    rintro ⟨_, zero | zero⟩ <;> cases zero
  have fits : ¬BinaryOperator.divide.Overflows (.int 7) (.int (-2) : Scalar Address) := by
    rintro ⟨_, overflows⟩
    cases overflows
  obtain ⟨d, τ, result, runs, ends, _, mirrors'⟩ :=
    (operator_runs_iff (σ := σ) Environment.comparing_provides rfl given p ⟨rfl, rfl⟩
      (quotientOperands_typed b 7 (-2)) mirrors rfl rfl nonzero).1.2 fits
  obtain rfl : d = .int (-3) := (Option.some.inj result).symm
  exact ⟨b, f, pools, code, built, lowered, given, p, σ, τ, ⟨rfl, rfl⟩, mirrors, runs, ends,
    mirrors' ⟨2⟩ _ (Function.update_self ..)⟩

/-- The least number divided by minus one would be the least number again, but there is no step to
it. -/
theorem quotient_stuck :
    BinaryOperator.divide.wrapped? .int (.int (.intMin 32)) (.int (-1)) =
      some (.int (.intMin 32) : Scalar Address) ∧
    ∃ b f pools τ, Backend.ofProgram numbersProgram .default = .ok b ∧
      (function (.ofBody b numbers quotientMethod quotient)).run .empty = .ok (f, pools) ∧
      f.Runs Environment.comparing
        (.start (f.arguments [.int (-2147483648), .int (-1)]) fun _ => none) τ ∧
      f.line? τ =
        some (.define (.register (.var ⟨2⟩)) (.binary .sdiv .i32 (.ofVar ⟨0⟩) (.ofVar ⟨1⟩))) ∧
      f.step? Environment.comparing τ = none := by
  have computed : ((Backend.ofProgram numbersProgram .default).toOption.bind fun b =>
      ((function (.ofBody b numbers quotientMethod quotient)).run .empty).toOption.bind fun r =>
        (after? (r.1.step? Environment.comparing) 1
          (.start (r.1.arguments [.int (-2147483648), .int (-1)]) fun _ => none)).map fun τ =>
            (r.1.line? τ, (r.1.step? Environment.comparing τ).isNone)) =
        some (some (.define (.register (.var ⟨2⟩))
          (.binary .sdiv .i32 (.ofVar ⟨0⟩) (.ofVar ⟨1⟩))), true) := by
    cbv
  obtain ⟨b, built, computed⟩ := Option.bind_eq_some_iff.1 computed
  obtain ⟨⟨f, pools⟩, lowered, computed⟩ := Option.bind_eq_some_iff.1 computed
  obtain ⟨τ, comes, values⟩ := Option.map_eq_some_iff.1 computed
  obtain ⟨at', stuck⟩ := Prod.mk.inj values
  exact ⟨rfl, b, f, pools, τ, Except.eq_ok_of_toOption built, Except.eq_ok_of_toOption lowered,
    steps_of_after? comes, at', Option.isNone_iff_eq_none.1 stuck⟩

end Lowering

end ObjectBackend
