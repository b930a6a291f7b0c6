import ObjectBackend.Proofs.Image.Comparison
import ObjectBackend.Proofs.Lowering.Execution
import ObjectBackend.Proofs.Lowering.Instructions
import ObjectBackend.Proofs.Source.Execution

/-!
# The code of arithmetic

The register of a variable holds the word for its value (`Mirrors`). An instruction that computes
with integers or moves a value has a result, and its code assigns the word for that to the register
of its receiver (`plainInstruction_assigns`).
-/

namespace ObjectBackend

open Target

namespace Scalar

/-- The word for a value. A real is only moved about, so any number that tells it from others does.
-/
def word : Scalar Address → Word
  | int n => .int n.toInt
  | long n => .int n.toInt
  | float x => .int x.bits.toNat
  | double x => .int x.bits.toNat
  | reference none => .null
  | reference (some a) => .address a

/-- The type of the register that holds a value. -/
def type {ρ : Type} : Scalar ρ → IrType
  | int _ => .i32
  | long _ => .i64
  | float _ => .float
  | double _ => .double
  | reference _ => .ptr

variable {ρ : Type} {d : Scalar ρ}

/-- A value of the type of words is an integer. -/
lemma exists_int (type : d.type = .i32) : ∃ n, d = .int n := by
  cases d with
  | int n => exact ⟨n, rfl⟩
  | _ => cases type

/-- A value of the type of long words is a long integer. -/
lemma exists_long (type : d.type = .i64) : ∃ n, d = .long n := by
  cases d with
  | long n => exact ⟨n, rfl⟩
  | _ => cases type

/-- A value of the type of addresses is a reference. -/
lemma exists_reference (type : d.type = .ptr) : ∃ object?, d = .reference object? := by
  cases d with
  | reference object? => exact ⟨object?, rfl⟩
  | _ => cases type

end Scalar

/-- The registers of variables hold the words for what the variables hold. -/
def Mirrors (values : Values Address) (r : Registers) : Prop :=
  ∀ v d, values v = some d → r (.var v) = some d.word

/-- Giving a variable a value is assigning its register the word for that. -/
lemma Mirrors.update {values : Values Address} {r : Registers} {v : Var}
    (mirrors : Mirrors values r) (d : Scalar Address) :
    Mirrors (Function.update values v (some d)) (Function.update r (.var v) (some d.word)) := by
  intro u d' holds
  by_cases eq : u = v
  · subst eq
    rw [Function.update_self] at holds ⊢
    rw [Option.some.inj holds]
  · rw [Function.update_of_ne eq] at holds
    rw [Function.update_of_ne fun same => eq (Local.var.inj same)]
    exact mirrors u d' holds

namespace Lowering

open Emit

variable {host : Host} {c : Context} {values : Values Address} {m : Memory} {r : Registers}
  {known known' : List (Value × Word)} {v : Var} {d : Scalar Address}

/-- What variables hold is of their types. -/
def Typed (c : Context) (values : Values Address) : Prop :=
  ∀ v d, values v = some d → c.typeOf v = .ok d.type

/-- Giving a variable a value of its type keeps the values typed. -/
lemma Typed.update (typed : Typed c values)
    (fits : c.typeOf v = .ok d.type) : Typed c (Function.update values v (some d)) := by
  intro u d' holds
  by_cases eq : u = v
  · subst eq
    rw [Function.update_self] at holds
    rw [← Option.some.inj holds]
    exact fits
  · rw [Function.update_of_ne eq] at holds
    exact typed u d' holds

section Rules

/-- The registers hold the words for some variables, and some values are known. -/
structure Holding (m₀ : Memory) (values : Values Address) (known : List (Value × Word)) (n : Nat)
    (r : Registers) (m : Memory) : Prop where
  knows : Knows m₀ known n r m
  mirrors : Mirrors values r

/-- What holds of more known values holds of fewer ones. -/
lemma Holding.mono {n : Nat} {m' : Memory} (holding : Holding m values known n r m')
    (subset : known' ⊆ known) : Holding m values known' n r m' :=
  ⟨holding.knows.mono subset, holding.mirrors⟩

/-- An instruction computes a word from what is known. -/
def Computes (host : Host) (m : Memory) (values : Values Address) (known : List (Value × Word))
    (i : Instr) (w : Word) : Prop :=
  ∀ r, (∀ e ∈ known, e.1.word? r = some e.2) → Mirrors values r →
    i.run? host r m = some (some w, m)

/-- Code that computes a word into a temporary knows the word from then on. -/
lemma Computes.define {i : Instr} {w : Word} (computes : Computes host m values known i w) :
    Triple host (Holding m values known) (Emit.define i)
      fun v => Holding m values ((v, w) :: known) := by
  apply Triple.define
  intro n r m' holding
  refine ⟨w, m', ?_, holding.knows.assign w, fun v d holds => ?_⟩
  · rw [holding.knows.memory]
    exact computes r holding.knows.words holding.mirrors
  · have other : Local.var v ≠ .temporary n := by rintro ⟨⟩
    rw [Function.update_of_ne other]
    exact holding.mirrors v d holds

/-- Code that computes the word for a value into a variable gives the variable the value. -/
lemma Computes.assign {i : Instr} (computes : Computes host m values known i d.word) :
    Triple host (Holding m values known) (Emit.assignVar v i)
      fun _ => Holding m (Function.update values v (some d)) [] := by
  apply Triple.assign
  intro n r m' holding
  refine ⟨d.word, m', ?_, ⟨holding.knows.memory, List.forall_mem_nil _, List.forall_mem_nil _⟩,
    holding.mirrors.update d⟩
  rw [holding.knows.memory]
  exact computes r holding.knows.words holding.mirrors

/-- Code assigns a value to a variable. -/
structure Emit.Assigns (host : Host) (c : Context) (values : Values Address) (v : Var)
    (d : Scalar Address) (e : Emit Unit) : Prop where
  typed : c.typeOf v = .ok d.type
  runs : ∀ m, Triple host (Holding m values []) e
    fun _ => Holding m (Function.update values v (some d)) []

end Rules

section Numbers

variable {w w' : Nat} {x y z : BitVec w} {source target type : IrType} {a b : Value}

/-- A word of more than one bit is a number with sign. -/
lemma numberOf_eq (wide : 1 < w) (x : BitVec w) : numberOf x = x.toInt := if_neg (Nat.ne_of_gt wide)

/-- An operator on integers gives what it gives on their bits. -/
lemma run?_binary {op : BinaryOp} (width : type.intWidth? = some w) (wide : 1 < w)
    (result : op.bits? x y = some z) (left : a.word? r = some (.int x.toInt))
    (right : b.word? r = some (.int y.toInt)) :
    (Instr.binary op type a b).run? host r m = some (some (.int z.toInt), m) := by
  have applied : op.eval? w x.toInt y.toInt = some z.toInt := by
    rw [BinaryOp.eval?, BitVec.ofInt_toInt, BitVec.ofInt_toInt, result, Option.map_some,
      numberOf_eq wide]
  simp [Instr.run?, left, right, Word.int?, width, applied]

/-- Bits are cut off or zeros put before them. -/
lemma run?_setWidth {op : CastOp} (resizes : op = .trunc ∨ op = .zext)
    (width : source.intWidth? = some w) (width' : target.intWidth? = some w') (wide : 1 < w')
    (operand : a.word? r = some (.int x.toInt)) :
    (Instr.cast op ⟨source, a⟩ target).run? host r m =
      some (some (.int (x.setWidth w').toInt), m) := by
  have applied : op.eval? w w' x.toInt = some (x.setWidth w').toInt := by
    rcases resizes with rfl | rfl
    all_goals rw [CastOp.eval?, BitVec.ofInt_toInt, numberOf_eq wide]
  have other : op ≠ .bitcast := by rcases resizes with rfl | rfl <;> rintro ⟨⟩
  simp [Instr.run?, operand, Word.int?, width, width', applied, other]

/-- Copies of the sign are put before bits. -/
lemma run?_signExtend (width : source.intWidth? = some w) (width' : target.intWidth? = some w')
    (wide : 1 < w') (operand : a.word? r = some (.int x.toInt)) :
    (Instr.cast .sext ⟨source, a⟩ target).run? host r m =
      some (some (.int (x.signExtend w').toInt), m) := by
  have applied : CastOp.sext.eval? w w' x.toInt = some (x.signExtend w').toInt := by
    rw [CastOp.eval?, BitVec.ofInt_toInt, numberOf_eq wide]
  simp [Instr.run?, operand, Word.int?, width, width', applied]

/-- A copy gives the word that is copied. -/
lemma run?_copy {word : Word} (operand : a.word? r = some word) :
    (Instr.copy type a).run? host r m = some (some word, m) := by
  simp [Instr.run?, Instr.copy, operand]

/-- The order of two numbers is the sign of their comparison. -/
lemma toInt_order (x y : BitVec w) : (order x y).toInt = Environment.sign x.toInt y.toInt := by
  rw [order, Environment.sign]
  split
  · rfl
  · split <;> rfl

/-- The last five bits of a number are its remainder by the width of words. -/
lemma toNat_and_mask (n : BitVec 32) : (n &&& 31#32).toNat = n.toNat % 32 := by
  rw [BitVec.toNat_and]
  exact Nat.and_two_pow_sub_one_eq_mod n.toNat 5

/-- Extending the sign does not touch the low bits. -/
lemma toNat_signExtend_and_mask (n : BitVec 32) :
    (n.signExtend 64 &&& 63#64).toNat = n.toNat % 64 := by
  have low : (n.signExtend 64 &&& 63#64).toNat = (n.signExtend 64).toNat % 64 := by
    rw [BitVec.toNat_and]
    exact Nat.and_two_pow_sub_one_eq_mod _ 6
  rw [low, BitVec.toNat_signExtend, BitVec.toNat_setWidth]
  have lt := n.isLt
  split <;> omega

end Numbers

section Operators

variable {w : Nat} {operator : BinaryOperator} {op : BinaryOp} {x y : BitVec w}

/-- An operation that is neither shift nor division is made on bits as on numbers. -/
lemma bits?_eq (is : operator.integerOp? = some op) (noShift : operator.isShift = false)
    (noDivision : operator ≠ .divide) (noModulo : operator ≠ .modulo) :
    ∃ z, op.bits? x y = some z ∧ operator.number? x y = some z := by
  cases operator with
  | add | subtract | multiply | and | or | xor =>
    obtain rfl := Option.some.inj is
    exact ⟨_, rfl, rfl⟩
  | divide => exact absurd rfl noDivision
  | modulo => exact absurd rfl noModulo
  | compare => cases is
  | shiftLeft | shiftRight | shiftRightUnsigned => cases noShift

/-- A shift by a reduced distance is always defined. -/
lemma bits?_eq_of_isShift {n : BitVec 32} (positive : 0 < w) (is : operator.integerOp? = some op)
    (shift : operator.isShift = true) (distance : y.toNat = n.toNat % w) :
    ∃ z, op.bits? x y = some z ∧ operator.shifted? x n = some z := by
  have lt : y.toNat < w := distance ▸ Nat.mod_lt _ positive
  cases operator with
  | shiftLeft | shiftRight | shiftRightUnsigned =>
    obtain rfl := Option.some.inj is
    refine ⟨_, if_pos lt, ?_⟩
    rw [distance]
    rfl
  | _ => cases shift

/-- A shift has no result as an operation on two numbers. -/
lemma number?_eq_none (shift : operator.isShift = true) : operator.number? x y = none := by
  cases operator with
  | shiftLeft | shiftRight | shiftRightUnsigned => rfl
  | _ => cases shift

/-- A type of integers, with the width of its numbers and the values that they are. -/
inductive IsInteger : Numeric → (w : Nat) → (BitVec w → Scalar Address) → Prop where
  | int : IsInteger .int 32 .int
  | long : IsInteger .long 64 .long

namespace IsInteger

variable {operand : Numeric} {make : BitVec w → Scalar Address}

/-- A numeric type without fractions is a type of integers. -/
lemma exists_of_isFloating (integer : operand.isFloating = false) :
    ∃ w make, IsInteger operand w make := by
  cases operand with
  | int => exact ⟨_, _, .int⟩
  | long => exact ⟨_, _, .long⟩
  | float | double => cases integer

/-- The width of a type of integers is that of its registers. -/
lemma width (is : IsInteger operand w make) : operand.irType.intWidth? = some w := by
  cases is with
  | _ => rfl

/-- Integers have more than one bit. -/
lemma wide (is : IsInteger operand w make) : 1 < w := by
  cases is with
  | _ => decide

/-- The word for an integer is its signed number. -/
lemma word (is : IsInteger operand w make) (n : BitVec w) : (make n).word = .int n.toInt := by
  cases is with
  | _ => rfl

/-- Integers are of the type of their registers. -/
lemma type (is : IsInteger operand w make) (n : BitVec w) : (make n).type = operand.irType := by
  cases is with
  | _ => rfl

/-- A value of the type of the registers is an integer. -/
lemma exists_eq (is : IsInteger operand w make) (fits : d.type = operand.irType) :
    ∃ n, d = make n := by
  cases is with
  | int => exact Scalar.exists_int fits
  | long => exact Scalar.exists_long fits

/-- The negative of an integer is that of its bits. -/
lemma negative? (is : IsInteger operand w make) (n : BitVec w) :
    operand.negative? (make n) = some (make (-n)) := by
  cases is with
  | _ => rfl

/-- Integers are compared by their order. -/
lemma result?_compare (is : IsInteger operand w make) (x y : BitVec w) :
    BinaryOperator.compare.result? operand (make x) (make y) = some (.int (order x y)) := by
  cases is with
  | _ => rfl

/-- The result of an operation is that on numbers. -/
lemma result?_number (is : IsInteger operand w make) (noCompare : operator ≠ .compare)
    {z : BitVec w} (number : operator.number? x y = some z) :
    operator.result? operand (make x) (make y) = some (make z) := by
  cases is with
  | _ =>
    rw [BinaryOperator.result?, if_neg noCompare, number]
    rfl

/-- The result of a shift is the shifted number. -/
lemma result?_shifted (is : IsInteger operand w make) (noCompare : operator ≠ .compare)
    {z : BitVec w} {n : BitVec 32} (shift : operator.isShift = true)
    (shifted : operator.shifted? x n = some z) :
    operator.result? operand (make x) (.int n) = some (make z) := by
  cases is with
  | int =>
    rw [BinaryOperator.result?, if_neg noCompare, number?_eq_none shift, shifted]
    rfl
  | long =>
    rw [BinaryOperator.result?, shifted]
    rfl

end IsInteger

end Operators

section Instructions

/-- Code gives a variable a value, if there is one. -/
def Assigning (host : Host) (c : Context) (values : Values Address) (v : Var)
    (d? : Option (Scalar Address)) (e : Emit Unit) : Prop :=
  ∃ d, d? = some d ∧ Emit.Assigns host c values v d e

variable {receiver first second : Var} {operand : Numeric} {operator : BinaryOperator}
  {x y : Scalar Address}

/-- A value is of the type that its variable is expected to have. -/
lemma typed_eq (typed : Typed c values) (holds : values v = some d) {type : IrType}
    (checked : c.expect v type = .ok ()) : d.type = type :=
  Except.ok.inj ((typed v d holds).symm.trans (expect_spec _ checked))

/-- Numbers are compared by a routine. -/
lemma comparison_assigns (provided : ∀ type, (Environment.comparison type).ProvidedBy host)
    (typed : Typed c values) (left : values first = some x) (right : values second = some y)
    (integer : operand.isFloating = false) :
    Except.Ensures (Assigning host c values receiver (BinaryOperator.compare.result? operand x y))
      (comparison c receiver first second operand) := by
  refine .bind fun _ ofFirst => .bind fun _ ofSecond => .bind fun _ ofReceiver => .pure ?_
  obtain ⟨w, make, is⟩ := IsInteger.exists_of_isFloating integer
  obtain ⟨n, rfl⟩ := is.exists_eq (typed_eq typed left ofFirst)
  obtain ⟨k, rfl⟩ := is.exists_eq (typed_eq typed right ofSecond)
  refine ⟨_, is.result?_compare n k, expect_spec _ ofReceiver, fun m => Computes.assign ?_⟩
  intro r _ mirrors
  have callee : (Value.ofRuntime (.compare operand)).word? r =
      some (.address (.symbol (.runtime (.compare operand)))) := rfl
  have holdsFirst : (Value.ofVar first).word? r = some (.int n.toInt) :=
    is.word n ▸ mirrors first _ left
  have holdsSecond : (Value.ofVar second).word? r = some (.int k.toInt) :=
    is.word k ▸ mirrors second _ right
  have returned : host (.runtime (.compare operand)) [.int n.toInt, .int k.toInt] m =
      some (some (.int (order n k).toInt), m) := by
    rw [toInt_order]
    exact provided operand _ _ _ _ (Environment.comparison_returns integer)
  simp [Instr.run?, callee, holdsFirst, holdsSecond, Word.address?, returned, Scalar.word]

/-- A shift distance is reduced to the width of the shifted number. -/
lemma shiftDistance_runs (host : Host) {w : Nat} {make : BitVec w → Scalar Address}
    (is : IsInteger operand w make) {n : BitVec 32} (distance : values v = some (.int n)) :
    ∃ y : BitVec w, y.toNat = n.toNat % w ∧ ∀ m, Triple host (Holding m values [])
      (shiftDistance v operand.irType) fun a => Holding m values [(a, .int y.toInt)] := by
  cases is with
  | int =>
    refine ⟨n &&& 31#32, toNat_and_mask n, fun m => ?_⟩
    apply Computes.define (i := .binary .and .i32 (.ofVar v) (.int 31))
    intro r _ mirrors
    exact run?_binary (y := 31#32) rfl (by decide) rfl (mirrors v _ distance) rfl
  | long =>
    refine ⟨n.signExtend 64 &&& 63#64, toNat_signExtend_and_mask n, fun m => ?_⟩
    have widened : Computes host m values [] (.cast .sext ⟨.i32, .ofVar v⟩ .i64)
        (.int (n.signExtend 64).toInt) := fun r _ mirrors =>
      run?_signExtend rfl rfl (by decide) (mirrors v _ distance)
    apply widened.define.bind
    intro a
    have masked : Computes host m values [(a, .int (n.signExtend 64).toInt)]
        (.binary .and .i64 a (.int 63)) (.int (n.signExtend 64 &&& 63#64).toInt) := by
      intro r words _
      exact run?_binary (y := 63#64) rfl (by decide) rfl (words _ (List.mem_singleton_self _)) rfl
    apply masked.define.imp (fun _ _ _ holding => holding)
    intro a' n' r m' holding
    exact holding.mono (List.cons_subset_cons _ (List.nil_subset _))

/-- An operation computes the word for its result. -/
lemma IsInteger.computes {w : Nat} {make : BitVec w → Scalar Address}
    (is : IsInteger operand w make)
    {op : BinaryOp} {n k z : BitVec w} {rhs : Value} (left : values first = some (make n))
    (result : op.bits? n k = some z)
    (right : ∀ r, (∀ e ∈ known, e.1.word? r = some e.2) → Mirrors values r →
      rhs.word? r = some (.int k.toInt)) :
    Computes host m values known (.binary op operand.irType (.ofVar first) rhs) (make z).word := by
  intro r words mirrors
  rw [is.word]
  exact run?_binary is.width is.wide result (is.word n ▸ mirrors first _ left)
    (right r words mirrors)

/-- Operators on integers wrap around, and a shift moves bits by a distance that is reduced. -/
lemma arithmetic_assigns (typed : Typed c values) (left : values first = some x)
    (right : values second = some y) (integer : operand.isFloating = false)
    (noCompare : operator ≠ .compare) (noDivision : operator ≠ .divide)
    (noModulo : operator ≠ .modulo) :
    Except.Ensures (Assigning host c values receiver (operator.result? operand x y))
      (arithmetic c operator receiver first second operand) := by
  intro code given
  obtain ⟨op, real | ⟨_, intended⟩, ofFirst, ofReceiver, ofSecond, rfl⟩ :=
    arithmetic_spec code given
  · exact absurd (real.1.symm.trans integer) nofun
  have isSecond := Except.ok.inj ((typed second y right).symm.trans ofSecond)
  obtain ⟨w, make, is⟩ := IsInteger.exists_of_isFloating integer
  obtain ⟨n, rfl⟩ := is.exists_eq (Except.ok.inj ((typed first x left).symm.trans ofFirst))
  have receives : ∀ z : BitVec w, c.typeOf receiver = .ok (make z).type :=
    fun z => (is.type z).symm ▸ ofReceiver
  rw [operationCode]
  cases shift : operator.isShift with
  | true =>
    rw [shift] at isSecond
    obtain ⟨k, rfl⟩ := Scalar.exists_int isSecond
    obtain ⟨y, distance, reduced⟩ := shiftDistance_runs host is right
    obtain ⟨z, result, shifted⟩ :=
      bits?_eq_of_isShift (x := n) (Nat.zero_lt_of_lt is.wide) intended shift distance
    refine ⟨_, is.result?_shifted noCompare shift shifted, receives z, fun m => ?_⟩
    apply (reduced m).bind
    intro rhs
    exact (is.computes left result fun r words _ => words _ (List.mem_singleton_self _)).assign
  | false =>
    rw [shift] at isSecond
    obtain ⟨k, rfl⟩ := is.exists_eq isSecond
    obtain ⟨z, result, number⟩ := bits?_eq (x := n) (y := k) intended shift noDivision noModulo
    refine ⟨_, is.result?_number noCompare number, receives z, fun m => ?_⟩
    exact (is.computes left result fun r _ mirrors => is.word k ▸ mirrors second _ right).assign

/-- The negative of a number is its difference from zero. -/
lemma negation_assigns (typed : Typed c values) (holds : values v = some x)
    (integer : operand.isFloating = false) :
    Except.Ensures (Assigning host c values receiver (operand.negative? x))
      (negation c receiver v operand) := by
  refine .bind fun _ ofOperand => .bind fun _ ofReceiver => .pure ?_
  have isReceiver := expect_spec _ ofReceiver
  obtain ⟨w, make, is⟩ := IsInteger.exists_of_isFloating integer
  obtain ⟨n, rfl⟩ := is.exists_eq (typed_eq typed holds ofOperand)
  refine ⟨_, is.negative? n, (is.type (-n)).symm ▸ isReceiver, fun m => Computes.assign ?_⟩
  intro r _ mirrors
  rw [integer, is.word]
  exact run?_binary (x := 0#w) is.width is.wide (congrArg some (BitVec.zero_sub n))
    (congrArg (some ∘ Word.int) BitVec.toInt_zero.symm) (is.word n ▸ mirrors v _ holds)

/-- What is moved is not changed. -/
lemma copyTo_assigns {a : Value} (isReceiver : c.typeOf receiver = .ok d.type)
    (word : ∀ r : Registers, Mirrors values r → a.word? r = some d.word) (type : IrType) :
    Emit.Assigns host c values receiver d (Emit.copyTo receiver type a) :=
  ⟨isReceiver, fun _ => Computes.assign fun r _ mirrors => run?_copy (word r mirrors)⟩

/-- A numeric cast between integers gives the result its converted value. -/
lemma numericCast_assigns {source target : Numeric} (typed : Typed c values)
    (holds : values v = some x) (integer : source.isFloating = false)
    (integer' : target.isFloating = false) :
    Except.Ensures (Assigning host c values receiver (source.converted? target x))
      (numericCast c receiver v source target) := by
  refine .bind fun _ ofValue => .bind fun _ ofReceiver => .pure ?_
  have isReceiver := expect_spec _ ofReceiver
  have isValue := typed_eq typed holds ofValue
  have word : ∀ r : Registers, Mirrors values r → (Value.ofVar v).word? r = some x.word :=
    fun r mirrors => mirrors v _ holds
  cases source with
  | int =>
    obtain ⟨n, rfl⟩ := Scalar.exists_int isValue
    cases target with
    | int => exact ⟨_, rfl, copyTo_assigns isReceiver word _⟩
    | long =>
      refine ⟨_, rfl, isReceiver, fun m => Computes.assign fun r _ mirrors => ?_⟩
      exact run?_signExtend rfl rfl (by decide) (mirrors v _ holds)
    | float | double => cases integer'
  | long =>
    obtain ⟨n, rfl⟩ := Scalar.exists_long isValue
    cases target with
    | int =>
      refine ⟨_, rfl, isReceiver, fun m => Computes.assign fun r _ mirrors => ?_⟩
      exact run?_setWidth (.inl rfl) rfl rfl (by decide) (mirrors v _ holds)
    | long => exact ⟨_, rfl, copyTo_assigns isReceiver word _⟩
    | float | double => cases integer'
  | float | double => cases integer

/-- A short integer is cut off and extended again. -/
lemma integerCast_assigns (typed : Typed c values) {x : Scalar Address} (holds : values v = some x)
    (subword : Subword) :
    Except.Ensures (fun code => ∃ n, x = .int n ∧
        Emit.Assigns host c values receiver (.int (subword.narrowed n)) code)
      (integerCast c receiver v subword) := by
  refine .bind fun _ ofValue => .bind fun _ ofReceiver => .pure ?_
  have isReceiver := expect_spec _ ofReceiver
  obtain ⟨n, rfl⟩ := Scalar.exists_int (typed_eq typed holds ofValue)
  refine ⟨n, rfl, isReceiver, fun m => ?_⟩
  have cut : ∀ {w : Nat}, subword.irType.intWidth? = some w → 1 < w →
      Computes host m values [] (.cast .trunc ⟨.i32, .ofVar v⟩ subword.irType)
        (.int (n.setWidth w).toInt) := fun width wide r _ mirrors =>
    run?_setWidth (.inl rfl) rfl width wide (mirrors v _ holds)
  cases subword with
  | byte =>
    apply (cut rfl (by decide)).define.bind
    intro a
    refine Computes.assign fun r words _ => ?_
    exact run?_signExtend rfl rfl (by decide) (words _ (List.mem_singleton_self _))
  | short =>
    apply (cut rfl (by decide)).define.bind
    intro a
    refine Computes.assign fun r words _ => ?_
    exact run?_signExtend rfl rfl (by decide) (words _ (List.mem_singleton_self _))
  | char =>
    apply (cut rfl (by decide)).define.bind
    intro a
    refine Computes.assign fun r words _ => ?_
    exact run?_setWidth (.inr rfl) rfl rfl (by decide) (words _ (List.mem_singleton_self _))

/-- An operation on integers that is no division gives the result its value. -/
lemma binary_assigns (provided : ∀ type, (Environment.comparison type).ProvidedBy host)
    (typed : Typed c values) {x y : Scalar Address} (left : values first = some x)
    (right : values second = some y) (integer : operand.isFloating = false)
    (noDivision : operator ≠ .divide) (noModulo : operator ≠ .modulo) :
    Except.Ensures (Assigning host c values receiver (operator.result? operand x y))
      (binary c operator receiver first second operand) := by
  rw [binary]
  split
  case isTrue compare =>
    subst compare
    exact comparison_assigns provided typed left right integer
  case isFalse other => exact arithmetic_assigns typed left right integer other noDivision noModulo

/-- The code of an arithmetic instruction assigns what the instruction computes. -/
lemma plainInstruction_assigns (provided : ∀ type, (Environment.comparison type).ProvidedBy host)
    (typed : Typed c values) {i : Instruction} (arithmetic : i.isArithmetic = true)
    (other : i ≠ .nop) (reads : ∀ v ∈ i.used, ∃ d, values v = some d) :
    Except.Ensures (fun code => ∃ v, i.defined = some v ∧
        Assigning host c values v (i.value? values) code)
      (plainInstruction c i) := by
  cases i with
  | intConstant receiver value =>
    refine .bind fun _ ofReceiver => .pure ⟨receiver, rfl, .int value.toBitVec, rfl, ?_⟩
    exact copyTo_assigns (expect_spec _ ofReceiver) (fun _ _ => rfl) _
  | longConstant receiver value =>
    refine .bind fun _ ofReceiver => .pure ⟨receiver, rfl, .long value.toBitVec, rfl, ?_⟩
    exact copyTo_assigns (expect_spec _ ofReceiver) (fun _ _ => rfl) _
  | assign receiver assignee =>
    obtain ⟨d, holds⟩ := reads assignee (List.mem_singleton_self _)
    refine .bind fun type isReceiver => .bind fun _ ofAssignee =>
      .pure ⟨receiver, rfl, d, holds, ?_⟩
    rw [← typed_eq typed holds ofAssignee] at isReceiver
    exact copyTo_assigns (a := .ofVar assignee) isReceiver
      (fun _ mirrors => mirrors assignee d holds) _
  | binary operator receiver first second operand =>
    obtain ⟨x, left⟩ := reads first (List.mem_cons_self ..)
    obtain ⟨y, right⟩ := reads second (List.mem_cons_of_mem _ (List.mem_singleton_self _))
    have value : (Instruction.binary operator receiver first second operand).value? values =
        operator.result? operand x y := by
      rw [Instruction.value?, left, right]
      rfl
    -- divisions and remainders are no arithmetic here, as they may have no value
    simp only [Instruction.isArithmetic, Bool.and_eq_true, decide_eq_true_eq,
      Bool.not_eq_true'] at arithmetic
    obtain ⟨⟨noDivision, noModulo⟩, integer⟩ := arithmetic
    intro code given
    rw [value]
    exact ⟨receiver, rfl,
      binary_assigns provided typed left right integer noDivision noModulo code given⟩
  | negate receiver operand type =>
    obtain ⟨x, holds⟩ := reads operand (List.mem_singleton_self _)
    have value : (Instruction.negate receiver operand type).value? values = type.negative? x := by
      rw [Instruction.value?, holds]
      rfl
    intro code given
    rw [value]
    exact ⟨receiver, rfl,
      negation_assigns typed holds (Bool.not_eq_true' _ ▸ arithmetic) code given⟩
  | numericCast receiver value source target =>
    obtain ⟨x, holds⟩ := reads value (List.mem_singleton_self _)
    have computed : (Instruction.numericCast receiver value source target).value? values =
        source.converted? target x := by
      rw [Instruction.value?, holds]
      rfl
    simp only [Instruction.isArithmetic, Bool.and_eq_true, Bool.not_eq_true'] at arithmetic
    intro code given
    rw [computed]
    exact ⟨receiver, rfl, numericCast_assigns typed holds arithmetic.1 arithmetic.2 code given⟩
  | integerCast receiver value subword direction =>
    obtain ⟨x, holds⟩ := reads value (List.mem_singleton_self _)
    intro code given
    obtain ⟨n, rfl, assigns⟩ := integerCast_assigns typed holds subword code given
    refine ⟨receiver, rfl, _, ?_, assigns⟩
    rw [Instruction.value?, holds]
    rfl
  | nop => exact absurd rfl other
  | _ => cases arithmetic

end Instructions

end Lowering

end ObjectBackend
