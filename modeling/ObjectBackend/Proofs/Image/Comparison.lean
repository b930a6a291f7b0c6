import Mathlib.Data.List.Basic
import ObjectBackend.Image.Environment
import ObjectBackend.Proofs.Target.Machine

/-!
# Three-way comparisons

The routine that compares two integers returns the sign of their comparison and leaves the memory
alone (`comparison_returns`). It needs nothing from outside, so there is an environment that
provides just these routines (`comparing`).
-/

namespace ObjectBackend.Environment

open Target

/-- Minus one, zero or one, as one number is less than, equal to or greater than another one. -/
def sign (a b : Int) : Int := if a < b then -1 else if b < a then 1 else 0

variable {host : Host} {type : Numeric} {r : Registers} {m : Memory} {a b : Int}

/-- The lines of the routine for integers of a type. -/
def comparisonLines (ir : IrType) : List (Line Label Label) :=
  let a := Value.register (.named "a")
  let b := Value.register (.named "b")
  let less := Value.register (.named "lt")
  let greater := Value.register (.named "gt")
  let lessInt := Value.register (.named "lt.i")
  let greaterInt := Value.register (.named "gt.i")
  [.define less (.icmp .slt ir a b), .define greater (.icmp .sgt ir a b),
    .define lessInt (.cast .zext ⟨.i1, less⟩ .i32),
    .define greaterInt (.cast .zext ⟨.i1, greater⟩ .i32),
    .define (.register (.named "r")) (.binary .sub .i32 greaterInt lessInt),
    .leave (.ret (some ⟨.i32, .register (.named "r")⟩))]

/-- The lines of the entry block of an integer comparison. -/
lemma line?_comparison (integer : type.isFloating = false) {σ : State Label}
    (label : σ.label = .entry) :
    (comparison type).line? σ = (comparisonLines (.ofKind type.kind))[σ.position]? := by
  cases type with
  | int | long =>
    rw [Function.line?, label]
    rfl
  | float | double => cases integer

/-- Only numbers are compared. -/
lemma run?_icmp_slt (ir : IrType) {x y : Value} (host : Host) (m : Memory)
    (first : x.word? r = some (.int a)) (second : y.word? r = some (.int b)) :
    (Instr.icmp .slt ir x y).run? host r m = some (some (.ofBool (decide (a < b))), m) := by
  simp [Instr.run?, first, second, Predicate.holds?]

/-- A comparison by signed order yields the flag of that order. -/
lemma run?_icmp_sgt (ir : IrType) {x y : Value} (host : Host) (m : Memory)
    (first : x.word? r = some (.int a)) (second : y.word? r = some (.int b)) :
    (Instr.icmp .sgt ir x y).run? host r m = some (some (.ofBool (decide (b < a))), m) := by
  simp [Instr.run?, first, second, Predicate.holds?]

/-- Widening a flag keeps whether it is set. -/
lemma run?_zext {x : Value} {p : Bool} (host : Host) (m : Memory)
    (flag : x.word? r = some (.ofBool p)) :
    (Instr.cast .zext ⟨.i1, x⟩ .i32).run? host r m = some (some (.ofBool p), m) := by
  have extended : CastOp.zext.eval? 1 32 p.toInt = some p.toInt := by cases p <;> rfl
  simp [Instr.run?, flag, Word.ofBool, Word.int?, IrType.intWidth?, IrType.isInteger,
    IrType.width?, extended]

/-- The sign is the difference of two truth values. -/
lemma run?_sub {x y : Value} (host : Host) (m : Memory)
    (greater : x.word? r = some (.ofBool (decide (b < a))))
    (less : y.word? r = some (.ofBool (decide (a < b)))) :
    (Instr.binary .sub .i32 x y).run? host r m = some (some (.int (sign a b)), m) := by
  have difference : BinaryOp.sub.eval? 32 (decide (b < a)).toInt (decide (a < b)).toInt =
      some (sign a b) := by
    rw [sign]
    split
    case isTrue less =>
      rw [decide_eq_true less, decide_eq_false (by omega)]
      rfl
    case isFalse less =>
      rw [decide_eq_false less]
      split
      case isTrue greater =>
        rw [decide_eq_true greater]
        rfl
      case isFalse greater =>
        rw [decide_eq_false greater]
        rfl
  simp [Instr.run?, greater, less, Word.ofBool, Word.int?, IrType.intWidth?, IrType.isInteger,
    IrType.width?, difference]

/-- The routine returns the sign of a comparison. -/
lemma comparison_returns (integer : type.isFloating = false) :
    (comparison type).Returns host [.int a, .int b] m (.int (sign a b)) m := by
  let r := (comparison type).arguments [.int a, .int b]
  let less : Word := .ofBool (decide (a < b))
  let greater : Word := .ofBool (decide (b < a))
  let σ₀ : State Label := .start r m
  let σ₁ := σ₀.set (.named "lt") less m
  let σ₂ := σ₁.set (.named "gt") greater m
  let σ₃ := σ₂.set (.named "lt.i") less m
  let σ₄ := σ₃.set (.named "gt.i") greater m
  let σ₅ := σ₄.set (.named "r") (.int (sign a b)) m
  have step₀ : (comparison type).step? host σ₀ = some σ₁ :=
    Function.step?_define (line?_comparison integer rfl) (run?_icmp_slt _ host m rfl rfl)
  have step₁ : (comparison type).step? host σ₁ = some σ₂ :=
    Function.step?_define (line?_comparison integer rfl) (run?_icmp_sgt _ host m rfl rfl)
  have step₂ : (comparison type).step? host σ₂ = some σ₃ :=
    Function.step?_define (line?_comparison integer rfl) (run?_zext host m rfl)
  have step₃ : (comparison type).step? host σ₃ = some σ₄ :=
    Function.step?_define (line?_comparison integer rfl) (run?_zext host m rfl)
  have step₄ : (comparison type).step? host σ₄ = some σ₅ :=
    Function.step?_define (line?_comparison integer rfl) (run?_sub host m rfl rfl)
  refine ⟨rfl, σ₅, ⟨.i32, .register (.named "r")⟩, ?_, line?_comparison integer rfl, rfl, rfl⟩
  exact .head step₀ (.head step₁ (.head step₂ (.head step₃ (.single step₄))))

/-- An environment in which integers can be compared and nothing else can be done. -/
def comparing : Host := fun s words m =>
  match s, words with
  | .runtime (.compare type), [.int a, .int b] =>
    if type.isFloating then none else some (some (.int (sign a b)), m)
  | _, _ => none

/-- The environment does what the routines do. -/
lemma comparing_provides (type : Numeric) : (comparison type).ProvidedBy comparing := by
  intro words m w m' returns
  -- it begins with a comparison, so it does not return unless it is given two numbers
  have begins : ∃ τ, (comparison type).step? comparing
      (.start ((comparison type).arguments words) m) = some τ := by
    obtain ⟨_, σ, o, runs, at', _⟩ := returns
    rcases runs.cases_head with rfl | ⟨τ, step, _⟩
    · cases type <;> cases at'
    · exact ⟨τ, step⟩
  obtain ⟨τ, step⟩ := begins
  obtain ⟨x, y, rfl⟩ := List.length_eq_two.1 returns.1
  have numbers : type.isFloating = false ∧ ∃ a b, x = .int a ∧ y = .int b := by
    cases type with
    | int | long => cases x <;> cases y <;> first | exact ⟨rfl, _, _, rfl, rfl⟩ | cases step
    | float | double => cases step
  obtain ⟨integer, a, b, rfl, rfl⟩ := numbers
  obtain ⟨rfl, rfl⟩ := returns.eq (comparison_returns integer)
  change (if type.isFloating = true then _ else _) = _
  rw [integer]
  rfl

end ObjectBackend.Environment
