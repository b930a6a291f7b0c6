import Mathlib.Algebra.Order.Field.Power
import Mathlib.Algebra.Order.Field.Rat
import Mathlib.Tactic.FieldSimp
import Mathlib.Tactic.GCongr
import Mathlib.Tactic.Lemma
import Mathlib.Tactic.Linarith
import Mathlib.Tactic.NormNum
import Mathlib.Tactic.Positivity
import Mathlib.Tactic.Ring
import ObjectBackend.Floating.Word

/-!
# Rounding

What a format makes of a quotient of natural numbers. The quotient is divided by the weight of the
last bit that a significand can have and rounded to a whole number; the word stands for that number
times the weight, unless the quotient is too great (`decode_roundRatio`). The number that is found
does not leave an interval between powers of two, and it exceeds the quotient by half of the last
bit at most.
-/

namespace ObjectBackend.Floating

variable {num den : Nat} {e : Int}

/-- Powers of two are positive. -/
lemma two_zpow_pos (e : Int) : (0 : ℚ) < 2 ^ e := zpow_pos (by norm_num) e

/-- Powers of two grow with the exponent. -/
lemma two_zpow_le {a b : Int} (le : a ≤ b) : (2 : ℚ) ^ a ≤ 2 ^ b :=
  zpow_le_zpow_right₀ (by norm_num) le

/-- A natural power of two and an integer one multiply by adding their exponents. -/
lemma two_pow_mul_zpow (n : Nat) (e : Int) : ((2 ^ n : Nat) : ℚ) * 2 ^ e = 2 ^ (n + e) := by
  rw [Nat.cast_pow, Nat.cast_ofNat, ← zpow_natCast, ← zpow_add₀ two_ne_zero]

/-- The ends of a scaled quotient are those of the quotient, divided by a power of two. -/
lemma scaleDown_ratio (num den : Nat) (e : Int) :
    ((scaleDown num den e).1 : ℚ) / (scaleDown num den e).2 = num / den / 2 ^ e := by
  rcases Int.eq_nat_or_neg e with ⟨k, rfl | rfl⟩
  · simp [scaleDown, div_div]
  · simp [scaleDown, mul_div_right_comm]

/-- Scaling down leaves a positive denominator positive. -/
lemma scaleDown_pos (num : Nat) (positive : 0 < den) (e : Int) : 0 < (scaleDown num den e).2 := by
  simp [scaleDown, positive]

/-- Whether a scaled quotient is less than one. -/
lemma scaleDown_lt (den_pos : 0 < den) (e : Int) :
    (scaleDown num den e).1 < (scaleDown num den e).2 ↔ (num / den : ℚ) < 2 ^ e := by
  have positive : (0 : ℚ) < (scaleDown num den e).2 := by exact_mod_cast scaleDown_pos _ den_pos e
  rw [← div_lt_one (two_zpow_pos e), ← scaleDown_ratio, div_lt_one positive, Nat.cast_lt]

/-- A positive quotient lies between two powers of two. -/
lemma binaryLog_spec (num_pos : 0 < num) (den_pos : 0 < den) :
    (2 : ℚ) ^ binaryLog num den ≤ num / den ∧ (num / den : ℚ) < 2 ^ (binaryLog num den + 1) := by
  have num_le : (2 : ℚ) ^ (num.log2 : Int) ≤ num := by
    exact_mod_cast Nat.log2_self_le num_pos.ne'
  have num_lt : (num : ℚ) < 2 ^ (num.log2 + 1 : Int) := by
    exact_mod_cast Nat.lt_log2_self
  have den_le : (2 : ℚ) ^ (den.log2 : Int) ≤ den := by
    exact_mod_cast Nat.log2_self_le den_pos.ne'
  have den_lt : (den : ℚ) < 2 ^ (den.log2 + 1 : Int) := by
    exact_mod_cast Nat.lt_log2_self
  have positive : (0 : ℚ) < den := by exact_mod_cast den_pos
  -- the difference of the two logarithms is off by at most one
  have upper : (num / den : ℚ) < 2 ^ ((num.log2 - den.log2 : Int) + 1) := by
    rw [div_lt_iff₀ positive]
    calc (num : ℚ) < 2 ^ (num.log2 + 1 : Int) := num_lt
      _ = 2 ^ ((num.log2 - den.log2 : Int) + 1) * 2 ^ (den.log2 : Int) := by
        rw [← zpow_add₀ two_ne_zero]
        congr 1
        ring
      _ ≤ 2 ^ ((num.log2 - den.log2 : Int) + 1) * den := by gcongr
  have lower : (2 : ℚ) ^ ((num.log2 - den.log2 : Int) - 1) ≤ num / den := by
    rw [le_div_iff₀ positive]
    calc (2 : ℚ) ^ ((num.log2 - den.log2 : Int) - 1) * den
        ≤ 2 ^ ((num.log2 - den.log2 : Int) - 1) * 2 ^ (den.log2 + 1 : Int) := by gcongr
      _ = 2 ^ (num.log2 : Int) := by
        rw [← zpow_add₀ two_ne_zero]
        congr 1
        ring
      _ ≤ num := num_le
  rw [binaryLog]
  dsimp only
  split
  case isTrue less =>
    rw [sub_add_cancel]
    exact ⟨lower, (scaleDown_lt den_pos _).1 less⟩
  case isFalse notLess =>
    exact ⟨not_lt.1 fun less => notLess ((scaleDown_lt den_pos _).2 less), upper⟩

/-- Rounding moves a quotient by one half at most. -/
lemma roundEven_spec (den_pos : 0 < den) :
    (num / den : ℚ) ≤ roundEven num den + 1 / 2 ∧ (roundEven num den : ℚ) ≤ num / den + 1 / 2 := by
  have positive : (0 : ℚ) < den := by exact_mod_cast den_pos
  have parts : (num : ℚ) = den * (num / den : Nat) + (num % den : Nat) := by
    exact_mod_cast (Nat.div_add_mod num den).symm
  have less : ((num % den : Nat) : ℚ) < den := by exact_mod_cast Nat.mod_lt num den_pos
  have quotient : (num / den : ℚ) = (num / den : Nat) + (num % den : Nat) / den := by
    rw [parts]
    field_simp
  have nonneg : (0 : ℚ) ≤ (num % den : Nat) / den := by positivity
  rw [roundEven]
  split
  case isTrue up =>
    have half : (1 / 2 : ℚ) ≤ (num % den : Nat) / den := by
      have twice : den ≤ 2 * (num % den) := by omega
      have twice : (den : ℚ) ≤ 2 * (num % den : Nat) := by exact_mod_cast twice
      rw [le_div_iff₀ positive]
      linarith
    have below : ((num % den : Nat) / den : ℚ) < 1 := (div_lt_one positive).2 less
    push_cast
    constructor <;> linarith
  case isFalse down =>
    have half : ((num % den : Nat) / den : ℚ) ≤ 1 / 2 := by
      have twice : 2 * (num % den) ≤ den := by omega
      have twice : 2 * ((num % den : Nat) : ℚ) ≤ den := by exact_mod_cast twice
      rw [div_le_iff₀ positive]
      linarith
    constructor <;> linarith

namespace Format

variable {f : Format}

/-- The exponent of the last bit that is kept of a quotient. -/
def lastExponent (f : Format) (num den : Nat) : Int :=
  max (binaryLog num den - f.fractionBits) f.unitExponent

/-- How often the weight of its last bit goes into a quotient, rounded. -/
def nearest (f : Format) (num den : Nat) : Nat :=
  roundEven (scaleDown num den (f.lastExponent num den)).1
    (scaleDown num den (f.lastExponent num den)).2

/-- The number that a format has for a quotient. -/
def rounded (f : Format) (num den : Nat) : ℚ :=
  f.nearest num den * 2 ^ f.lastExponent num den

/-- A ratio is rounded to the nearest significand in its binade, or to infinity if that is beyond
it. -/
lemma roundRatio_eq (num_pos : 0 < num) (den : Nat) :
    f.roundRatio num den =
      min ((f.lastExponent num den - f.unitExponent).toNat * 2 ^ f.fractionBits +
        f.nearest num den) f.infinity := by
  rw [roundRatio, if_neg num_pos.ne']
  rfl

/-- No number has a smaller last place than the subnormal ones. -/
lemma unitExponent_le_lastExponent (num den : Nat) : f.unitExponent ≤ f.lastExponent num den :=
  le_max_right _ _

/-- The nearest significand is half a unit off at most. -/
lemma nearest_spec (f : Format) (num : Nat) (den_pos : 0 < den) :
    (num / den / 2 ^ f.lastExponent num den : ℚ) ≤ f.nearest num den + 1 / 2 ∧
      (f.nearest num den : ℚ) ≤ num / den / 2 ^ f.lastExponent num den + 1 / 2 := by
  rw [← scaleDown_ratio]
  exact roundEven_spec (scaleDown_pos _ den_pos _)

/-- A whole number that is not less than the scaled quotient bounds what it is rounded to. -/
lemma nearest_le {bound : Nat} (den_pos : 0 < den)
    (le : (num / den : ℚ) ≤ bound * 2 ^ f.lastExponent num den) : f.nearest num den ≤ bound := by
  have scaled : (num / den / 2 ^ f.lastExponent num den : ℚ) ≤ bound :=
    (div_le_iff₀ (two_zpow_pos _)).2 le
  have near := (f.nearest_spec num den_pos).2
  have less : (f.nearest num den : ℚ) < bound + 1 := by linarith
  exact Nat.le_of_lt_succ (by exact_mod_cast less)

/-- A whole number that is not greater than the scaled quotient bounds what it is rounded to. -/
lemma le_nearest {bound : Nat} (den_pos : 0 < den)
    (le : (bound * 2 ^ f.lastExponent num den : ℚ) ≤ num / den) : bound ≤ f.nearest num den := by
  have scaled : (bound : ℚ) ≤ num / den / 2 ^ f.lastExponent num den :=
    (le_div_iff₀ (two_zpow_pos _)).2 le
  have near := (f.nearest_spec num den_pos).1
  have less : (bound : ℚ) < f.nearest num den + 1 := by linarith
  exact Nat.le_of_lt_succ (by exact_mod_cast less)

/-- What a quotient is rounded to may carry into one bit more. -/
lemma nearest_le_carry (num_pos : 0 < num) (den_pos : 0 < den) :
    f.nearest num den ≤ 2 ^ (f.fractionBits + 1) := by
  refine nearest_le den_pos ((binaryLog_spec num_pos den_pos).2.le.trans ?_)
  rw [two_pow_mul_zpow]
  refine two_zpow_le ?_
  have le : binaryLog num den - f.fractionBits ≤ f.lastExponent num den := le_max_left _ _
  push_cast
  omega

/-- The last place of a normal number is told by its binary logarithm. -/
lemma lastExponent_eq (normal : f.unitExponent < f.lastExponent num den) :
    f.lastExponent num den = binaryLog num den - f.fractionBits := by
  rw [lastExponent] at normal ⊢
  omega

/-- What a normal quotient is rounded to has its leading bit. -/
lemma le_nearest_of_normal (num_pos : 0 < num) (den_pos : 0 < den)
    (normal : f.unitExponent < f.lastExponent num den) :
    2 ^ f.fractionBits ≤ f.nearest num den := by
  refine le_nearest den_pos (le_trans ?_ (binaryLog_spec num_pos den_pos).1)
  rw [two_pow_mul_zpow, lastExponent_eq normal, add_sub_cancel]

/-- A quotient up to a power of two is rounded to a number up to it. -/
lemma rounded_le_two_zpow {k : Int} (num_pos : 0 < num) (den_pos : 0 < den)
    (unit_le : f.unitExponent ≤ k) (le : (num / den : ℚ) ≤ 2 ^ k) : f.rounded num den ≤ 2 ^ k := by
  have log_le : binaryLog num den ≤ k :=
    (zpow_le_zpow_iff_right₀ one_lt_two).1 ((binaryLog_spec num_pos den_pos).1.trans le)
  have last_le : f.lastExponent num den ≤ k := by
    rw [lastExponent]
    omega
  have power : ((2 ^ (k - f.lastExponent num den).toNat : Nat) : ℚ) * 2 ^ f.lastExponent num den =
      2 ^ k := by
    rw [two_pow_mul_zpow, Int.toNat_of_nonneg (by omega), sub_add_cancel]
  rw [← power] at le ⊢
  exact mul_le_mul_of_nonneg_right (by exact_mod_cast nearest_le den_pos le) (two_zpow_pos _).le

/-- A quotient from a power of two on is rounded to a number from it on. -/
lemma two_zpow_le_rounded {k : Int} (num_pos : 0 < num) (den_pos : 0 < den)
    (unit_le : f.unitExponent ≤ k) (le : (2 : ℚ) ^ k ≤ num / den) : 2 ^ k ≤ f.rounded num den := by
  have positive := two_zpow_pos (f.lastExponent num den)
  rcases le_or_gt (f.lastExponent num den) k with last_le | normal
  · have power : ((2 ^ (k - f.lastExponent num den).toNat : Nat) : ℚ) *
        2 ^ f.lastExponent num den = 2 ^ k := by
      rw [two_pow_mul_zpow, Int.toNat_of_nonneg (by omega), sub_add_cancel]
    rw [← power] at le ⊢
    exact mul_le_mul_of_nonneg_right (by exact_mod_cast le_nearest den_pos le) positive.le
  · have leading := le_nearest_of_normal (f := f) num_pos den_pos (unit_le.trans_lt normal)
    calc (2 : ℚ) ^ k ≤ 2 ^ (f.fractionBits + f.lastExponent num den : Int) :=
          two_zpow_le (by omega)
      _ = ((2 ^ f.fractionBits : Nat) : ℚ) * 2 ^ f.lastExponent num den :=
          (two_pow_mul_zpow _ _).symm
      _ ≤ f.rounded num den :=
          mul_le_mul_of_nonneg_right (by exact_mod_cast leading) positive.le

/-- Rounding a normal quotient adds half of its last bit at most. -/
lemma rounded_le_add (num_pos : 0 < num) (den_pos : 0 < den)
    (normal : (2 : ℚ) ^ (f.unitExponent + f.fractionBits) ≤ num / den) :
    f.rounded num den ≤ num / den + num / den / 2 ^ (f.fractionBits + 1) := by
  have positive := two_zpow_pos (f.lastExponent num den)
  obtain ⟨log_le, lt_log⟩ := binaryLog_spec num_pos den_pos
  have unit_lt : f.unitExponent + f.fractionBits < binaryLog num den + 1 :=
    (zpow_lt_zpow_iff_right₀ one_lt_two).1 (normal.trans_lt lt_log)
  have last : f.lastExponent num den = binaryLog num den - f.fractionBits := by
    rw [lastExponent]
    omega
  have bit : (2 : ℚ) ^ f.lastExponent num den * 2 ^ f.fractionBits ≤ num / den := by
    rw [last, ← zpow_natCast, ← zpow_add₀ two_ne_zero, sub_add_cancel]
    exact log_le
  have half : (2 : ℚ) ^ f.lastExponent num den / 2 ≤ num / den / 2 ^ (f.fractionBits + 1) := by
    rw [le_div_iff₀ (by positivity), pow_succ]
    linarith
  have near := mul_le_mul_of_nonneg_right (f.nearest_spec num den_pos).2 positive.le
  rw [add_mul, div_mul_cancel₀ _ positive.ne'] at near
  rw [rounded]
  linarith

/-- The word of a number without sign and below infinity. -/
lemma decode_of_lt {word : Nat} (less : word < f.infinity) :
    f.decode word =
      if word / 2 ^ f.fractionBits = 0 then .finite false (word % 2 ^ f.fractionBits) f.unitExponent
      else .finite false (2 ^ f.fractionBits + word % 2 ^ f.fractionBits)
        (f.unitExponent + (word / 2 ^ f.fractionBits - 1 : Nat)) := by
  have field : word / 2 ^ f.fractionBits < 2 ^ f.exponentBits - 1 :=
    Nat.div_lt_of_lt_mul (by rwa [Nat.mul_comm])
  have unsigned : word / 2 ^ (f.fractionBits + f.exponentBits) = 0 := by
    rw [Nat.pow_add, ← Nat.div_div_eq_div_mul]
    exact Nat.div_eq_of_lt (field.trans_le (Nat.sub_le _ _))
  have whole : word / 2 ^ f.fractionBits % 2 ^ f.exponentBits = word / 2 ^ f.fractionBits :=
    Nat.mod_eq_of_lt (field.trans_le (Nat.sub_le _ _))
  simp only [decode, signWeight, Nat.pow_eq, unsigned, whole, if_neg field.ne]
  rfl

/-- The word of a multiple of the last bit's weight stands for it, carry or not. -/
lemma exists_decode_add {k r : Nat} (less : k * 2 ^ f.fractionBits + r < f.infinity)
    (r_le : r ≤ 2 ^ (f.fractionBits + 1)) (normal : 0 < k → 2 ^ f.fractionBits ≤ r) :
    ∃ m e, f.decode (k * 2 ^ f.fractionBits + r) = .finite false m e ∧
      (m * 2 ^ e : ℚ) = r * 2 ^ (f.unitExponent + k) := by
  have positive : 0 < 2 ^ f.fractionBits := Nat.two_pow_pos _
  rw [decode_of_lt less]
  rw [Nat.pow_succ] at r_le
  rcases lt_or_ge r (2 ^ f.fractionBits) with small | large
  · obtain rfl : k = 0 := by
      by_contra nonzero
      exact absurd (normal (Nat.pos_of_ne_zero nonzero)) (by omega)
    rw [Nat.zero_mul, Nat.zero_add, if_pos (Nat.div_eq_of_lt small), Nat.mod_eq_of_lt small]
    exact ⟨_, _, rfl, by simp⟩
  rcases r_le.lt_or_eq with noCarry | carry
  · have once : r / 2 ^ f.fractionBits = 1 := Nat.div_eq_of_lt_le (by omega) (by omega)
    have field : (k * 2 ^ f.fractionBits + r) / 2 ^ f.fractionBits = k + 1 := by
      rw [Nat.mul_comm, Nat.mul_add_div positive, once]
    have fraction : (k * 2 ^ f.fractionBits + r) % 2 ^ f.fractionBits = r - 2 ^ f.fractionBits := by
      rw [Nat.mul_comm, Nat.mul_add_mod, Nat.mod_eq_sub_mod large, Nat.mod_eq_of_lt (by omega)]
    rw [field, fraction, if_neg (Nat.succ_ne_zero k), Nat.add_sub_cancel, Nat.add_sub_cancel' large]
    exact ⟨_, _, rfl, rfl⟩
  · have field : (k * 2 ^ f.fractionBits + r) / 2 ^ f.fractionBits = k + 2 := by
      rw [carry, Nat.mul_comm, ← Nat.mul_add, Nat.mul_div_cancel_left _ positive]
    have fraction : (k * 2 ^ f.fractionBits + r) % 2 ^ f.fractionBits = 0 := by
      rw [carry, Nat.mul_comm, ← Nat.mul_add, Nat.mul_mod_right]
    rw [field, fraction, if_neg (Nat.succ_ne_zero _)]
    refine ⟨_, _, rfl, ?_⟩
    rw [carry, Nat.add_zero, Nat.cast_mul, mul_assoc]
    congr 1
    rw [Nat.add_sub_cancel (m := 1), Nat.cast_succ, ← add_assoc, zpow_add_one₀ two_ne_zero,
      mul_comm]
    rfl

/-- A word stands for a number if its exponent field is not full. -/
lemma decode_eq_finite_iff {word : Nat} : (∃ s m e, f.decode word = .finite s m e) ↔
    word / 2 ^ f.fractionBits % 2 ^ f.exponentBits ≠ 2 ^ f.exponentBits - 1 := by
  simp only [decode, Nat.pow_eq]
  constructor
  · rintro ⟨s, m, e, eq⟩ full
    rw [if_pos full] at eq
    split at eq <;> cases eq
  · intro other
    rw [if_neg other]
    split <;> exact ⟨_, _, _, rfl⟩

/-- The exponent of the last bit of the greatest numbers. -/
def greatestExponent (f : Format) : Int := f.unitExponent + (2 ^ f.exponentBits - 3 : Nat)

/-- Half of the last bit above the greatest number. -/
def limit (f : Format) : ℚ := (2 ^ (f.fractionBits + 1) - 1 / 2) * 2 ^ f.greatestExponent

/-- Below the limit the last place is that of a finite number. -/
lemma lastExponent_le_greatest (num_pos : 0 < num) (den_pos : 0 < den)
    (less : (num / den : ℚ) < f.limit) : f.lastExponent num den ≤ f.greatestExponent := by
  by_contra greater
  have normal : f.unitExponent < f.lastExponent num den := by
    rw [greatestExponent] at greater
    omega
  have power : (2 : ℚ) ^ (f.fractionBits + 1) * 2 ^ f.greatestExponent ≤ num / den := by
    rw [← zpow_natCast, ← zpow_add₀ two_ne_zero]
    refine le_trans (two_zpow_le ?_) (binaryLog_spec num_pos den_pos).1
    rw [lastExponent_eq normal] at greater
    push_cast
    omega
  have below : f.limit < 2 ^ (f.fractionBits + 1) * 2 ^ f.greatestExponent :=
    mul_lt_mul_of_pos_right (by linarith) (two_zpow_pos _)
  linarith

/-- In the topmost binade, what is below the limit is rounded to a significand that fits. -/
lemma nearest_lt_of_greatest (den_pos : 0 < den) (less : (num / den : ℚ) < f.limit)
    (greatest : f.lastExponent num den = f.greatestExponent) :
    f.nearest num den < 2 ^ (f.fractionBits + 1) := by
  have near := (f.nearest_spec num den_pos).2
  have scaled : (num / den / 2 ^ f.lastExponent num den : ℚ) <
      2 ^ (f.fractionBits + 1) - 1 / 2 := by
    rw [greatest, div_lt_iff₀ (two_zpow_pos _)]
    exact less
  have below : (f.nearest num den : ℚ) < 2 ^ (f.fractionBits + 1) := by linarith
  exact_mod_cast below

/-- A quotient below the limit is not rounded to infinity. -/
lemma word_lt_infinity (wide : 1 < f.exponentBits) (num_pos : 0 < num) (den_pos : 0 < den)
    (less : (num / den : ℚ) < f.limit) :
    (f.lastExponent num den - f.unitExponent).toNat * 2 ^ f.fractionBits + f.nearest num den <
      f.infinity := by
  have size : 4 ≤ 2 ^ f.exponentBits := Nat.pow_le_pow_right (by decide : 0 < 2) wide
  have infinity : f.infinity = (2 ^ f.exponentBits - 3 + 2) * 2 ^ f.fractionBits := by
    rw [Format.infinity, Nat.pow_eq, Nat.pow_eq]
    congr 1
    omega
  have last_le := lastExponent_le_greatest num_pos den_pos less
  have unit_le := unitExponent_le_lastExponent (f := f) num den
  rw [infinity]
  rcases last_le.lt_or_eq with below | greatest
  · have carry := nearest_le_carry (f := f) num_pos den_pos
    have steps : (f.lastExponent num den - f.unitExponent).toNat + 1 ≤ 2 ^ f.exponentBits - 3 := by
      rw [greatestExponent] at below
      omega
    have scaled := Nat.mul_le_mul_right (2 ^ f.fractionBits) steps
    have positive : 0 < 2 ^ f.fractionBits := Nat.two_pow_pos _
    rw [Nat.pow_succ] at carry
    rw [Nat.add_mul] at scaled ⊢
    omega
  · have noCarry := nearest_lt_of_greatest den_pos less greatest
    have steps : (f.lastExponent num den - f.unitExponent).toNat = 2 ^ f.exponentBits - 3 := by
      rw [greatest, greatestExponent]
      omega
    rw [Nat.pow_succ] at noCarry
    rw [steps, Nat.add_mul]
    omega

/-- The word for a quotient stands for the number that the quotient is rounded to. -/
theorem decode_roundRatio (wide : 1 < f.exponentBits) (num_pos : 0 < num) (den_pos : 0 < den)
    (less : (num / den : ℚ) < f.limit) :
    f.roundRatio num den < f.infinity ∧ ∃ m e, f.decode (f.roundRatio num den) = .finite false m e ∧
      (m * 2 ^ e : ℚ) = f.rounded num den := by
  have finite := word_lt_infinity wide num_pos den_pos less
  have unit_le := unitExponent_le_lastExponent (f := f) num den
  rw [roundRatio_eq num_pos, min_eq_left finite.le]
  refine ⟨finite, ?_⟩
  obtain ⟨m, e, decoded, value⟩ := exists_decode_add finite (nearest_le_carry num_pos den_pos)
    fun steps => le_nearest_of_normal num_pos den_pos (by omega)
  rw [Int.toNat_of_nonneg (by omega), add_sub_cancel] at value
  exact ⟨m, e, decoded, value⟩

/-- The significand and the exponent of a number lie within the bounds of the format. -/
lemma decode_bounds (wide : 1 < f.exponentBits) {word m : Nat} {s : Bool} {e : Int}
    (decoded : f.decode word = .finite s m e) :
    m < 2 ^ (f.fractionBits + 1) ∧ e ≤ f.greatestExponent := by
  have size : 4 ≤ 2 ^ f.exponentBits := Nat.pow_le_pow_right (by decide : 0 < 2) wide
  have fraction : word % 2 ^ f.fractionBits < 2 ^ f.fractionBits :=
    Nat.mod_lt _ (Nat.two_pow_pos _)
  have field : word / 2 ^ f.fractionBits % 2 ^ f.exponentBits < 2 ^ f.exponentBits :=
    Nat.mod_lt _ (Nat.two_pow_pos _)
  simp only [decode, Nat.pow_eq] at decoded
  generalize word / 2 ^ f.fractionBits % 2 ^ f.exponentBits = field at *
  rw [Nat.pow_succ, greatestExponent]
  split at decoded
  case isTrue => split at decoded <;> cases decoded
  case isFalse =>
    split at decoded <;> cases decoded <;> constructor <;> omega

end Format

end ObjectBackend.Floating
