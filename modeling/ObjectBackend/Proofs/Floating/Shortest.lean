import Mathlib.Data.Nat.Cast.Order.Field
import ObjectBackend.Proofs.Floating.Reading

/-!
# Shortest decimals

The search for a decimal that stays in the interval of a number succeeds with seventeen digits at
the latest, as the grid is then finer than the interval (`exists_nearest?`). So the digits that are
written exceed the number by half of its last bit at most (`shortest_spec`), and the numeral that
they are laid out as is plain and can be read.
-/

namespace ObjectBackend.Floating

open Binary64

section Point

variable {n num den : Nat}

/-- Each number has a digit. -/
lemma digitCount_pos (n : Nat) : 0 < digitCount n := Nat.length_toDigits_pos

/-- A number is below the power of ten of as many zeros as it has digits. -/
lemma lt_of_digitCount (n : Nat) : n < 10 ^ digitCount n :=
  (Nat.length_toDigits_le_iff (by decide) (digitCount_pos n)).1 le_rfl

/-- A positive number is at least the power of ten of as many digits. -/
lemma le_of_digitCount (n_pos : 0 < n) : 10 ^ (digitCount n - 1) ≤ n := by
  rcases Nat.eq_zero_or_pos (digitCount n - 1) with one | more
  · rw [one]
    exact n_pos
  · refine not_lt.1 fun less => ?_
    have le : digitCount n ≤ digitCount n - 1 :=
      (Nat.length_toDigits_le_iff (by decide) more).2 less
    omega

/-- Greater numbers have no fewer digits. -/
lemma digitCount_mono {m : Nat} (le : m ≤ n) : digitCount m ≤ digitCount n :=
  (Nat.length_toDigits_le_iff (by decide) (digitCount_pos n)).2 (le.trans_lt (lt_of_digitCount n))

/-- The lower bound of a positive number by its digits, over the rationals. -/
lemma zpow_digitCount_le (n_pos : 0 < n) : (10 : ℚ) ^ (digitCount n - 1 : Int) ≤ n := by
  have le := le_of_digitCount n_pos
  have cast : ((10 ^ (digitCount n - 1) : Nat) : ℚ) = 10 ^ (digitCount n - 1 : Int) := by
    rw [Nat.cast_pow, Nat.cast_ofNat, ← zpow_natCast, Nat.cast_sub (digitCount_pos n), Nat.cast_one]
  rw [← cast]
  exact_mod_cast le

/-- The upper bound of a number by its digits, over the rationals. -/
lemma lt_zpow_digitCount (n : Nat) : (n : ℚ) < 10 ^ (digitCount n : Int) := by
  rw [zpow_natCast]
  exact_mod_cast lt_of_digitCount n

/-- The first digit of a quotient stands right behind its point. -/
lemma decimalPoint_spec (num_pos : 0 < num) (den_pos : 0 < den) :
    (10 : ℚ) ^ (decimalPoint num den - 1) ≤ num / den ∧
      (num / den : ℚ) < 10 ^ decimalPoint num den := by
  have positive : (0 : ℚ) < den := by exact_mod_cast den_pos
  rw [decimalPoint]
  split
  case isTrue whole =>
    have quotient_pos : 0 < num / den := Nat.div_pos whole den_pos
    constructor
    · exact (zpow_digitCount_le quotient_pos).trans Nat.cast_div_le
    · rw [div_lt_iff₀ positive, zpow_natCast]
      have less : num < 10 ^ digitCount (num / den) * den :=
        (Nat.div_lt_iff_lt_mul den_pos).1 (lt_of_digitCount _)
      exact_mod_cast less
  case isFalse part =>
    -- below one, the first digit stands at one of two places, which `tenth` tells apart
    have count_le : digitCount num ≤ digitCount den := digitCount_mono (by omega)
    have shift : ((digitCount den - digitCount num : Nat) : Int) =
        digitCount den - digitCount num :=
      Int.ofNat_sub count_le
    have lower : (10 : ℚ) ^ (digitCount num - digitCount den - 1 : Int) ≤ num / den := by
      rw [le_div_iff₀ positive]
      calc (10 : ℚ) ^ (digitCount num - digitCount den - 1 : Int) * den
          ≤ 10 ^ (digitCount num - digitCount den - 1 : Int) * 10 ^ (digitCount den : Int) := by
            gcongr
            exact (lt_zpow_digitCount den).le
        _ = 10 ^ (digitCount num - 1 : Int) := by
            rw [← zpow_add₀ (by norm_num)]
            congr 1
            ring
        _ ≤ num := zpow_digitCount_le num_pos
    have upper : (num / den : ℚ) < 10 ^ (digitCount num - digitCount den + 1 : Int) := by
      rw [div_lt_iff₀ positive]
      calc (num : ℚ) < 10 ^ (digitCount num : Int) := lt_zpow_digitCount num
        _ = 10 ^ (digitCount num - digitCount den + 1 : Int) * 10 ^ (digitCount den - 1 : Int) := by
            rw [← zpow_add₀ (by norm_num)]
            congr 1
            ring
        _ ≤ 10 ^ (digitCount num - digitCount den + 1 : Int) * den := by
            gcongr
            exact zpow_digitCount_le den_pos
    have tenth : den ≤ num * 10 ^ (digitCount den - digitCount num) ↔
        (10 : ℚ) ^ (digitCount num - digitCount den : Int) ≤ num / den := by
      rw [le_div_iff₀ positive, ← neg_sub, ← shift, zpow_neg, zpow_natCast,
        inv_mul_le_iff₀ (by positivity), mul_comm]
      norm_cast
    dsimp only
    split
    case isTrue first =>
      rw [shift]
      refine ⟨?_, upper.trans_eq ?_⟩
      · rw [sub_sub_cancel_left, neg_sub]
        exact tenth.1 first
      · congr 1
        ring
    case isFalse second =>
      rw [shift, neg_sub]
      exact ⟨lower, not_le.1 fun le => second (tenth.2 le)⟩

end Point

namespace Grid

variable {g : Grid} {tie : Tie} {c : Nat}

/-- A multiple that a grid accepts lies between its bounds. -/
lemma of_accepts (accepts : g.accepts c = true) : g.lower ≤ c * g.step ∧ c * g.step ≤ g.upper := by
  rw [Grid.accepts] at accepts
  split at accepts <;> simp only [Bool.and_eq_true, decide_eq_true_eq] at accepts <;> omega

/-- A multiple that lies strictly between the bounds of a grid is accepted. -/
lemma accepts_of_lt (lower : g.lower < c * g.step) (upper : c * g.step < g.upper) :
    g.accepts c = true := by
  rw [Grid.accepts]
  split <;> simp only [Bool.and_eq_true, decide_eq_true_eq] <;> omega

/-- What is found is accepted, and it is one of the neighbours of the number. -/
lemma of_nearest? (found : g.nearest? tie = some c) :
    g.accepts c = true ∧ c ≤ g.value / g.step + 1 := by
  unfold nearest? at found
  dsimp only at found
  split at found
  case h_1 => cases found
  case h_2 below _ =>
    cases found
    exact ⟨below, Nat.le_succ _⟩
  case h_3 _ above =>
    cases found
    exact ⟨above, le_rfl⟩
  case h_4 below above =>
    have either : c = g.value / g.step ∨ c = g.value / g.step + 1 := by
      split at found
      case isTrue => exact .inl (Option.some.inj found).symm
      case isFalse =>
        split at found
        case isTrue => exact .inr (Option.some.inj found).symm
        case isFalse =>
          cases tie with
          | up => exact .inr (Option.some.inj found).symm
          | even =>
            simp only [Option.some.injEq] at found
            split at found
            case isTrue => exact .inl found.symm
            case isFalse => exact .inr found.symm
    rcases either with rfl | rfl
    · exact ⟨below, Nat.le_succ _⟩
    · exact ⟨above, le_rfl⟩

/-- On a grid that is finer than the interval one of the neighbours is accepted. -/
lemma exists_nearest? (step_pos : 0 < g.step) (lower : g.lower < g.value)
    (upper : g.value < g.upper) (fine : g.lower + g.step < g.upper) :
    ∃ c, g.nearest? tie = some c := by
  have below_le : g.value / g.step * g.step ≤ g.value := Nat.div_mul_le_self _ _
  have lt_above : g.value < (g.value / g.step + 1) * g.step := by
    rw [Nat.mul_comm]
    exact Nat.lt_mul_div_succ _ step_pos
  have either : g.accepts (g.value / g.step) = true ∨ g.accepts (g.value / g.step + 1) = true := by
    rcases lt_or_ge g.lower (g.value / g.step * g.step) with inside | outside
    · exact .inl (accepts_of_lt inside (below_le.trans_lt upper))
    · rw [Nat.add_mul, Nat.one_mul] at lt_above
      refine .inr (accepts_of_lt ?_ ?_) <;> rw [Nat.add_mul, Nat.one_mul] <;> omega
  unfold nearest?
  dsimp only
  split
  case h_1 below above => simp [below, above] at either
  case h_2 => exact ⟨_, rfl⟩
  case h_3 => exact ⟨_, rfl⟩
  case h_4 =>
    split
    case isTrue => exact ⟨_, rfl⟩
    case isFalse =>
      split
      case isTrue => exact ⟨_, rfl⟩
      case isFalse => cases tie <;> exact ⟨_, rfl⟩

end Grid

/-- A grid of powers of ten around `significand * 2 ^ exponent`. All fields are multiples of one
scale; the interval reaches down by one or two quarters of the last bit. -/
structure Grid.Scaled (g : Grid) (significand : Nat) (exponent power : Int) (gap scale : Nat) :
    Prop where
  scale_pos : 0 < scale
  step_pos : 0 < g.step
  value : g.value = 4 * significand * scale
  lower : g.lower = (4 * significand - gap) * scale
  upper : g.upper = (4 * significand + 2) * scale
  ratio : (scale * 10 ^ power : ℚ) = g.step * 2 ^ (exponent - 2)

variable {f : Format} {significand : Nat} {exponent : Int}

/-- A power of ten is a ratio of natural ones. -/
lemma ten_pow_toNat (power : Int) :
    (10 : ℚ) ^ (-power).toNat * 10 ^ power = 10 ^ power.toNat := by
  rcases Int.eq_nat_or_neg power with ⟨k, rfl | rfl⟩
  · simp
  · simp

/-- The grid around a float is scaled by some common factor, its gap to the number below being
halved at a power of two. -/
lemma Format.exists_scaled (f : Format) (significand : Nat) (exponent point : Int) (count : Nat) :
    ∃ gap scale, (gap = 1 ∧ significand = 2 ^ f.fractionBits ∨ gap = 2) ∧
      (f.grid significand exponent point count).Scaled significand exponent (point - count) gap
        scale := by
  have quotient := scaleDown_ratio 1 1 (2 - exponent)
  have den_pos := scaleDown_pos 1 Nat.one_pos (2 - exponent)
  have num_pos : 0 < (scaleDown 1 1 (2 - exponent)).1 := by simp [scaleDown]
  rw [grid]
  generalize scaleDown 1 1 (2 - exponent) = ends at *
  obtain ⟨num, den⟩ := ends
  refine ⟨_, _, ?_, ?_, ?_, rfl, rfl, rfl, ?_⟩
  · split
    case isTrue least => exact .inl ⟨rfl, least.1⟩
    case isFalse => exact .inr rfl
  · exact Nat.mul_pos num_pos (Nat.pow_pos (by decide))
  · exact Nat.mul_pos den_pos (Nat.pow_pos (by decide))
  · have positive : (0 : ℚ) < den := by exact_mod_cast den_pos
    have ends : (num : ℚ) = den * 2 ^ (exponent - 2) := by
      rw [← neg_sub 2 exponent, zpow_neg]
      rw [div_eq_iff positive.ne'] at quotient
      rw [quotient]
      simp
      ring
    push_cast [Nat.pow_eq]
    rw [mul_assoc, ten_pow_toNat, ends]
    ring

/-- Grids are measured in quarters of the last bit. -/
lemma two_zpow_eq (exponent : Int) : (2 : ℚ) ^ exponent = 4 * 2 ^ (exponent - 2) := by
  rw [zpow_sub₀ two_ne_zero]
  norm_num
  ring

/-- With seventeen digits some decimal is accepted, as the grid is finer than the interval. -/
lemma Format.exists_accepted {tie : Tie} {point : Int} (positive : 0 < significand)
    (less : significand < 2 ^ 53) (short : f.fractionBits ≤ 52)
    (point_le : (10 : ℚ) ^ (point - 1) ≤ significand * 2 ^ exponent) :
    ∃ c, (f.grid significand exponent point 17).nearest? tie = some c := by
  obtain ⟨gap, scale, gaps, scaled⟩ := f.exists_scaled significand exponent point 17
  have gap_pos : 0 < gap ∧ gap ≤ 2 := by omega
  -- seventeen digits are finer than the gaps around a real, also below a power of two
  have close : 4 * significand < (2 + gap) * 10 ^ 16 := by
    rcases gaps with ⟨rfl, least⟩ | rfl
    · have le : significand ≤ 2 ^ 52 := least ▸ Nat.pow_le_pow_right (by decide) short
      omega
    · omega
  have close : (4 * significand : ℚ) < (2 + gap) * 10 ^ 16 := by exact_mod_cast close
  have fine : (f.grid significand exponent point 17).step < (2 + gap) * scale := by
    have bit := two_zpow_pos (exponent - 2)
    have power : (10 : ℚ) ^ (point - (17 : Nat)) * 10 ^ 16 = 10 ^ (point - 1) := by
      rw [← zpow_natCast, ← zpow_add₀ (by norm_num)]
      congr 1
      push_cast
      ring
    have scale_pos : (0 : ℚ) < scale := by exact_mod_cast scaled.scale_pos
    have finer : (10 : ℚ) ^ (point - (17 : Nat)) < (2 + gap) * 2 ^ (exponent - 2) := by
      refine lt_of_mul_lt_mul_right ?_ (by positivity : (0 : ℚ) ≤ 10 ^ 16)
      rw [power]
      calc (10 : ℚ) ^ (point - 1) ≤ significand * 2 ^ exponent := point_le
        _ = 4 * significand * 2 ^ (exponent - 2) := by rw [two_zpow_eq exponent]; ring
        _ < (2 + gap) * 10 ^ 16 * 2 ^ (exponent - 2) := mul_lt_mul_of_pos_right close bit
        _ = (2 + gap) * 2 ^ (exponent - 2) * 10 ^ 16 := by ring
    have scaledStep := mul_lt_mul_of_pos_left finer scale_pos
    rw [scaled.ratio, ← mul_assoc] at scaledStep
    have less := lt_of_mul_lt_mul_right scaledStep bit.le
    rw [Nat.mul_comm]
    exact_mod_cast less
  refine Grid.exists_nearest? scaled.step_pos ?_ ?_ ?_
  · rw [scaled.lower, scaled.value]
    exact Nat.mul_lt_mul_of_pos_right (by omega) scaled.scale_pos
  · rw [scaled.value, scaled.upper]
    exact Nat.mul_lt_mul_of_pos_right (by omega) scaled.scale_pos
  · have upper : (4 * significand + 2) * scale =
        (4 * significand - gap) * scale + (2 + gap) * scale := by
      rw [← Nat.add_mul]
      congr 1
      omega
    rw [scaled.lower, scaled.upper, upper]
    omega

/-- What is accepted is positive, has no more digits than the grid, and exceeds the number by half
of its last bit at most. -/
lemma Format.accepted_spec {tie : Tie} {point : Int} {count c : Nat} (positive : 0 < significand)
    (lt_point : (significand * 2 ^ exponent : ℚ) < 10 ^ point)
    (found : (f.grid significand exponent point count).nearest? tie = some c) :
    0 < c ∧ c ≤ 10 ^ count ∧
      (c * 10 ^ (point - count) : ℚ) ≤ (significand + 1 / 2) * 2 ^ exponent := by
  obtain ⟨gap, scale, gaps, scaled⟩ := f.exists_scaled significand exponent point count
  obtain ⟨accepts, c_le⟩ := Grid.of_nearest? found
  obtain ⟨lower, upper⟩ := Grid.of_accepts accepts
  have scale_pos : (0 : ℚ) < scale := by exact_mod_cast scaled.scale_pos
  have bit := two_zpow_pos (exponent - 2)
  refine ⟨?_, ?_, ?_⟩
  · -- zero lies below everything that is accepted
    refine Nat.pos_of_ne_zero fun zero => ?_
    rw [zero, Nat.zero_mul, scaled.lower] at lower
    have lower_pos : 0 < (4 * significand - gap) * scale :=
      Nat.mul_pos (by omega) scaled.scale_pos
    omega
  · -- the value is less than `10 ^ count` steps, and at most one is added to its quotient
    have below : (f.grid significand exponent point count).value <
        10 ^ count * (f.grid significand exponent point count).step := by
      have power : (10 : ℚ) ^ point = 10 ^ (point - count) * 10 ^ count := by
        rw [← zpow_natCast, ← zpow_add₀ (by norm_num), sub_add_cancel]
      have weighed : (4 * significand * scale * 2 ^ (exponent - 2) : ℚ) <
          10 ^ count * (f.grid significand exponent point count).step * 2 ^ (exponent - 2) := by
        calc (4 * significand * scale * 2 ^ (exponent - 2) : ℚ)
            = significand * 2 ^ exponent * scale := by rw [two_zpow_eq exponent]; ring
          _ < 10 ^ point * scale := mul_lt_mul_of_pos_right lt_point scale_pos
          _ = scale * 10 ^ (point - count) * 10 ^ count := by rw [power]; ring
          _ = 10 ^ count * (f.grid significand exponent point count).step *
              2 ^ (exponent - 2) := by rw [scaled.ratio]; ring
      rw [scaled.value]
      exact_mod_cast lt_of_mul_lt_mul_right weighed bit.le
    have less := (Nat.div_lt_iff_lt_mul scaled.step_pos).2 below
    omega
  · have upper : (c * (f.grid significand exponent point count).step : ℚ) ≤
        (4 * significand + 2) * scale := by
      rw [scaled.upper] at upper
      exact_mod_cast upper
    have weighed := mul_le_mul_of_nonneg_right upper bit.le
    rw [mul_assoc, ← scaled.ratio] at weighed
    refine le_of_mul_le_mul_right ?_ scale_pos
    rw [two_zpow_eq exponent]
    linarith

/-- The decimal of a whole number times a power of ten, without the zeros at its end. -/
def Decimal.ofScaled (n : Nat) (power : Int) : Decimal :=
  { digits := ((Nat.toDigits 10 n).reverse.dropWhile (· == '0')).reverse
    point := (Nat.toDigits 10 n).length + power }

/-- The shortest decimal of a number exceeds it by half of its last bit at most. -/
theorem Format.shortest_spec (tie : Tie) (exponent : Int) (positive : 0 < significand)
    (less : significand < 2 ^ 53) (short : f.fractionBits ≤ 52) :
    ∃ (n : Nat) (power : Int), 0 < n ∧ n ≤ 10 ^ 17 ∧
      (n * 10 ^ power : ℚ) ≤ (significand + 1 / 2) * 2 ^ exponent ∧
      f.shortest tie significand exponent = .ofScaled n power := by
  have quotient := scaleDown_ratio significand 1 (-exponent)
  rw [Nat.cast_one, div_one, zpow_neg, div_inv_eq_mul] at quotient
  have den_pos := scaleDown_pos significand Nat.one_pos (-exponent)
  have num_pos : 0 < (scaleDown significand 1 (-exponent)).1 :=
    Nat.mul_pos positive (Nat.pow_pos (by decide))
  obtain ⟨point_le, lt_point⟩ := decimalPoint_spec num_pos den_pos
  rw [quotient] at point_le lt_point
  rw [shortest]
  dsimp only
  generalize decimalPoint _ _ = point at *
  have search : ((List.range' 1 17).findSome? fun count =>
      ((f.grid significand exponent point count).nearest? tie).map ((·, count))).isSome = true := by
    obtain ⟨c, found⟩ : ∃ c, (f.grid significand exponent point 17).nearest? tie = some c :=
      exists_accepted positive less short point_le
    rw [List.findSome?_isSome_iff]
    exact ⟨17, by decide, by rw [found]; rfl⟩
  obtain ⟨⟨c, count⟩, found⟩ := Option.isSome_iff_exists.1 search
  obtain ⟨count', mem, accepted⟩ := List.exists_of_findSome?_eq_some found
  obtain ⟨c', nearest, eq⟩ := Option.map_eq_some_iff.1 accepted
  cases eq
  obtain ⟨c_pos, c_le, bounded⟩ := accepted_spec positive lt_point nearest
  have count_le : count ≤ 17 := by
    rw [List.mem_range'_1] at mem
    omega
  rw [found]
  exact ⟨c, point - count, c_pos, c_le.trans (Nat.pow_le_pow_right (by decide) count_le), bounded,
    rfl⟩

/-- What is left of digits without the zeros at their end. -/
lemma exists_zeros (digits : List Char) : ∃ count,
    digits = (digits.reverse.dropWhile (· == '0')).reverse ++ List.replicate count '0' := by
  have parts := List.takeWhile_append_dropWhile (p := (· == '0')) (l := digits.reverse)
  have zeros : digits.reverse.takeWhile (· == '0') =
      List.replicate (digits.reverse.takeWhile (· == '0')).length '0' :=
    List.eq_replicate_of_mem fun c mem => by
      simpa using List.all_eq_true.1 List.all_takeWhile c mem
  refine ⟨(digits.reverse.takeWhile (· == '0')).length, ?_⟩
  have whole := congrArg List.reverse parts
  rw [List.reverse_append, List.reverse_reverse] at whole
  rw [zeros, List.reverse_replicate] at whole
  exact whole.symm

/-- A decimal whose first digit is not zero. -/
structure Decimal.IsNormal (d : Decimal) : Prop where
  isDigit : ∀ c ∈ d.digits, c.isDigit = true
  nonempty : d.digits ≠ []
  first : ∀ rest, d.digits ≠ '0' :: rest

/-- A scaled number is written by digits without a zero at either end, and the point stands where
the power says. -/
lemma Decimal.ofScaled_spec {n : Nat} (positive : 0 < n) (power : Int) :
    (ofScaled n power).IsNormal ∧
      ∃ count : Nat, n = digitsValue (ofScaled n power).digits * 10 ^ count ∧
        (ofScaled n power).point = (ofScaled n power).digits.length + count + power := by
  obtain ⟨count, parts⟩ := exists_zeros (Nat.toDigits 10 n)
  have point : (ofScaled n power).point = (Nat.toDigits 10 n).length + power := rfl
  have value := digitsValue_toDigits n
  change Nat.toDigits 10 n = (ofScaled n power).digits ++ _ at parts
  have isDigit : ∀ c ∈ Nat.toDigits 10 n, c.isDigit = true := isDigit_toDigits
  have nonzero : ∀ rest, Nat.toDigits 10 n ≠ '0' :: rest := fun rest eq =>
    absurd (eq_nil_of_toDigits_eq eq).2 positive.ne'
  rw [parts] at point value isDigit nonzero
  rw [digitsValue_append, digitsValue_replicate_zero, List.length_replicate] at value
  refine ⟨⟨fun c mem => isDigit c (List.mem_append_left _ mem), fun empty => ?_,
    fun rest eq => nonzero (rest ++ List.replicate count '0') ?_⟩, count, value.symm, ?_⟩
  · rw [empty, digitsValue, List.foldl_nil, Nat.zero_mul] at value
    exact positive.ne value
  · rw [eq]
    rfl
  · rw [point, List.length_append, List.length_replicate]
    push_cast
    rfl

namespace DecimalStyle

variable {style : DecimalStyle} {negative : Bool} {d : Decimal}

/-- A decimal is laid out with plain digits. -/
lemma layOut_isPlain (normal : d.IsNormal) : (style.layOut negative d).IsPlain := by
  obtain ⟨digit, digits, eq⟩ := List.exists_cons_of_ne_nil normal.nonempty
  have isDigit := normal.isDigit
  have zero : ∀ count, ∀ c ∈ List.replicate count '0', c.isDigit = true := fun count c mem => by
    rw [List.eq_of_mem_replicate mem]
    rfl
  -- the first digit is not zero
  have nonzero : ∀ {rest rest'}, digit :: rest = '0' :: rest' → rest' = [] := fun same =>
    absurd (by rw [eq, List.head_eq_of_cons_eq same]) (normal.first digits)
  rw [layOut]
  split
  case isTrue =>
    split
    case isTrue =>
      refine ⟨List.forall_mem_singleton.2 rfl, List.cons_ne_nil _ _,
        fun rest same => (List.tail_eq_of_cons_eq same).symm, ?_⟩
      exact List.forall_mem_append.2 ⟨zero _, isDigit⟩
    case isFalse positive =>
      split
      case isTrue =>
        refine ⟨List.forall_mem_append.2 ⟨isDigit, zero _⟩, by simp [eq], fun rest same => ?_,
          List.forall_mem_singleton.2 rfl⟩
        rw [eq] at same
        exact nonzero same
      case isFalse =>
        obtain ⟨count, point⟩ : ∃ count, d.point.toNat = count + 1 :=
          ⟨d.point.toNat - 1, by omega⟩
        refine ⟨fun c mem => isDigit c (List.mem_of_mem_take mem), by simp [eq, point],
          fun rest same => ?_, fun c mem => isDigit c (List.mem_of_mem_drop mem)⟩
        dsimp only at same
        rw [eq, point, List.take_succ_cons] at same
        exact nonzero same
  case isFalse =>
    refine ⟨fun c mem => isDigit c (List.mem_of_mem_take mem), by simp [eq], fun rest same => ?_,
      fun c mem => isDigit c (List.mem_of_mem_drop mem)⟩
    rw [eq] at same
    exact nonzero same

/-- A decimal below the greatest numbers is laid out so that it can be read. -/
lemma isSome_layOut {n : Nat} {power : Int} (places : style.greatestPoint ≤ 16) (positive : 0 < n)
    (n_le : n ≤ 10 ^ 17) (bounded : (n * 10 ^ power : ℚ) ≤ (2 ^ 54 - 8) * 2 ^ 970) :
    (style.layOut negative (.ofScaled n power)).toBinary64?.isSome = true := by
  obtain ⟨normal, count, value, point⟩ := Decimal.ofScaled_spec positive power
  generalize Decimal.ofScaled n power = d at *
  have value_le : digitsValue d.digits ≤ n :=
    value ▸ Nat.le_mul_of_pos_right _ (Nat.pow_pos (by decide))
  have small : digitsValue d.digits < UInt64.size := (value_le.trans n_le).trans_lt (by decide)
  have nonempty : 0 < d.digits.length := List.length_pos_iff.2 normal.nonempty
  rw [layOut]
  split
  case isTrue within =>
    split
    case isTrue =>
      refine Numeral.isSome_toBinary64? ?_ fun nonneg => ?_
      · dsimp only
        rw [digitsValue_append, digitsValue_append, digitsValue_replicate_zero]
        simpa [digitsValue, digitValue] using small
      · simp at nonneg
        omega
    case isFalse =>
      split
      case isTrue whole =>
        refine Numeral.isSome_toBinary64? ?_ fun nonneg => ?_
        · -- with the zeros behind the digits and behind the point they are seventeen at most
          have less := digitsValue_lt normal.isDigit
          have power : 10 ^ d.digits.length * 10 ^ (d.point - d.digits.length).toNat * 10 ≤
              10 ^ 17 := by
            rw [← Nat.pow_add, ← Nat.pow_succ]
            exact Nat.pow_le_pow_right (by decide) (by omega)
          have scaled := Nat.mul_le_mul_right 10
            (Nat.mul_le_mul_right (10 ^ (d.point - d.digits.length).toNat) less.le)
          have zero : digitsValue ['0'] = 0 := rfl
          dsimp only
          rw [digitsValue_append, digitsValue_append, digitsValue_replicate_zero, zero]
          simp only [List.length_replicate, List.length_singleton, Nat.add_zero, Nat.pow_one]
          exact (scaled.trans power).trans_lt (by decide)
        · exact absurd nonneg (by simp)
      case isFalse =>
        refine Numeral.isSome_toBinary64? ?_ fun nonneg => ?_
        · rwa [List.take_append_drop]
        · simp at nonneg
          omega
  case isFalse =>
    refine Numeral.isSome_toBinary64? ?_ fun nonneg => ?_
    · rwa [List.take_append_drop]
    · -- the digits behind the point lower the exponent to that of the whole number
      have exponent : (d.point - 1 - (d.digits.drop 1).length : Int) = count + power := by
        rw [List.length_drop]
        omega
      dsimp only [Option.getD_some] at nonneg ⊢
      rw [exponent] at nonneg
      have raised : (10 : ℚ) ^ (count + power).toNat = 10 ^ count * 10 ^ power := by
        rw [← zpow_natCast, Int.toNat_of_nonneg nonneg, zpow_add₀ (by norm_num), zpow_natCast]
      have product : (n : ℚ) = digitsValue d.digits * 10 ^ count := by exact_mod_cast value
      rw [List.take_append_drop, exponent, raised, ← mul_assoc, ← product]
      exact bounded

/-- The numeral of a number is plain. -/
theorem numeral_isPlain (less : significand < 2 ^ 53) (short : f.fractionBits ≤ 52) :
    (style.numeral f negative significand exponent).IsPlain := by
  rw [numeral]
  split
  case isTrue =>
    exact ⟨List.forall_mem_singleton.2 rfl, List.cons_ne_nil _ _,
      fun rest same => (List.tail_eq_of_cons_eq same).symm, List.forall_mem_singleton.2 rfl⟩
  case isFalse nonzero =>
    obtain ⟨n, power, positive, _, _, eq⟩ :=
      Format.shortest_spec style.tie exponent (Nat.pos_of_ne_zero nonzero) less short
    rw [eq]
    exact layOut_isPlain (Decimal.ofScaled_spec positive power).1

/-- The numeral of a number can be read, unless the number is among the greatest ones. -/
theorem isSome_numeral (places : style.greatestPoint ≤ 16) (less : significand < 2 ^ 53)
    (short : f.fractionBits ≤ 52)
    (bounded : ((significand + 1 / 2) * 2 ^ exponent : ℚ) ≤ (2 ^ 54 - 8) * 2 ^ 970) :
    (style.numeral f negative significand exponent).toBinary64?.isSome = true := by
  rw [numeral]
  split
  case isTrue => cases negative <;> decide +kernel
  case isFalse nonzero =>
    obtain ⟨n, power, positive, n_le, near, eq⟩ :=
      Format.shortest_spec style.tie exponent (Nat.pos_of_ne_zero nonzero) less short
    rw [eq]
    exact isSome_layOut places positive n_le (near.trans bounded)

end DecimalStyle

end ObjectBackend.Floating
