import ObjectBackend.Proofs.Floating.Digits
import ObjectBackend.Proofs.Floating.Rounding

/-!
# Reading numerals

What becomes of a numeral that is read as a long real. Its significand is rounded and scaled by a
power of ten, each step in binary arithmetic. A numeral with a negative exponent always has a value,
and one with another exponent does unless it is close to the greatest number or beyond
(`isSome_scaleByTen`); whatever is read is finite (`Numeral.isFinite_of_toBinary64?`).
-/

namespace ObjectBackend.Floating

namespace Binary64

variable {x y : Binary64} {v u : ℚ}

/-- A long real is a number that is not negative. -/
def Stands (x : Binary64) (v : ℚ) : Prop :=
  ∃ m e, x.datum = .finite false m e ∧ (m * 2 ^ e : ℚ) = v

/-- The limit of the long reals, as a multiple of a power of two. -/
lemma limit_double : Format.double.limit = (2 ^ 54 - 1) * 2 ^ 970 := by
  have exponent : Format.double.greatestExponent = 971 := rfl
  have power : (2 : ℚ) ^ (971 : Int) = 2 * 2 ^ 970 := (zpow_natCast 2 971).trans (pow_succ' 2 970)
  rw [Format.limit, exponent, power]
  generalize (2 : ℚ) ^ 970 = w
  norm_num [Format.double]
  ring

/-- A real is finite just if its datum is a finite number. -/
lemma isFinite_iff (x : Binary64) : x.isFinite = true ↔ ∃ s m e, x.datum = .finite s m e := by
  rw [isFinite]
  cases x.datum <;> simp

namespace Stands

/-- What stands for a rational has no sign, so the rational is not negative. -/
lemma nonneg (stands : x.Stands v) : 0 ≤ v := by
  obtain ⟨m, e, _, rfl⟩ := stands
  positivity

/-- What stands for a rational is finite. -/
lemma isFinite (stands : x.Stands v) : x.isFinite = true := by
  obtain ⟨m, e, datum, _⟩ := stands
  rw [Binary64.isFinite, datum]

end Stands

/-- The real zero stands for zero. -/
lemma zero_stands : Binary64.zero.Stands 0 := ⟨0, -1074, rfl, by simp⟩

/-- A ratio of zero is rounded to zero. -/
lemma ofRatio_zero (den : Nat) : Binary64.ofRatio 0 den = .zero := rfl

/-- A quotient below the limit is rounded to a number. -/
lemma ofRatio_stands {num den : Nat} (num_pos : 0 < num) (den_pos : 0 < den)
    (less : (num / den : ℚ) < Format.double.limit) :
    (Binary64.ofRatio num den).Stands (Format.double.rounded num den) := by
  obtain ⟨finite, m, e, decoded, value⟩ := Format.decode_roundRatio (by decide) num_pos den_pos less
  have bits : (UInt64.ofNat (Format.double.roundRatio num den)).toNat =
      Format.double.roundRatio num den :=
    UInt64.toNat_ofNat_of_lt (finite.trans (by decide))
  refine ⟨m, e, ?_, value⟩
  rw [datum, ofRatio, bits, decoded]

/-- The product of two numbers is rounded from their exact product. -/
lemma exists_times (stands : x.Stands v) (stands' : y.Stands u) :
    ∃ num den : Nat, 0 < den ∧ (num / den : ℚ) = v * u ∧ x.times y = .ofRatio num den := by
  obtain ⟨m, e, datum, rfl⟩ := stands
  obtain ⟨n, k, datum', rfl⟩ := stands'
  refine ⟨_, _, scaleDown_pos _ Nat.one_pos _, (scaleDown_ratio (m * n) 1 (-(e + k))).trans ?_, ?_⟩
  · rw [Nat.cast_mul, Nat.cast_one, div_one, zpow_neg, div_inv_eq_mul, zpow_add₀ two_ne_zero]
    ring
  · rw [times, datum, datum']
    simp only [ofDatum, Format.encode, Bool.false_eq_true, if_false, Nat.zero_add]
    rfl

/-- The quotient of two numbers is rounded from their exact quotient. -/
lemma exists_over (stands : x.Stands v) (stands' : y.Stands u) (positive : 0 < u) :
    ∃ num den : Nat, 0 < den ∧ (num / den : ℚ) = v / u ∧ x.over y = .ofRatio num den := by
  obtain ⟨m, e, datum, rfl⟩ := stands
  obtain ⟨n, k, datum', rfl⟩ := stands'
  have n_pos : 0 < n := by
    refine Nat.pos_of_ne_zero ?_
    rintro rfl
    simp at positive
  refine ⟨_, _, scaleDown_pos _ n_pos _, (scaleDown_ratio m n (k - e)).trans ?_, ?_⟩
  · rw [zpow_sub₀ two_ne_zero]
    field_simp
  · rw [Binary64.over, datum, datum']

/-- A positive number below the limit is rounded to a number near it. -/
lemma ofNat_stands {n : Nat} (n_pos : 0 < n) (less : (n : ℚ) < Format.double.limit) :
    ∃ v : ℚ, (Binary64.ofRatio n 1).Stands v ∧ 1 ≤ v ∧ v ≤ n + n / 2 ^ 53 := by
  have quotient : ((n : Nat) / (1 : Nat) : ℚ) = n := by rw [Nat.cast_one, div_one]
  have one_le : (2 : ℚ) ^ (0 : Int) ≤ n := by
    rw [zpow_zero]
    exact_mod_cast n_pos
  rw [← quotient] at less one_le
  refine ⟨_, ofRatio_stands n_pos Nat.one_pos less, ?_, ?_⟩
  · exact Format.two_zpow_le_rounded n_pos Nat.one_pos (by decide) one_le
  · have normal : (2 : ℚ) ^ (Format.double.unitExponent + Format.double.fractionBits) ≤
        n / (1 : Nat) :=
      le_trans (two_zpow_le (by decide)) one_le
    have near := Format.rounded_le_add n_pos Nat.one_pos normal
    rw [quotient] at near
    exact near

/-- The powers of ten that are scaled with are long reals. -/
lemma ten_pow_lt_limit {exponent : Nat} (le : exponent ≤ 308) :
    (10 : ℚ) ^ exponent < Format.double.limit := by
  have greatest : 10 ^ 308 + 2 ^ 970 < 2 ^ 54 * 2 ^ 970 := by decide +kernel
  have greatest : (10 : ℚ) ^ 308 + 2 ^ 970 < 2 ^ 54 * 2 ^ 970 := by exact_mod_cast greatest
  rw [limit_double, sub_mul, one_mul]
  exact (pow_le_pow_right₀ (by norm_num) le).trans_lt (lt_sub_iff_add_lt.2 greatest)

/-- The rounded power of ten is near the power. -/
lemma powerOfTen_stands {exponent : Nat} (le : exponent ≤ 308) :
    ∃ u : ℚ, (powerOfTen exponent).Stands u ∧ 1 ≤ u ∧
      u ≤ 10 ^ exponent + 10 ^ exponent / 2 ^ 53 := by
  have less := ten_pow_lt_limit le
  have cast : ((10 ^ exponent : Nat) : ℚ) = 10 ^ exponent := by rw [Nat.cast_pow, Nat.cast_ofNat]
  rw [← cast] at less ⊢
  exact ofNat_stands (Nat.pow_pos (by decide)) less

end Binary64

open Binary64

/-- A number that is scaled down can always be read. -/
lemma isSome_scaleByTen_of_neg {steps : Nat} {x : Binary64} {exponent : Int} (neg : exponent < 0) :
    (scaleByTen steps x exponent).isSome = true := by
  induction steps generalizing x exponent with
  | zero => rfl
  | succ steps ih =>
    rw [scaleByTen, if_neg (not_le.2 neg)]
    split
    case isTrue => rfl
    case isFalse far =>
      split
      case isTrue => rfl
      case isFalse =>
        rw [if_neg (not_le.2 neg)]
        exact ih (by omega)

/-- Rounding a significand and a power of ten adds to their product a few of its last bits. -/
lemma product_lt {s t v u w : ℚ} (s_nonneg : 0 ≤ s) (u_nonneg : 0 ≤ u) (w_pos : 0 < w)
    (v_le : v ≤ s + s / 2 ^ 53) (u_le : u ≤ t + t / 2 ^ 53)
    (bounded : s * t ≤ (2 ^ 54 - 8) * w) : v * u < (2 ^ 54 - 1) * w := by
  calc v * u ≤ (s + s / 2 ^ 53) * (t + t / 2 ^ 53) :=
        mul_le_mul v_le u_le u_nonneg (by positivity)
    _ = s * t * (1 + 1 / 2 ^ 53) ^ 2 := by ring
    _ ≤ (2 ^ 54 - 8) * w * (1 + 1 / 2 ^ 53) ^ 2 :=
        mul_le_mul_of_nonneg_right bounded (by positivity)
    _ = (2 ^ 54 - 8) * (1 + 1 / 2 ^ 53) ^ 2 * w := by ring
    _ < (2 ^ 54 - 1) * w := mul_lt_mul_of_pos_right (by norm_num) w_pos

/-- A product whose factors have a product below the limit is a number. -/
lemma isFinite_times {x y : Binary64} {v u : ℚ} (stands : x.Stands v) (stands' : y.Stands u)
    (less : v * u < Format.double.limit) : (x.times y).isFinite = true := by
  obtain ⟨num, den, den_pos, quotient, eq⟩ := exists_times stands stands'
  rw [eq]
  rcases Nat.eq_zero_or_pos num with rfl | num_pos
  · exact zero_stands.isFinite
  · exact (ofRatio_stands num_pos den_pos (quotient ▸ less)).isFinite

/-- A significand of 64 bits is rounded to a number near it. -/
lemma significand_stands {significand : Nat} (less : significand < UInt64.size) :
    ∃ v : ℚ, (Binary64.ofRatio significand 1).Stands v ∧
      v ≤ significand + significand / 2 ^ 53 ∧ v ≤ 2 ^ (65 : Int) := by
  rcases Nat.eq_zero_or_pos significand with rfl | positive
  · exact ⟨0, zero_stands, by simp, (two_zpow_pos _).le⟩
  · have below : significand ≤ 10 ^ 20 := less.le.trans (by decide)
    have below : (significand : ℚ) ≤ 10 ^ 20 := by exact_mod_cast below
    obtain ⟨v, stands, _, v_le⟩ :=
      ofNat_stands positive (below.trans_lt (ten_pow_lt_limit (by decide)))
    refine ⟨v, stands, v_le, v_le.trans ?_⟩
    have small : significand ≤ 2 ^ 64 := less.le
    have small : (significand : ℚ) ≤ 2 ^ 64 := by exact_mod_cast small
    norm_num only
    linarith

/-- A significand that is scaled up can be read if the product is not among the greatest numbers. -/
lemma isSome_scaleByTen {significand : Nat} {exponent : Int}
    (significand_lt : significand < UInt64.size)
    (bounded : 0 ≤ exponent →
      (significand * 10 ^ exponent.toNat : ℚ) ≤ (2 ^ 54 - 8) * 2 ^ 970) :
    (scaleByTen 3 (.ofRatio significand 1) exponent).isSome = true := by
  rcases lt_or_ge exponent 0 with neg | nonneg
  · exact isSome_scaleByTen_of_neg neg
  have bounded := bounded nonneg
  rw [scaleByTen]
  split
  case isTrue near =>
    obtain ⟨v, stands, v_le, _⟩ := significand_stands significand_lt
    have near : exponent.toNat ≤ 308 := by omega
    obtain ⟨u, stands', one_le, u_le⟩ := powerOfTen_stands near
    have less := product_lt (by positivity) (zero_le_one.trans one_le) (by positivity) v_le u_le
      bounded
    have finite := isFinite_times stands stands' (limit_double ▸ less)
    simp only [finite, if_true, Option.isSome_some]
  case isFalse far =>
    -- only zero can be scaled as far as this
    have zero : significand = 0 := by
      by_contra nonzero
      have one_le : 1 ≤ significand := Nat.pos_of_ne_zero nonzero
      have one_le : (1 : ℚ) ≤ significand := by exact_mod_cast one_le
      have power : (10 : ℚ) ^ 309 ≤ 10 ^ exponent.toNat :=
        pow_le_pow_right₀ (by norm_num) (by omega)
      have beyond : 2 ^ 54 * 2 ^ 970 < 10 ^ 309 := by decide +kernel
      have beyond : (2 : ℚ) ^ 54 * 2 ^ 970 < 10 ^ 309 := by exact_mod_cast beyond
      have positive : (0 : ℚ) < 2 ^ 970 := by positivity
      generalize (2 : ℚ) ^ 970 = w at *
      generalize (10 : ℚ) ^ 309 = t at *
      have product : 1 * (10 : ℚ) ^ exponent.toNat ≤ significand * 10 ^ exponent.toNat :=
        mul_le_mul_of_nonneg_right one_le (by positivity)
      linarith
    rw [zero, ofRatio_zero, if_pos rfl]
    rfl

/-- Dividing by a power of ten does not lead out of a range. -/
lemma over_stands {x : Binary64} {v : ℚ} {exponent : Nat} (stands : x.Stands v)
    (v_le : v ≤ 2 ^ (65 : Int)) (le : exponent ≤ 308) :
    ∃ u, (x.over (.powerOfTen exponent)).Stands u ∧ u ≤ 2 ^ (65 : Int) := by
  obtain ⟨u, stands', one_le, _⟩ := powerOfTen_stands le
  obtain ⟨num, den, den_pos, quotient, eq⟩ :=
    exists_over stands stands' (zero_lt_one.trans_le one_le)
  rw [eq]
  rcases Nat.eq_zero_or_pos num with rfl | num_pos
  · exact ⟨0, zero_stands, (two_zpow_pos _).le⟩
  have quotient_le : (num / den : ℚ) ≤ 2 ^ (65 : Int) := by
    rw [quotient]
    exact (div_le_self stands.nonneg one_le).trans v_le
  have less : (num / den : ℚ) < Format.double.limit :=
    (quotient_le.trans (by norm_num)).trans_lt (ten_pow_lt_limit (by decide : 20 ≤ 308))
  exact ⟨_, ofRatio_stands num_pos den_pos less,
    Format.rounded_le_two_zpow num_pos den_pos (by decide) quotient_le⟩

/-- Whatever is read of a scaled significand is finite. -/
lemma isFinite_of_scaleByTen {steps : Nat} {x y : Binary64} {v : ℚ} {exponent : Int}
    (stands : x.Stands v) (v_le : v ≤ 2 ^ (65 : Int))
    (read : scaleByTen steps x exponent = some y) : y.isFinite = true := by
  induction steps generalizing x v exponent with
  | zero =>
    cases read
    exact zero_stands.isFinite
  | succ steps ih =>
    rw [scaleByTen] at read
    split at read
    case isTrue near =>
      split at read
      case isTrue =>
        dsimp only at read
        split at read
        case isTrue finite =>
          cases read
          exact finite
        case isFalse => cases read
      case isFalse =>
        cases read
        obtain ⟨u, stands', _⟩ := over_stands stands v_le near
        exact stands'.isFinite
    case isFalse =>
      split at read
      case isTrue =>
        cases read
        exact stands.isFinite
      case isFalse =>
        split at read
        case isTrue => cases read
        case isFalse =>
          obtain ⟨u, stands', u_le⟩ := over_stands stands v_le le_rfl
          exact ih stands' u_le read

/-- Absorbing digits stops before the significand has more than 64 bits. -/
lemma absorb_lt {significand : Nat} (less : significand < UInt64.size) (digits : List Char) :
    (absorb significand digits).1 < UInt64.size := by
  induction digits generalizing significand with
  | nil => exact less
  | cons digit digits ih =>
    rw [absorb]
    dsimp only
    split
    case isTrue fits => exact ih fits
    case isFalse => exact less

/-- The sign of a real has nothing to do with whether it is finite. -/
lemma Binary64.isFinite_negate (x : Binary64) : x.negate.isFinite = x.isFinite := by
  have field : x.negate.bits.toNat / 2 ^ 52 % 2 ^ 11 = x.bits.toNat / 2 ^ 52 % 2 ^ 11 := by
    rw [negate, UInt64.toNat_xor, Nat.xor_div_two_pow, Nat.xor_mod_two_pow]
    exact Nat.xor_zero _
  have decoded (word : Nat) : (∃ s m e, Format.double.decode word = .finite s m e) ↔
      word / 2 ^ 52 % 2 ^ 11 ≠ 2 ^ 11 - 1 := Format.decode_eq_finite_iff
  rw [Bool.eq_iff_iff, isFinite_iff, isFinite_iff, datum, datum, decoded, decoded, field]

/-- Whatever is read as a long real is finite. -/
theorem Numeral.isFinite_of_toBinary64? {n : Numeral} {x : Binary64}
    (read : n.toBinary64? = some x) : x.isFinite = true := by
  rw [toBinary64?] at read
  dsimp only at read
  obtain ⟨y, scaled, rfl⟩ := Option.map_eq_some_iff.1 read
  have finite : y.isFinite = true := by
    have whole := absorb_lt (by decide : 0 < UInt64.size) n.whole
    obtain ⟨v, stands, _, v_le⟩ := significand_stands (absorb_lt whole n.fraction)
    exact isFinite_of_scaleByTen stands v_le scaled
  split
  case isTrue => rwa [isFinite_negate]
  case isFalse => exact finite

/-- A numeral whose digits fit in 64 bits has a value, unless it is among the greatest numbers. -/
theorem Numeral.isSome_toBinary64? {n : Numeral}
    (fits : digitsValue (n.whole ++ n.fraction) < UInt64.size)
    (bounded : 0 ≤ n.exponent.getD 0 - n.fraction.length →
      (digitsValue (n.whole ++ n.fraction) *
        10 ^ (n.exponent.getD 0 - n.fraction.length).toNat : ℚ) ≤ (2 ^ 54 - 8) * 2 ^ 970) :
    n.toBinary64?.isSome = true := by
  rw [digitsValue_append] at fits bounded
  have wholeFits : digitsValue n.whole < UInt64.size :=
    (Nat.le_mul_of_pos_right _ (Nat.pow_pos (by decide))).trans_lt
      ((Nat.le_add_right _ _).trans_lt fits)
  have whole : absorb 0 n.whole = (digitsValue n.whole, n.whole.length) := by
    rw [absorb_eq (by simpa using wholeFits)]
    simp
  rw [toBinary64?, whole]
  dsimp only
  rw [absorb_eq fits]
  simp only [Nat.sub_self, Nat.cast_zero, zero_sub, neg_add_eq_sub, Option.isSome_map]
  exact isSome_scaleByTen fits bounded

end ObjectBackend.Floating
