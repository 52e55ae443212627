import Descramble.Proofs.Number.Whole
import Mathlib.Data.Rat.Lemmas
import Mathlib.Algebra.Order.Field.Basic
import Mathlib.Tactic.FieldSimp
import Mathlib.Algebra.Order.Field.Power
import Mathlib.Tactic.Linarith

/-!
# The number nearest to a value

Rounding a ratio takes a representable count that no other one is nearer than. A decimal has a
rational value, and the number that it is read as is the nearest one to that value, so that it does
not matter how the value is spread over coefficient and exponent.

Main statements: `Number.abs_units_sub_le_of_nearest`, `Decimal.toNumber_eq_nearest`.
-/

namespace Descramble

/-! ## Nothing is nearer -/

/-- A quotient is rounded to a whole number that is as near as any. -/
theorem natAbs_roundHalfEven_sub_le (num k : Nat) {den : Nat} (hden : 0 < den) :
    ((roundHalfEven num den * den : Nat) - num : Int).natAbs ≤
      ((k * den : Nat) - num : Int).natAbs := by
  have hnum := Nat.div_add_mod' num den
  have hlt := Nat.mod_lt num hden
  -- the whole numbers around the quotient are the nearest ones on their sides
  have hsides : k * den ≤ num / den * den ∨ (num / den + 1) * den ≤ k * den := by
    rcases Nat.lt_or_ge (num / den) k with hk | hk
    · exact .inr (Nat.mul_le_mul_right den hk)
    · exact .inl (Nat.mul_le_mul_right den hk)
  -- a half goes to either neighbour
  have heven : num / den + num / den % 2 = num / den ∨
      num / den + num / den % 2 = num / den + 1 := by
    omega
  rw [Nat.add_mul, Nat.one_mul] at hsides
  unfold roundHalfEven
  dsimp only
  split
  · omega
  split
  · rw [Nat.add_mul, Nat.one_mul]
    omega
  · rcases heven with h | h <;> rw [h]
    · omega
    · rw [Nat.add_mul, Nat.one_mul]
      omega

/-- A representable count that is off the grid around a ratio is below the first count of that
    grid's binade, which is not above the ratio. -/
theorem lt_two_pow_log2_of_not_dvd {u q : Nat} (hu : gridStep u ∣ u) (h : ¬ gridStep q ∣ u) :
    u < 2 ^ q.log2 := by
  apply Nat.lt_of_not_le
  intro hle
  have hne : u ≠ 0 := by
    rintro rfl
    exact h (Nat.dvd_zero _)
  have hlog : q.log2 ≤ u.log2 := (Nat.le_log2 hne).mpr hle
  exact h (Nat.dvd_trans (Nat.pow_dvd_pow 2 (Nat.sub_le_sub_right hlog 52)) hu)

/-- No representable count is nearer to a ratio than its rounding, with both multiplied by the
    denominator. -/
theorem natAbs_nearestUnits_sub_le (num : Nat) {den u : Nat} (hden : 0 < den)
    (hu : gridStep u ∣ u) :
    ((nearestUnits num den * den : Nat) - num : Int).natAbs ≤
      ((u * den : Nat) - num : Int).natAbs := by
  have hstep : 0 < gridStep (num / den) := Nat.pow_pos (by decide)
  have hpos : 0 < den * gridStep (num / den) := Nat.mul_pos hden hstep
  have hround : nearestUnits num den * den =
      roundHalfEven num (den * gridStep (num / den)) * (den * gridStep (num / den)) := by
    unfold nearestUnits
    dsimp only
    ac_rfl
  rw [hround]
  -- counts on the grid around the ratio are whole multiples of its step
  by_cases hdvd : gridStep (num / den) ∣ u
  · obtain ⟨k, rfl⟩ := hdvd
    have hk : gridStep (num / den) * k * den = k * (den * gridStep (num / den)) := by ac_rfl
    rw [hk]
    exact natAbs_roundHalfEven_sub_le num k hpos
  · -- the count lies below the binade, and the first count of the binade is between it and the ratio
    have hlt := lt_two_pow_log2_of_not_dvd hu hdvd
    have hq : num / den ≠ 0 := by
      intro hzero
      rw [hzero] at hdvd
      exact hdvd (Nat.one_dvd u)
    obtain ⟨j, hj⟩ : gridStep (num / den) ∣ 2 ^ (num / den).log2 :=
      Nat.pow_dvd_pow 2 (Nat.sub_le _ _)
    have hfirst := natAbs_roundHalfEven_sub_le num j hpos
    have hj' : j * (den * gridStep (num / den)) = 2 ^ (num / den).log2 * den := by
      rw [hj]
      ac_rfl
    have hle : 2 ^ (num / den).log2 * den ≤ num :=
      Nat.le_trans (Nat.mul_le_mul_right den (Nat.log2_self_le hq)) (Nat.div_mul_le_self num den)
    have hbelow : u * den < 2 ^ (num / den).log2 * den := Nat.mul_lt_mul_of_pos_right hlt hden
    rw [hj'] at hfirst
    omega

/-- The distance of a count from a ratio, with the denominator taken out. -/
theorem abs_sub_ratio (a num : Nat) {den : Nat} (hden : 0 < den) :
    |(a : ℚ) - num / den| = (((a * den : Nat) - num : Int).natAbs : ℚ) / den := by
  have hpos : (0 : ℚ) < den := by exact_mod_cast hden
  have hsub : (a : ℚ) - num / den = (((a * den : Nat) - num : Int) : ℚ) / den := by
    push_cast
    field_simp
  rw [hsub, abs_div, abs_of_pos hpos, Nat.cast_natAbs, Int.cast_abs]

/-- No representable count is nearer to a ratio than the one that it is rounded to. -/
theorem abs_nearestUnits_sub_le (num : Nat) {den u : Nat} (hden : 0 < den) (hu : gridStep u ∣ u) :
    |(nearestUnits num den : ℚ) - num / den| ≤ |(u : ℚ) - num / den| := by
  rw [abs_sub_ratio _ _ hden, abs_sub_ratio _ _ hden]
  have hle := natAbs_nearestUnits_sub_le num hden hu
  have hcast : ((((nearestUnits num den * den : Nat) - num : Int).natAbs : Nat) : ℚ) ≤
      (((u * den : Nat) - num : Int).natAbs : Nat) := by
    exact_mod_cast hle
  gcongr

/-! ## The number nearest to a value -/

namespace Number

variable {negative : Bool} {v : ℚ}

/-- The number nearest to a value that is not negative. The sign is given apart, since zero has
    both. -/
def nearest (negative : Bool) (v : ℚ) : Number :=
  ofRatio negative (v * unitsPerOne).num.toNat (v * unitsPerOne).den

/-- A value that is not negative has no negative number of units. -/
theorem units_nonneg (h : 0 ≤ v) : 0 ≤ v * unitsPerOne :=
  mul_nonneg h (Nat.cast_nonneg _)

/-- The numerator of a rational number that is not negative. -/
theorem toNat_num_eq {x : ℚ} (h : 0 ≤ x) : (x.num.toNat : ℚ) = x * x.den := by
  have hnum : ((x.num.toNat : Int) : ℚ) = x.num := by
    rw [Int.toNat_of_nonneg (Rat.num_nonneg.mpr h)]
  rw [Rat.mul_den_eq_num]
  exact_mod_cast hnum

/-- However a value is written as a ratio of units, rounding gives the number nearest to it. -/
theorem nearest_eq_ofRatio {num den : Nat} (hden : 0 < den) (h : v * unitsPerOne = num / den) :
    nearest negative v = ofRatio negative num den := by
  have hnonneg : 0 ≤ v * unitsPerOne := by
    rw [h]
    positivity
  have hx := toNat_num_eq hnonneg
  apply ofRatio_congr (v * unitsPerOne).den_pos hden
  have hden' : (den : ℚ) ≠ 0 := by exact_mod_cast Nat.ne_of_gt hden
  -- both ratios have the value, so they agree when multiplied out
  have hcross : ((v * unitsPerOne).num.toNat : ℚ) * den = num * (v * unitsPerOne).den := by
    rw [hx, mul_right_comm]
    congr 1
    rw [h, div_mul_cancel₀ _ hden']
  exact_mod_cast hcross

/-- The number nearest to a natural number. -/
theorem nearest_natCast (n : Nat) : nearest false n = ofNat n := by
  apply nearest_eq_ofRatio Nat.one_pos
  push_cast
  rw [div_one]

/-- A ratio is always rounded to a number. -/
theorem ofRatio_ne_nan (num den : Nat) : ofRatio negative num den ≠ .nan := by
  intro h
  unfold ofRatio at h
  split at h <;> cases h

/-- The sign is no part of the rounding. -/
theorem nearest_eq_finite {m : Magnitude} {other : Bool}
    (h : nearest negative v = finite negative m) :
    nearest other v = finite other m := by
  unfold nearest ofRatio at h ⊢
  split at h
  · rename_i hlt
    obtain ⟨-, rfl⟩ := Number.finite.inj h
    rw [dif_pos hlt]
  · cases h

/-- No finite number is nearer to a value than the one that it is rounded to. -/
theorem abs_units_sub_le_of_nearest {m : Magnitude} (hv : 0 ≤ v)
    (h : nearest negative v = finite negative m) (other : Magnitude) :
    |(m.units : ℚ) - v * unitsPerOne| ≤ |(other.units : ℚ) - v * unitsPerOne| := by
  have hnum := toNat_num_eq (units_nonneg hv)
  unfold nearest ofRatio at h
  -- the value in units is all that matters from here on
  generalize v * unitsPerOne = x at h hnum
  have hden : (x.den : ℚ) ≠ 0 := Nat.cast_ne_zero.mpr x.den_nz
  have hratio : (x.num.toNat : ℚ) / x.den = x := by
    rw [hnum, mul_div_cancel_right₀ x hden]
  split at h
  · obtain ⟨-, rfl⟩ := Number.finite.inj h
    have hle := abs_nearestUnits_sub_le x.num.toNat x.den_pos other.onGrid
    rwa [hratio] at hle
  · cases h

/-- The first count beyond the finite numbers is a power of two. -/
theorem exists_unitsOfInfinity_eq : ∃ k, unitsOfInfinity = 2 ^ k := by
  -- the exponents are named, as the powers are too large to be computed
  obtain ⟨a, ha⟩ : ∃ a, unitsPerOne = 2 ^ a := ⟨_, Magnitude.unitsPerOne_eq⟩
  obtain ⟨b, hb⟩ : ∃ b, 128 * 8 = b := ⟨_, rfl⟩
  refine ⟨a + b, ?_⟩
  unfold unitsOfInfinity
  rw [ha, ← Nat.pow_mul, hb, Nat.pow_add]

/-- A value beyond the finite numbers is infinite. -/
theorem nearest_of_large (h : (unitsOfInfinity : ℚ) ≤ v * unitsPerOne) :
    nearest negative v = .infinite negative := by
  have hx := toNat_num_eq (le_trans (Nat.cast_nonneg _) h)
  unfold nearest
  generalize v * unitsPerOne = x at h hx
  have hreached : unitsOfInfinity ≤ x.num.toNat / x.den := by
    rw [Nat.le_div_iff_mul_le x.den_pos]
    have hle : (unitsOfInfinity : ℚ) * x.den ≤ x.num.toNat := by
      rw [hx]
      exact mul_le_mul_of_nonneg_right h (Nat.cast_nonneg _)
    exact_mod_cast hle
  -- rounding does not go below a power of two that is reached
  obtain ⟨k, hk⟩ := exists_unitsOfInfinity_eq
  have hround : unitsOfInfinity ≤ nearestUnits x.num.toNat x.den := by
    rw [hk] at hreached ⊢
    exact two_pow_le_nearestUnits hreached
  unfold ofRatio
  rw [dif_neg (Nat.not_lt.mpr hround)]

/-- A value below half of a unit is zero. -/
theorem nearest_of_small (hv : 0 ≤ v) (h : 2 * (v * unitsPerOne) < 1) :
    nearest negative v = ofRatio negative 0 1 := by
  have hx := toNat_num_eq (units_nonneg hv)
  unfold nearest
  generalize v * unitsPerOne = x at h hx
  have hhalf : 2 * x.num.toNat < x.den := by
    have hden : (0 : ℚ) < x.den := by exact_mod_cast x.den_pos
    have hlt : 2 * (x.num.toNat : ℚ) < x.den := by
      rw [hx, ← mul_assoc]
      exact mul_lt_of_lt_one_left hden h
    exact_mod_cast hlt
  -- less than half of a unit is nearer to none than to one
  have hzero : nearestUnits x.num.toNat x.den = 0 := by
    have hdiv : x.num.toNat / x.den = 0 := Nat.div_eq_of_lt (by omega)
    have hmod : x.num.toNat % x.den = x.num.toNat := Nat.mod_eq_of_lt (by omega)
    have hstep : gridStep 0 = 1 := rfl
    unfold nearestUnits roundHalfEven
    simp only [hdiv, hstep, Nat.mul_one, hmod, if_pos hhalf]
  have hzero' : nearestUnits 0 1 = 0 := rfl
  unfold ofRatio
  simp only [hzero, hzero']

end Number

namespace Decimal

variable {d : Decimal}

/-- The value that a decimal stands for. -/
def value (d : Decimal) : ℚ :=
  d.coefficient * 10 ^ d.exponent

/-- No decimal is negative; its sign is kept apart. -/
theorem value_nonneg (d : Decimal) : 0 ≤ d.value := by
  unfold value
  positivity

/-- A coefficient is below the power of ten of its number of digits. -/
theorem lt_ten_pow_digits (d : Decimal) : d.coefficient < 10 ^ d.digits.length :=
  (Nat.length_toDigits_le_iff (by decide) Nat.length_toDigits_pos).mp (Nat.le_refl _)

/-- A coefficient other than zero has a first digit. -/
theorem ten_pow_digits_le (h : d.coefficient ≠ 0) :
    10 ^ (d.digits.length - 1) ≤ d.coefficient := by
  by_cases hone : d.digits.length = 1
  · rw [hone, Nat.sub_self, Nat.pow_zero]
    exact Nat.pos_of_ne_zero h
  · apply Nat.le_of_not_lt
    intro hlt
    have hlen : 0 < d.digits.length := Nat.length_toDigits_pos
    have := (Nat.length_toDigits_le_iff (by decide) (by omega)).mpr hlt
    unfold digits at this hlen
    omega

/-- The place of the point says between which powers of ten the value lies. -/
theorem value_bounds (h : d.coefficient ≠ 0) :
    (10 : ℚ) ^ (d.point - 1) ≤ d.value ∧ d.value < 10 ^ d.point := by
  have hlen : 0 < d.digits.length := Nat.length_toDigits_pos
  have hupper := d.lt_ten_pow_digits
  have hlower := ten_pow_digits_le h
  have hpow : (0 : ℚ) < 10 ^ d.exponent := by positivity
  unfold value
  constructor
  · have hsplit : d.point - 1 = ((d.digits.length - 1 : Nat) : Int) + d.exponent := by
      unfold point
      omega
    rw [hsplit, zpow_add₀ (by norm_num), zpow_natCast]
    exact mul_le_mul_of_nonneg_right (by exact_mod_cast hlower) hpow.le
  · unfold point
    rw [zpow_add₀ (by norm_num), zpow_natCast]
    exact mul_lt_mul_of_pos_right (by exact_mod_cast hupper) hpow

/-- All finite numbers are below `10 ^ 400`, and half of the first unit is above its inverse. -/
theorem units_of_ten_pow :
    (unitsOfInfinity : ℚ) ≤ 10 ^ 400 * unitsPerOne ∧ 2 * (unitsPerOne : ℚ) < 10 ^ 400 := by
  obtain ⟨k, hk⟩ : ∃ k, k = 400 := ⟨_, rfl⟩
  rw [← hk]
  constructor
  · obtain ⟨b, hb⟩ : ∃ b, 128 * 8 = b := ⟨_, rfl⟩
    have hle : unitsOfInfinity ≤ 10 ^ k * unitsPerOne := by
      unfold unitsOfInfinity
      rw [← Nat.pow_mul, hb, Nat.mul_comm]
      exact Nat.mul_le_mul_right _ (Magnitude.two_pow_le_ten_pow (by omega))
    exact_mod_cast hle
  · obtain ⟨a, ha, hlt⟩ : ∃ a, unitsPerOne = 2 ^ a ∧ a + 2 ≤ 3 * k :=
      ⟨_, Magnitude.unitsPerOne_eq, by omega⟩
    have hpow : 2 * unitsPerOne < 10 ^ k := by
      have hle := Magnitude.two_pow_le_ten_pow hlt
      rw [Nat.pow_add, ← ha] at hle
      have := unitsPerOne_pos
      omega
    exact_mod_cast hpow

/-- A decimal is read as the number nearest to its value. -/
theorem toNumber_eq_nearest (d : Decimal) (negative : Bool) :
    d.toNumber negative = .nearest negative d.value := by
  unfold toNumber
  by_cases hzero : d.coefficient = 0
  · have hvalue : d.value = 0 := by
      rw [value, hzero, Nat.cast_zero, zero_mul]
    rw [if_pos hzero, hvalue, Number.nearest_of_small (le_refl 0) (by norm_num)]
  rw [if_neg hzero]
  obtain ⟨hlower, hupper⟩ := value_bounds hzero
  obtain ⟨hlargest, hsmallest⟩ := units_of_ten_pow
  have hunits : (0 : ℚ) < unitsPerOne := by exact_mod_cast unitsPerOne_pos
  obtain ⟨k, hk⟩ : ∃ k, k = 400 := ⟨_, rfl⟩
  rw [← hk] at hlargest hsmallest
  -- far out on either side the reader does not look at the digits at all
  by_cases hlarge : 400 < d.point
  · rw [if_pos hlarge, Number.nearest_of_large]
    have hpow : (10 : ℚ) ^ k ≤ 10 ^ (d.point - 1) := by
      rw [← zpow_natCast]
      exact zpow_le_zpow_right₀ (by norm_num) (by omega)
    exact le_trans hlargest (mul_le_mul_of_nonneg_right (le_trans hpow hlower) hunits.le)
  rw [if_neg hlarge]
  by_cases hsmall : d.point < -400
  · have hpow : d.value * 10 ^ k < 1 := by
      have hle : (10 : ℚ) ^ d.point * 10 ^ k ≤ 1 := by
        rw [← zpow_natCast, ← zpow_add₀ (by norm_num)]
        exact zpow_le_one_of_nonpos₀ (by norm_num) (by omega)
      exact lt_of_lt_of_le (mul_lt_mul_of_pos_right hupper (by positivity)) hle
    rw [if_pos hsmall, Number.nearest_of_small d.value_nonneg]
    calc 2 * (d.value * unitsPerOne) = d.value * (2 * unitsPerOne) := mul_left_comm _ _ _
      _ ≤ d.value * 10 ^ k := mul_le_mul_of_nonneg_left hsmallest.le d.value_nonneg
      _ < 1 := hpow
  rw [if_neg hsmall]
  -- inside the range the value is a ratio of counts, by the sign of the exponent
  split
  · rename_i he
    symm
    apply Number.nearest_eq_ofRatio Nat.one_pos
    obtain ⟨k, hk⟩ := Int.eq_ofNat_of_zero_le he
    rw [value, hk, Int.toNat_natCast, zpow_natCast]
    push_cast
    rw [div_one]
  · rename_i he
    symm
    apply Number.nearest_eq_ofRatio (Nat.pow_pos (by decide))
    obtain ⟨k, hk⟩ : ∃ k : Nat, d.exponent = -k := ⟨(-d.exponent).toNat, by omega⟩
    rw [value, hk, Int.neg_neg, Int.toNat_natCast, zpow_neg, zpow_natCast]
    push_cast
    rw [div_eq_mul_inv, mul_right_comm]

end Decimal

end Descramble
