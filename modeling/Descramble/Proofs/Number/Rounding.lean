import Descramble.Number.Decimal

/-!
# Rounding depends on the value alone

A count is rounded from a ratio. Ratios of the same value round alike, and a count that is
representable is its own rounding. So decimals of the same value are the same number.

Main statements: `ofRatio_scale`, `Magnitude.ofRatio_units`, `Decimal.toNumber_shift`.
-/

namespace Descramble

/-- A quotient is rounded alike however its two sides are scaled. -/
theorem roundHalfEven_scale (num den : Nat) {x : Nat} (hx : 0 < x) :
    roundHalfEven (num * x) (den * x) = roundHalfEven num den := by
  unfold roundHalfEven
  rw [Nat.mul_div_mul_right _ _ hx, Nat.mul_mod_mul_right]
  -- the remainder is scaled as well, so its comparisons with a half are the same
  have hleft : 2 * (num % den * x) < den * x ↔ 2 * (num % den) < den := by
    rw [← Nat.mul_assoc, Nat.mul_lt_mul_right hx]
  have hright : den * x < 2 * (num % den * x) ↔ den < 2 * (num % den) := by
    rw [← Nat.mul_assoc, Nat.mul_lt_mul_right hx]
  simp only [hleft, hright]

/-- So is a ratio of counts, as its grid depends on the quotient alone. -/
theorem nearestUnits_scale (num den : Nat) {x : Nat} (hx : 0 < x) :
    nearestUnits (num * x) (den * x) = nearestUnits num den := by
  unfold nearestUnits
  dsimp only
  rw [Nat.mul_div_mul_right _ _ hx, Nat.mul_right_comm, roundHalfEven_scale _ _ hx]

/-- A representable count is its own rounding. -/
theorem nearestUnits_of_dvd {units : Nat} (h : gridStep units ∣ units) :
    nearestUnits units 1 = units := by
  unfold nearestUnits roundHalfEven
  have hpos : 0 < gridStep units := Nat.pow_pos (by decide)
  simp only [Nat.div_one, Nat.one_mul, Nat.mod_eq_zero_of_dvd h, Nat.mul_zero, hpos, if_true]
  exact Nat.div_mul_cancel h

namespace Number

/-- Ratios of the same value are the same number. -/
theorem ofRatio_scale (negative : Bool) (num den : Nat) {x : Nat} (hx : 0 < x) :
    ofRatio negative (num * x) (den * x) = ofRatio negative num den := by
  unfold ofRatio
  simp only [nearestUnits_scale num den hx]

/-- Ratios of the same value are the same number. -/
theorem ofRatio_congr {negative : Bool} {a b c d : Nat} (hb : 0 < b) (hd : 0 < d)
    (h : a * d = c * b) : ofRatio negative a b = ofRatio negative c d := by
  rw [← ofRatio_scale negative a b hd, h, Nat.mul_comm b d, ofRatio_scale negative c d hb]

end Number

namespace Magnitude

/-- A magnitude is the rounding of its own count. -/
theorem ofRatio_units (m : Magnitude) (negative : Bool) :
    Number.ofRatio negative m.units 1 = .finite negative m := by
  have hunits := nearestUnits_of_dvd m.onGrid
  unfold Number.ofRatio
  rw [dif_pos (by rw [hunits]; exact m.bounded)]
  simp only [hunits]

/-- A ratio that is a whole representable count. -/
theorem ofRatio_mul (m : Magnitude) (negative : Bool) {x : Nat} (hx : 0 < x) :
    Number.ofRatio negative (m.units * x) x = .finite negative m := by
  have hscale := Number.ofRatio_scale negative m.units 1 hx
  rw [Nat.one_mul] at hscale
  rw [hscale, ofRatio_units]

end Magnitude

namespace Decimal

/-- A factor of ten adds a digit. -/
theorem length_digits_mul_ten {c : Nat} (hc : 0 < c) :
    (Nat.toDigits 10 (c * 10)).length = (Nat.toDigits 10 c).length + 1 := by
  rw [Nat.toDigits_of_base_le (by decide) (by omega), List.length_append, List.length_singleton,
    Nat.mul_div_cancel _ (by decide)]

/-- A power of ten adds as many digits as its exponent says. -/
theorem length_digits_mul_pow {c : Nat} (hc : 0 < c) (k : Nat) :
    (Nat.toDigits 10 (c * 10 ^ k)).length = (Nat.toDigits 10 c).length + k := by
  induction k with
  | zero => rw [Nat.pow_zero, Nat.mul_one, Nat.add_zero]
  | succ k ih =>
    rw [Nat.pow_succ, ← Nat.mul_assoc,
      length_digits_mul_ten (Nat.mul_pos hc (Nat.pow_pos (by decide))), ih, Nat.add_assoc]

/-- Moving zeros from the coefficient into the exponent keeps the number. -/
theorem toNumber_shift (negative : Bool) {c : Nat} (hc : 0 < c) (k : Nat) (e : Int) :
    toNumber negative ⟨c * 10 ^ k, e⟩ = toNumber negative ⟨c, e + k⟩ := by
  have hpow : 0 < 10 ^ k := Nat.pow_pos (by decide)
  -- the point is where it was, so the range checks come out alike
  have hpoint : point ⟨c * 10 ^ k, e⟩ = point ⟨c, e + k⟩ := by
    unfold point digits
    rw [length_digits_mul_pow hc]
    push_cast
    omega
  unfold toNumber
  rw [hpoint]
  rw [if_neg (Nat.ne_of_gt (Nat.mul_pos hc hpow)), if_neg (Nat.ne_of_gt hc)]
  split
  · rfl
  split
  · rfl
  dsimp only
  -- the exponents are both above zero, on either side of it, or both below; the powers of ten that
  -- they leave to the ratio differ by the zeros that were moved
  by_cases he : 0 ≤ e
  · rw [if_pos he, if_pos (by omega), show (e + k).toNat = k + e.toNat by omega, Nat.pow_add,
      Nat.mul_assoc c]
  rw [if_neg he]
  by_cases hek : 0 ≤ e + k
  · rw [if_pos hek]
    obtain ⟨j, hj⟩ : ∃ j, k = j + (-e).toNat := ⟨k - (-e).toNat, by omega⟩
    have hj' : (e + k).toNat = j := by omega
    have hscale := Number.ofRatio_scale negative (c * 10 ^ j * unitsPerOne) 1
      (x := 10 ^ (-e).toNat) (Nat.pow_pos (by decide))
    rw [Nat.one_mul] at hscale
    rw [hj', ← hscale, hj, Nat.pow_add]
    congr 1
    ac_rfl
  · rw [if_neg hek]
    have hscale := Number.ofRatio_scale negative (c * unitsPerOne) (10 ^ (-(e + k)).toNat) hpow
    rw [← hscale, ← Nat.pow_add, show (-(e + k)).toNat + k = (-e).toNat by omega]
    congr 1
    ac_rfl

end Decimal

end Descramble
