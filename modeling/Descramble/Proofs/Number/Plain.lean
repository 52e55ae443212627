import Descramble.Proofs.Number.Nearest
import Descramble.Proofs.Number.Text
import Mathlib.Tactic.NormNum

/-!
# The texts of whole numbers

The shortest decimal of a whole number below `2 ^ 53` is the number itself, with the zeros at its
end in the exponent: whatever else reads back as the number has more digits. Its layout puts the
zeros back, so the text of the number is its decimal numeral.

Main statements: `Decimal.value_eq_of_reads`, `Number.toText_of_equals`.
-/

namespace Descramble

namespace Decimal

variable {d : Decimal} {n c k : Nat}

/-! ## Zeros at the end -/

/-- The zeros that are dropped from the end are counted in the exponent. -/
theorem exists_dropZeros (bound : Nat) (d : Decimal) :
    ∃ k : Nat, (dropZeros bound d).exponent = d.exponent + k ∧
      (dropZeros bound d).coefficient * 10 ^ k = d.coefficient := by
  induction bound generalizing d with
  | zero => exact ⟨0, by simp [dropZeros]⟩
  | succ bound ih =>
    unfold dropZeros
    split
    · rename_i hzero
      obtain ⟨k, hexponent, hcoefficient⟩ := ih ⟨d.coefficient / 10, d.exponent + 1⟩
      -- this zero and those that are dropped after it
      refine ⟨k + 1, ?_, ?_⟩
      · rw [hexponent]
        push_cast
        omega
      · rw [Nat.pow_succ, ← Nat.mul_assoc, hcoefficient]
        exact Nat.div_mul_cancel (Nat.dvd_of_mod_eq_zero hzero)
    · exact ⟨0, by simp⟩

/-- No zero is left if there are at most as many digits as zeros may be dropped. -/
theorem coefficient_dropZeros_mod {bound : Nat} (hpos : 0 < d.coefficient)
    (h : d.coefficient < 10 ^ bound) : (dropZeros bound d).coefficient % 10 ≠ 0 := by
  induction bound generalizing d with
  | zero =>
    rw [Nat.pow_zero] at h
    omega
  | succ bound ih =>
    rw [Nat.pow_succ] at h
    -- each zero that is dropped takes the coefficient below the next power of ten
    unfold dropZeros
    split
    · apply ih
      · show 0 < d.coefficient / 10
        omega
      · show d.coefficient / 10 < 10 ^ bound
        omega
    · assumption

/-- What a natural number is without the zeros at its end. -/
theorem exists_normalize (hn : 0 < n) :
    ∃ k : Nat, (normalize ⟨n, 0⟩).exponent = k ∧ (normalize ⟨n, 0⟩).coefficient * 10 ^ k = n ∧
      (normalize ⟨n, 0⟩).coefficient % 10 ≠ 0 := by
  unfold normalize
  rw [if_neg (Nat.ne_of_gt hn)]
  obtain ⟨k, hexponent, hcoefficient⟩ := exists_dropZeros (digits ⟨n, 0⟩).length ⟨n, 0⟩
  rw [Int.zero_add] at hexponent
  exact ⟨k, hexponent, hcoefficient, coefficient_dropZeros_mod hn (lt_ten_pow_digits ⟨n, 0⟩)⟩

/-- A power of ten puts zeros behind the digits. -/
theorem toDigits_mul_ten_pow (hc : 0 < c) (k : Nat) :
    Nat.toDigits 10 (c * 10 ^ k) = Nat.toDigits 10 c ++ List.replicate k '0' := by
  have hdigits (d : Char) (hd : d ∈ List.replicate k '0') : d.isDigit := isDigit_of_mem_zeros hd
  have hzeros := toDigits_ofDigitChars_of_pos hdigits hc
  rwa [Nat.ofDigitChars_replicate_zero, Nat.mul_comm] at hzeros

/-- A natural number of at most 21 digits is laid out as these digits, however many of its zeros
    are in the exponent. -/
theorem layout_of_whole (hc : 0 < c) (h : (Nat.toDigits 10 (c * 10 ^ k)).length ≤ 21) :
    layout ⟨c, k⟩ = Nat.toDigits 10 (c * 10 ^ k) := by
  rw [length_digits_mul_pow hc] at h
  unfold layout point digits
  dsimp only
  rw [if_pos (by omega), toDigits_mul_ten_pow hc, add_sub_cancel_left, Int.toNat_natCast]

/-! ## Nothing shorter reads back -/

/-- A decimal that is read as a whole number is as near to it as to any other number. -/
theorem abs_sub_value_le {other : Magnitude} {x : ℚ} (hn : n ≤ 2 ^ 53)
    (h : d.toNumber false = .ofNat n) (hother : (other.units : ℚ) = x * unitsPerOne) :
    |(n : ℚ) - d.value| ≤ |x - d.value| := by
  obtain ⟨m, hm, hunits⟩ := Number.ofNat_eq_finite hn
  have hone : (0 : ℚ) < unitsPerOne := by exact_mod_cast unitsPerOne_pos
  rw [toNumber_eq_nearest, hm] at h
  have hnearest := Number.abs_units_sub_le_of_nearest d.value_nonneg h other
  rw [hunits, hother, Nat.cast_mul, ← sub_mul, ← sub_mul, abs_mul, abs_mul] at hnearest
  exact le_of_mul_le_mul_right hnearest (abs_pos.mpr hone.ne')

/-- A decimal that is read as a whole number is within a half of it. -/
theorem abs_sub_value_le_half (hn : 0 < n) (hlt : n < 2 ^ 53) (h : d.toNumber false = .ofNat n) :
    |(n : ℚ) - d.value| ≤ 1 / 2 := by
  -- the whole numbers next to it are no nearer
  have hnext (j : Nat) (hj : j ≤ 2 ^ 53) : |(n : ℚ) - d.value| ≤ |(j : ℚ) - d.value| := by
    obtain ⟨m, -, hunits⟩ := Number.ofNat_eq_finite hj
    exact abs_sub_value_le hlt.le h (by rw [hunits, Nat.cast_mul])
  -- neither the next number nor the one before is nearer
  have habove := hnext (n + 1) hlt
  have hbelow := hnext (n - 1) (by omega)
  rw [Nat.cast_sub hn] at hbelow
  push_cast at habove hbelow
  generalize d.value = v at habove hbelow ⊢
  grind

/-- One is the nearest number only to what is above fifteen sixteenths. -/
theorem le_value_of_reads_one (h : d.toNumber false = .ofNat 1) : 15 / 16 ≤ d.value := by
  obtain ⟨m, hunits⟩ : ∃ m : Magnitude, m.units * 8 = 7 * unitsPerOne := by
    obtain ⟨k, hk⟩ : ∃ k, 1074 = k + 3 := ⟨_, rfl⟩
    have hone : unitsPerOne = 2 ^ k * 8 := by
      rw [Magnitude.unitsPerOne_eq, hk]
      exact Nat.pow_add 2 k 3
    obtain ⟨whole, -, hwhole⟩ := Number.ofNat_eq_finite (show 7 ≤ 2 ^ 53 by decide)
    refine ⟨⟨7 * 2 ^ k, gridStep_dvd_mul_pow k (by decide), ?_⟩, ?_⟩
    · have hbounded := whole.bounded
      omega
    · rw [hone, Nat.mul_assoc]
  -- seven eighths is a number too, and it is no nearer
  have hother : (m.units : ℚ) = 7 / 8 * unitsPerOne := by
    have hcast : (m.units : ℚ) * 8 = 7 * unitsPerOne := by exact_mod_cast hunits
    linarith
  have hnear := abs_sub_value_le (by decide) h hother
  rw [Nat.cast_one] at hnear
  generalize d.value = v at hnear ⊢
  grind

/-- Behind the point a decimal spends one digit more than its value needs. -/
theorem value_le_of_exponent (h : d.exponent < 0) : 10 * d.value ≤ d.coefficient := by
  have hpow : (10 : ℚ) ^ d.exponent ≤ 10 ^ (-1 : Int) :=
    zpow_le_zpow_right₀ (by norm_num) (by omega)
  have hle : d.value ≤ d.coefficient * 10 ^ (-1 : Int) :=
    mul_le_mul_of_nonneg_left hpow (Nat.cast_nonneg _)
  rw [zpow_neg_one] at hle
  linarith

/-- The coefficient of a decimal with digits behind the point is near ten times the number that it
    is read as, or above that. -/
theorem ten_mul_le_coefficient (hn : 0 < n) (hlt : n < 2 ^ 53)
    (h : d.toNumber false = .ofNat n) (hexponent : d.exponent < 0) :
    10 * n ≤ d.coefficient + 5 ∧ (n = 1 → 10 ≤ d.coefficient) := by
  have hle := value_le_of_exponent hexponent
  constructor
  · have hhalf := (abs_le.mp (abs_sub_value_le_half hn hlt h)).2
    have hcast : (10 : ℚ) * n ≤ d.coefficient + 5 := by linarith
    exact_mod_cast hcast
  · rintro rfl
    have hone := le_value_of_reads_one h
    have hcast : (9 : ℚ) < d.coefficient := by linarith
    exact_mod_cast hcast

/-- Of the decimals that are read as a whole number only the number itself has as few digits as the
    number without the zeros at its end. -/
theorem value_eq_of_reads (hn : 0 < n) (hlt : n < 2 ^ 53) (h : d.toNumber false = .ofNat n)
    (hlength : d.digits.length ≤ (normalize ⟨n, 0⟩).digits.length) : d.value = n := by
  rcases Int.lt_or_le d.exponent 0 with hexponent | hexponent
  · -- digits behind the point are too many
    exfalso
    obtain ⟨k, -, hzeros, hmod⟩ := exists_normalize hn
    generalize normalize ⟨n, 0⟩ = shortest at hlength hzeros hmod
    obtain ⟨hlarge, hone⟩ := ten_mul_le_coefficient hn hlt h hexponent
    have hne : shortest.coefficient ≠ 0 := fun hzero => hmod (by rw [hzero])
    have hcount : d.coefficient < 10 * 10 ^ (shortest.digits.length - 1) := by
      calc d.coefficient < 10 ^ d.digits.length := d.lt_ten_pow_digits
        _ ≤ 10 ^ shortest.digits.length := Nat.pow_le_pow_right (by decide) hlength
        _ = 10 * 10 ^ (shortest.digits.length - 1) := by
          rw [← Nat.pow_succ', Nat.succ_eq_add_one,
            Nat.sub_add_cancel (show 1 ≤ shortest.digits.length from Nat.length_toDigits_pos)]
    have hleast := ten_pow_digits_le hne
    cases k with
    | zero =>
      -- the number has no zeros at its end, so it is a power of ten only if it is one
      cases hdigits : shortest.digits.length - 1 with
      | zero => rw [hdigits] at hcount hleast; omega
      | succ i => rw [hdigits, Nat.pow_succ] at hcount hleast; omega
    | succ k =>
      have hpow : shortest.coefficient * 1 ≤ shortest.coefficient * 10 ^ k :=
        Nat.mul_le_mul_left _ (Nat.pow_pos (by decide))
      rw [Nat.pow_succ, ← Nat.mul_assoc] at hzeros
      omega
  -- a decimal without digits behind the point is whole, so it is the whole number within a half
  · obtain ⟨k, hk⟩ := Int.eq_ofNat_of_zero_le hexponent
    have hvalue : d.value = (d.coefficient * 10 ^ k : Nat) := by
      rw [value, hk, zpow_natCast]
      push_cast
      rfl
    have hhalf := abs_sub_value_le_half hn hlt h
    rw [hvalue] at hhalf ⊢
    generalize d.coefficient * 10 ^ k = j at hhalf ⊢
    have hnear : |(n : ℤ) - j| < 1 := by
      have : |(n : ℚ) - j| < 1 := lt_of_le_of_lt hhalf (by norm_num)
      exact_mod_cast this
    have := Int.abs_lt_one_iff.mp hnear
    norm_cast
    omega

end Decimal

variable {n : Nat} {m : Magnitude}

/-- The shortest decimal of a whole number is the number without the zeros at its end. -/
theorem Magnitude.shortest_of_whole (hunits : m.units = n * unitsPerOne) (hlt : n < 2 ^ 53) :
    m.shortest = Decimal.normalize ⟨n, 0⟩ := by
  have hdiv : m.units / unitsPerOne = n := by
    rw [hunits, Nat.mul_div_cancel n unitsPerOne_pos]
  have hmod : m.units % unitsPerOne = 0 := by
    rw [hunits, Nat.mul_mod_left]
  unfold shortest
  rw [hdiv, if_pos ⟨hmod, hlt⟩]

/-- No other decimal with as few digits is read as the same whole number. -/
theorem Magnitude.value_eq_of_reads (hn : 0 < n) (hlt : n < 2 ^ 53)
    (hunits : m.units = n * unitsPerOne) {d : Decimal} (h : d.toNumber false = .finite false m)
    (hlength : d.digits.length ≤ m.shortest.digits.length) : d.value = m.shortest.value := by
  have hvalue : (Decimal.normalize ⟨n, 0⟩).value = n := by
    obtain ⟨k, hexponent, hcoefficient, -⟩ := Decimal.exists_normalize hn
    rw [Decimal.value, hexponent, zpow_natCast]
    exact_mod_cast hcoefficient
  -- the magnitude is that of the natural number
  have hm : Number.finite false m = .ofNat n := by
    rw [← m.ofRatio_units, hunits]
    rfl
  rw [shortest_of_whole hunits hlt] at hlength ⊢
  rw [hvalue]
  exact Decimal.value_eq_of_reads hn hlt (h.trans hm) hlength

namespace Number

/-! ## The text -/

/-- The layout of the shortest decimal has the zeros of the number again. -/
theorem layout_shortest (hn : 0 < n) (hlt : n < 2 ^ 53) (hunits : m.units = n * unitsPerOne) :
    m.shortest.layout = Nat.toDigits 10 n := by
  obtain ⟨k, hexponent, hcoefficient, hmod⟩ := Decimal.exists_normalize hn
  have hlength : (Nat.toDigits 10 n).length ≤ 21 :=
    (Nat.length_toDigits_le_iff (by decide) (by decide)).mpr (Nat.lt_trans hlt (by decide))
  rw [Magnitude.shortest_of_whole hunits hlt]
  generalize Decimal.normalize ⟨n, 0⟩ = d at hexponent hcoefficient hmod
  obtain ⟨c, e⟩ := d
  obtain rfl : e = k := hexponent
  obtain rfl : c * 10 ^ k = n := hcoefficient
  have hc : 0 < c := Nat.pos_of_ne_zero fun hzero => hmod (by simp [hzero])
  exact Decimal.layout_of_whole hc hlength

/-- The text of a whole number is its decimal numeral. -/
theorem toText_of_whole (hn : 0 < n) (hlt : n < 2 ^ 53) (hunits : m.units = n * unitsPerOne) :
    (finite false m).toText = toString n := by
  have hpos : 0 < m.units := hunits ▸ Nat.mul_pos hn unitsPerOne_pos
  rw [← String.toList_inj, toList_toText hpos, layout_shortest hn hlt hunits]
  exact (Nat.toList_repr).symm

/-- The text of a number that equals a natural number below `2 ^ 53` is the decimal numeral of the
    natural number. -/
theorem toText_of_equals {x : Number} (hlt : n < 2 ^ 53) (h : x.equals (.ofNat n) = true) :
    x.toText = toString n := by
  obtain ⟨hwhole, htrunc⟩ := (equals_ofNat_iff (Nat.le_of_lt hlt)).mp h
  cases x with
  | nan => cases hwhole
  | infinite negative => cases hwhole
  | finite negative m =>
    -- the sign can only be that of a negative zero
    simp only [isWhole, truncate?, Option.some.injEq, beq_iff_eq] at hwhole htrunc
    have hunits := Nat.div_mul_cancel (Nat.dvd_of_mod_eq_zero hwhole)
    generalize m.units / unitsPerOne = quotient at htrunc hunits
    -- zero has its text apart, whatever its sign
    rcases Nat.eq_zero_or_pos n with rfl | hn
    · have hquotient : quotient = 0 := by
        split at htrunc <;> omega
      rw [hquotient, Nat.zero_mul] at hunits
      exact if_pos hunits.symm
    · cases negative with
      | true =>
        rw [if_pos rfl] at htrunc
        omega
      | false =>
        rw [if_neg Bool.false_ne_true, Int.natCast_inj] at htrunc
        exact toText_of_whole hn hlt (htrunc ▸ hunits.symm)

end Number

end Descramble
