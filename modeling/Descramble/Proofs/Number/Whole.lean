import Descramble.Number.Arithmetic
import Descramble.Proofs.Number.Shortest

/-!
# Whole numbers

The whole numbers up to `2 ^ 53` are numbers themselves, and so are their sums and products up to
there. A number that equals one of them is whole, and cut toward zero it is that whole number; the
two zeros both equal zero.

Main statements: `equals_ofInt_iff`, `ofNat_lt_iff_of_truncate?` for the order, and `ofNat_mul` and
`ofNat_add` for the arithmetic.
-/

namespace Descramble.Number

variable {x y : Number} {n bound : Nat} {i : Int}

/-- A natural number of at most 53 binary digits needs no rounding. -/
theorem ofNat_eq_finite (h : n ≤ 2 ^ 53) :
    ∃ m : Magnitude, ofNat n = .finite false m ∧ m.units = n * unitsPerOne := by
  have hgrid : gridStep (n * unitsPerOne) ∣ n * unitsPerOne := by
    rw [Magnitude.unitsPerOne_eq]
    exact gridStep_dvd_mul_pow 1074 h
  -- stated for any count in place of the units, which are too many to be computed with
  have hmul (u k : Nat) (hu : 0 < u) (hk : n < k) : n * u < u * k := by
    rw [Nat.mul_comm n u]
    exact Nat.mul_lt_mul_of_pos_left hk hu
  have hbound : n * unitsPerOne < unitsOfInfinity :=
    hmul _ _ unitsPerOne_pos (calc
      n < 2 ^ 128 := Nat.lt_of_le_of_lt h (Nat.pow_lt_pow_right (by decide) (by decide))
      _ ≤ (2 ^ 128) ^ 8 := Nat.le_self_pow (show 8 ≠ 0 by decide) (2 ^ 128))
  exact ⟨⟨n * unitsPerOne, hgrid, hbound⟩, Magnitude.ofRatio_units ⟨_, hgrid, hbound⟩ false, rfl⟩

/-- Where a natural number stands. -/
theorem rank?_ofNat (h : n ≤ 2 ^ 53) : (ofNat n).rank? = some ((n * unitsPerOne : Nat) : Int) := by
  obtain ⟨m, hm, hunits⟩ := ofNat_eq_finite h
  rw [hm, rank?, hunits]
  rfl

/-! ## Signs -/

/-- The sign of a ratio is no part of its rounding. -/
theorem neg_ofRatio (negative : Bool) (num den : Nat) :
    (ofRatio negative num den).neg = ofRatio (!negative) num den := by
  unfold ofRatio
  split <;> rfl

/-- A natural number is a whole number without a minus. -/
theorem ofInt_natCast (n : Nat) : ofInt n = ofNat n :=
  rfl

/-- A whole number is the natural number of its size with its sign. -/
theorem ofInt_eq (i : Int) :
    ofInt i = if i < 0 then (ofNat i.natAbs).neg else ofNat i.natAbs := by
  unfold ofNat ofInt
  split
  · rename_i hneg
    rw [neg_ofRatio, decide_eq_true hneg]
    rfl
  · rename_i hneg
    rw [decide_eq_false hneg]

/-- Where a whole number stands. -/
theorem rank?_ofInt (h : i.natAbs ≤ 2 ^ 53) : (ofInt i).rank? = some (i * unitsPerOne) := by
  obtain ⟨m, hm, hunits⟩ := ofNat_eq_finite h
  rw [ofInt_eq, hm]
  split
  · rename_i hneg
    have hsize : (i.natAbs : Int) = -i := by omega
    simp only [neg, rank?, hunits, Bool.not_false, if_true, Int.natCast_mul, hsize, Int.neg_mul,
      Int.neg_neg]
  · rename_i hneg
    have hsize : (i.natAbs : Int) = i := by omega
    simp only [rank?, hunits, Bool.false_eq_true, if_false, Int.natCast_mul, hsize]

/-! ## Numbers that equal a whole number -/

/-- Two numbers are equal if they stand at the same place. -/
theorem equals_iff_rank? : x.equals y = true ↔ ∃ i, x.rank? = some i ∧ y.rank? = some i := by
  unfold equals
  cases x.rank? with
  | none => simp
  | some i => cases y.rank? with
    | none => simp
    | some j => simp [beq_iff_eq, eq_comm (a := j)]

/-- One number is less than another if it stands before it. -/
theorem lt_iff_rank? :
    x.lt y = true ↔ ∃ i j, x.rank? = some i ∧ y.rank? = some j ∧ i < j := by
  unfold lt compare?
  cases x.rank? <;> cases y.rank? <;> simp [Int.compare_eq_lt]

/-- Equality goes both ways. -/
theorem equals_symm (h : x.equals y = true) : y.equals x = true := by
  obtain ⟨i, hx, hy⟩ := equals_iff_rank?.mp h
  exact equals_iff_rank?.mpr ⟨i, hy, hx⟩

/-- What is less than a number is less than what equals it. -/
theorem lt_of_lt_of_equals {z : Number} (h : x.lt y = true) (heq : y.equals z = true) :
    x.lt z = true := by
  obtain ⟨i, j, hx, hy, hlt⟩ := lt_iff_rank?.mp h
  obtain ⟨k, hy', hz⟩ := equals_iff_rank?.mp heq
  cases hy.symm.trans hy'
  exact lt_iff_rank?.mpr ⟨i, j, hx, hz, hlt⟩

/-- A count is a whole number of ones exactly if it leaves no remainder. -/
theorem count_eq_mul_iff {u one : Nat} (hone : 0 < one) (i : Int) :
    (u : Int) = i * one ↔ u % one = 0 ∧ ((u / one : Nat) : Int) = i := by
  have hone' : (one : Int) ≠ 0 := by omega
  constructor
  · intro h
    have hdvd : one ∣ u := Int.natCast_dvd_natCast.mp ⟨i, by rw [h, Int.mul_comm]⟩
    obtain ⟨k, rfl⟩ := hdvd
    rw [Nat.mul_mod_right, Nat.mul_div_cancel_left k hone]
    rw [Int.natCast_mul, Int.mul_comm] at h
    exact ⟨rfl, Int.eq_of_mul_eq_mul_right hone' h⟩
  · rintro ⟨hmod, rfl⟩
    rw [← Int.natCast_mul, Nat.div_mul_cancel (Nat.dvd_of_mod_eq_zero hmod)]

/-- A signed count is a whole number of ones exactly if it is one after the division by them. -/
theorem signed_eq_mul_iff {u one : Nat} (hone : 0 < one) (negative : Bool) (i : Int) :
    (if negative then -(u : Int) else u) = i * one ↔
      u % one = 0 ∧ (if negative then -((u / one : Nat) : Int) else (u / one : Nat)) = i := by
  cases negative with
  | false => exact count_eq_mul_iff hone i
  | true =>
    -- with a minus both sides are turned around
    have hflip (k j : Int) : -k = j ↔ k = -j := by omega
    rw [if_pos rfl, if_pos rfl, hflip, hflip, ← Int.neg_mul]
    exact count_eq_mul_iff hone (-i)

/-- The numbers that equal a whole number are whole, and are it cut toward zero. -/
theorem equals_ofInt_iff (h : i.natAbs ≤ 2 ^ 53) :
    x.equals (ofInt i) = true ↔ x.isWhole = true ∧ x.truncate? = some i := by
  rw [equals_iff_rank?, rank?_ofInt h]
  cases x with
  | nan => simp [rank?, isWhole]
  | infinite negative =>
    -- infinity has a place among the numbers too, beyond that of every number
    obtain ⟨m, -, hunits⟩ := ofNat_eq_finite h
    have hlt : i.natAbs * unitsPerOne < unitsOfInfinity := hunits ▸ m.bounded
    have hsize : (i * unitsPerOne).natAbs = i.natAbs * unitsPerOne := by
      rw [Int.natAbs_mul, Int.natAbs_natCast]
    have hne : (if negative then -(unitsOfInfinity : Int) else unitsOfInfinity) ≠
        i * unitsPerOne := by
      generalize unitsOfInfinity = top at hlt
      generalize i * (unitsPerOne : Int) = j at hsize
      split <;> omega
    refine iff_of_false ?_ fun hwhole => Bool.false_ne_true hwhole.1
    rintro ⟨j, hj, hj'⟩
    exact hne (Option.some.inj (hj.trans hj'.symm))
  | finite negative m =>
    simp only [rank?, isWhole, truncate?, Option.some.injEq, beq_iff_eq, exists_eq_right']
    exact signed_eq_mul_iff unitsPerOne_pos negative i

/-- The numbers that equal a natural number are whole, and are it cut toward zero. -/
theorem equals_ofNat_iff (h : n ≤ 2 ^ 53) :
    x.equals (ofNat n) = true ↔ x.isWhole = true ∧ x.truncate? = some (n : Int) := by
  rw [← ofInt_natCast]
  exact equals_ofInt_iff h

/-- Where a whole number stands that is a natural number cut toward zero. -/
theorem rank?_of_truncate? (hwhole : x.isWhole = true) (htrunc : x.truncate? = some (n : Int)) :
    x.rank? = some ((n * unitsPerOne : Nat) : Int) := by
  cases x with
  | nan => cases hwhole
  | infinite negative => cases hwhole
  | finite negative m =>
    simp only [isWhole, truncate?, Option.some.injEq, beq_iff_eq] at hwhole htrunc
    rw [rank?, (signed_eq_mul_iff unitsPerOne_pos negative n).mpr ⟨hwhole, htrunc⟩, Int.natCast_mul]

/-- A whole number is above a natural one if it is so cut toward zero. -/
theorem ofNat_lt_iff_of_truncate? (hbound : bound ≤ 2 ^ 53) (hwhole : x.isWhole = true)
    (htrunc : x.truncate? = some (n : Int)) : (ofNat bound).lt x = true ↔ bound < n := by
  rw [lt_iff_rank?, rank?_ofNat hbound, rank?_of_truncate? hwhole htrunc]
  simp only [Option.some.injEq, exists_and_left, exists_eq_left', Int.ofNat_lt]
  exact Nat.mul_lt_mul_right unitsPerOne_pos

/-- What equals a natural number is above another one if the natural number is. -/
theorem ofNat_lt_iff_of_equals (hbound : bound ≤ 2 ^ 53) (hn : n ≤ 2 ^ 53)
    (h : x.equals (ofNat n) = true) : (ofNat bound).lt x = true ↔ bound < n := by
  obtain ⟨hwhole, htrunc⟩ := (equals_ofNat_iff hn).mp h
  exact ofNat_lt_iff_of_truncate? hbound hwhole htrunc

/-- A natural number of at most 53 binary digits is whole, and is itself cut toward zero. -/
theorem truncate?_ofNat (h : n ≤ 2 ^ 53) :
    (ofNat n).isWhole = true ∧ (ofNat n).truncate? = some (n : Int) :=
  (equals_ofNat_iff h).mp (equals_iff_rank?.mpr ⟨_, rank?_ofNat h, rank?_ofNat h⟩)

/-- The last 32 bits of a number that is a natural number cut toward zero. -/
theorem toNat_toUInt32 (h : x.truncate? = some (n : Int)) : x.toUInt32.toNat = n % 2 ^ 32 := by
  have hcast : ((n : Int) % 2 ^ 32).toNat = n % 2 ^ 32 := by omega
  unfold toUInt32
  rw [h]
  dsimp only
  rw [hcast, UInt32.toNat_ofNat']
  omega

/-! ## Sums and products -/

/-- The natural number zero is the positive zero. -/
theorem ofNat_zero : ofNat 0 = zero := by
  obtain ⟨m, hm, hunits⟩ := ofNat_eq_finite (Nat.zero_le (2 ^ 53))
  obtain ⟨units, _, _⟩ := m
  obtain rfl : units = 0 := hunits.trans (Nat.zero_mul _)
  exact hm

/-- The product of natural numbers that need no rounding is rounded once. -/
theorem ofNat_mul {a b : Nat} (ha : a ≤ 2 ^ 53) (hb : b ≤ 2 ^ 53) :
    (ofNat a).mul (ofNat b) = ofNat (a * b) := by
  obtain ⟨m, hm, hunits⟩ := ofNat_eq_finite ha
  obtain ⟨k, hk, hunits'⟩ := ofNat_eq_finite hb
  have hone : 0 < unitsPerOne := unitsPerOne_pos
  rw [hm, hk]
  unfold mul ofNat
  dsimp only
  rw [hunits, hunits', bne_self_eq_false]
  generalize unitsPerOne = one at hone
  -- the product of the counts is one unit too many times a unit
  apply ofRatio_congr hone Nat.one_pos
  ac_rfl

/-- So is their sum. -/
theorem ofNat_add {a b : Nat} (ha : a ≤ 2 ^ 53) (hb : b ≤ 2 ^ 53) :
    (ofNat a).add (ofNat b) = ofNat (a + b) := by
  obtain ⟨m, hm, hunits⟩ := ofNat_eq_finite ha
  obtain ⟨k, hk, hunits'⟩ := ofNat_eq_finite hb
  -- both are counted in units without a sign, so their sum is
  have hsum : signedUnits false m + signedUnits false k = ((a + b) * unitsPerOne : Nat) := by
    unfold signedUnits
    rw [Nat.add_mul, ← hunits, ← hunits', if_neg Bool.false_ne_true, if_neg Bool.false_ne_true,
      Int.natCast_add]
  rw [hm, hk]
  unfold add ofNat
  dsimp only
  rw [hsum, Bool.and_self]
  generalize (a + b) * unitsPerOne = sum
  split
  · rename_i hzero
    rw [Int.natCast_eq_zero.mp hzero]
  · rw [decide_eq_false (by omega), Int.natAbs_natCast]

/-! ## Natural numbers that are rounded -/

/-- Rounding keeps the first binary digit. -/
theorem two_pow_log2_le_nearestUnits {num den : Nat} (h : num / den ≠ 0) :
    2 ^ (num / den).log2 ≤ nearestUnits num den := by
  have hstep : gridStep (num / den) ∣ 2 ^ (num / den).log2 := Nat.pow_dvd_pow 2 (Nat.sub_le _ _)
  have hround (num den : Nat) : num / den ≤ roundHalfEven num den := by
    unfold roundHalfEven
    dsimp only
    split
    · exact Nat.le_refl _
    · split <;> omega
  -- the power of two is on the grid, so cutting the ratio down to the grid does not go below it
  unfold nearestUnits
  calc 2 ^ (num / den).log2
      = 2 ^ (num / den).log2 / gridStep (num / den) * gridStep (num / den) :=
        (Nat.div_mul_cancel hstep).symm
    _ ≤ num / den / gridStep (num / den) * gridStep (num / den) :=
        Nat.mul_le_mul_right _ (Nat.div_le_div_right (Nat.log2_self_le h))
    _ = num / (den * gridStep (num / den)) * gridStep (num / den) := by
        rw [Nat.div_div_eq_div_mul]
    _ ≤ roundHalfEven num (den * gridStep (num / den)) * gridStep (num / den) :=
        Nat.mul_le_mul_right _ (hround _ _)

/-- A power of two that is reached is reached after rounding. -/
theorem two_pow_le_nearestUnits {k num den : Nat} (h : 2 ^ k ≤ num / den) :
    2 ^ k ≤ nearestUnits num den := by
  have hne : num / den ≠ 0 := Nat.ne_of_gt (Nat.lt_of_lt_of_le (Nat.pow_pos (by decide)) h)
  have hlog : 2 ^ k ≤ 2 ^ (num / den).log2 :=
    Nat.pow_le_pow_right (by decide) ((Nat.le_log2 hne).mpr h)
  exact Nat.le_trans hlog (two_pow_log2_le_nearestUnits hne)

/-- A natural number of more than 53 binary digits is above all of fewer, however it is rounded. -/
theorem exists_rank?_ofNat (h : 2 ^ 53 ≤ n) (hlt : bound < 2 ^ 53) :
    ∃ i, (ofNat n).rank? = some i ∧ ((bound * unitsPerOne : Nat) : Int) < i := by
  obtain ⟨k, hk⟩ : ∃ k, 2 ^ 53 * unitsPerOne = 2 ^ k := by
    obtain ⟨a, ha⟩ : ∃ a, unitsPerOne = 2 ^ a := ⟨_, Magnitude.unitsPerOne_eq⟩
    exact ⟨53 + a, by rw [ha, Nat.pow_add]⟩
  have hreached : 2 ^ 53 * unitsPerOne ≤ nearestUnits (n * unitsPerOne) 1 := by
    have hle : 2 ^ 53 * unitsPerOne ≤ n * unitsPerOne := Nat.mul_le_mul_right _ h
    rw [hk] at hle ⊢
    exact two_pow_le_nearestUnits (by rwa [Nat.div_one])
  have hunits : bound * unitsPerOne < nearestUnits (n * unitsPerOne) 1 :=
    Nat.lt_of_lt_of_le (Nat.mul_lt_mul_of_pos_right hlt unitsPerOne_pos) hreached
  -- what is too large for a number becomes infinity, which is beyond all of them
  unfold ofNat ofRatio
  split
  · exact ⟨_, rfl, Int.ofNat_lt.mpr hunits⟩
  · obtain ⟨m, -, hm⟩ := ofNat_eq_finite (Nat.le_of_lt hlt)
    exact ⟨_, rfl, Int.ofNat_lt.mpr (hm ▸ m.bounded)⟩

/-- A larger natural number is a larger number as long as the smaller one needs no rounding. -/
theorem ofNat_lt_ofNat (hbound : bound < 2 ^ 53) (h : bound < n) :
    (ofNat bound).lt (ofNat n) = true := by
  -- a natural number that needs no rounding, or one that lies beyond all that need none
  by_cases hn : n ≤ 2 ^ 53
  · obtain ⟨hwhole, htrunc⟩ := truncate?_ofNat hn
    exact (ofNat_lt_iff_of_truncate? (Nat.le_of_lt hbound) hwhole htrunc).mpr h
  · obtain ⟨i, hi, hlt⟩ := exists_rank?_ofNat (Nat.le_of_not_le hn) hbound
    exact lt_iff_rank?.mpr ⟨_, i, rank?_ofNat (Nat.le_of_lt hbound), hi, hlt⟩

end Descramble.Number
