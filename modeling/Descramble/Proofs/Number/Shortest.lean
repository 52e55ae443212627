import Descramble.Proofs.Number.Rounding

/-!
# The shortest decimal reads back

Whichever way the shortest decimal of a number was found, it is read as that number again.

Main statement: `Magnitude.toNumber_shortest`.
-/

namespace Descramble

namespace Decimal

/-- Dropping zeros from the end keeps the number. -/
theorem toNumber_dropZeros (negative : Bool) (bound : Nat) {d : Decimal}
    (hd : 0 < d.coefficient) :
    (dropZeros bound d).toNumber negative = d.toNumber negative ∧
      0 < (dropZeros bound d).coefficient := by
  induction bound generalizing d with
  | zero => exact ⟨rfl, hd⟩
  | succ bound ih =>
    unfold dropZeros
    split
    · rename_i hzero
      have hten : d.coefficient / 10 * 10 ^ 1 = d.coefficient := by omega
      have hpos : 0 < d.coefficient / 10 := by omega
      obtain ⟨hsame, hrest⟩ := ih (d := ⟨d.coefficient / 10, d.exponent + 1⟩) hpos
      refine ⟨hsame.trans ?_, hrest⟩
      -- the zero has gone from the coefficient into the exponent
      have hshift := toNumber_shift negative hpos 1 d.exponent
      rw [hten] at hshift
      exact hshift.symm
    · exact ⟨rfl, hd⟩

/-- Leaving out the zeros at the end keeps the number. -/
theorem toNumber_normalize (negative : Bool) {d : Decimal} (hd : 0 < d.coefficient) :
    d.normalize.toNumber negative = d.toNumber negative ∧ 0 < d.normalize.coefficient := by
  unfold normalize
  rw [if_neg (Nat.ne_of_gt hd)]
  exact toNumber_dropZeros negative _ hd

end Decimal

namespace Magnitude

variable {m : Magnitude}

/-- A magnitude with units is not zero. -/
theorem ne_zero_of_units (h : 0 < m.units) :
    Number.finite false m ≠ Number.ofRatio false 0 1 := by
  intro heq
  have hzero := Magnitude.ofRatio_units ⟨0, Nat.dvd_zero _, unitsOfInfinity_pos⟩ false
  rw [hzero] at heq
  obtain ⟨_, hm⟩ := Number.finite.inj heq
  rw [hm] at h
  exact absurd h (Nat.lt_irrefl 0)

/-- A decimal that reads back as a number other than zero has a coefficient. -/
theorem coefficient_pos_of_toNumber {d : Decimal} (h : 0 < m.units)
    (hd : d.toNumber false = .finite false m) : 0 < d.coefficient := by
  refine Nat.pos_of_ne_zero fun hzero => ?_
  unfold Decimal.toNumber at hd
  rw [if_pos hzero] at hd
  exact ne_zero_of_units h hd.symm

/-- How many powers of two a number of digits is enough for. -/
theorem two_pow_le_ten_pow {a b : Nat} (h : a ≤ 3 * b) : 2 ^ a ≤ 10 ^ b :=
  calc 2 ^ a ≤ 2 ^ (3 * b) := Nat.pow_le_pow_right (by decide) h
    _ = 8 ^ b := Nat.pow_mul 2 3 b
    _ ≤ 10 ^ b := Nat.pow_le_pow_left (by decide) b

/-- How many powers of five make up for a power of ten. -/
theorem ten_pow_le_five_pow {a b : Nat} (h : a ≤ 2 * b) : 10 ^ a ≤ 5 ^ (a + b) :=
  calc 10 ^ a = 5 ^ a * 2 ^ a := Nat.mul_pow 5 2 a
    -- each factor of two is made up for by half a factor of five
    _ ≤ 5 ^ a * 2 ^ (2 * b) := Nat.mul_le_mul_left _ (Nat.pow_le_pow_right (by decide) h)
    _ = 5 ^ a * 4 ^ b := by rw [Nat.pow_mul]
    _ ≤ 5 ^ a * 5 ^ b := Nat.mul_le_mul_left _ (Nat.pow_le_pow_left (by decide) b)
    _ = 5 ^ (a + b) := (Nat.pow_add 5 a b).symm

/-- How many digits a count of units of `2 ^ -a` has when it is written out in full. -/
theorem length_expansion_le {u a b c : Nat} (hu : u < 2 ^ a * 2 ^ b) (hb : b ≤ 3 * c)
    (hc : 0 < a + c) : (Nat.toDigits 10 (u * 5 ^ a)).length ≤ a + c := by
  refine (Nat.length_toDigits_le_iff (by decide) hc).mpr ?_
  calc u * 5 ^ a < 2 ^ a * 2 ^ b * 5 ^ a :=
        Nat.mul_lt_mul_of_pos_right hu (Nat.pow_pos (by decide))
    _ = 5 ^ a * 2 ^ a * 2 ^ b := by ac_rfl
    _ = 10 ^ a * 2 ^ b := by rw [← Nat.mul_pow 5 2 a]
    _ ≤ 10 ^ a * 10 ^ c := Nat.mul_le_mul_left _ (two_pow_le_ten_pow hb)
    _ = 10 ^ (a + c) := (Nat.pow_add 10 a c).symm

/-- The expansion of a count has more digits than some number that does not depend on the count. -/
theorem lt_length_expansion {u a b : Nat} (hu : 0 < u) (ha : 0 < a) (h : a ≤ 2 * b) :
    a < (Nat.toDigits 10 (u * 5 ^ (a + b))).length := by
  refine Nat.lt_of_not_le fun hle => ?_
  have hlt := (Nat.length_toDigits_le_iff (by decide) ha).mp hle
  have hge := ten_pow_le_five_pow h
  have := Nat.le_mul_of_pos_left (5 ^ (a + b)) hu
  omega

/-- A unit is `2 ^ -1074`. -/
theorem unitsPerOne_eq : unitsPerOne = 2 ^ 1074 := by
  simp only [unitsPerOne, ← Nat.pow_mul, Nat.reduceMul]

/-- Every magnitude is below the bound of the format, as a product of two powers of two. -/
theorem units_lt (m : Magnitude) {a b : Nat} (ha : unitsPerOne = 2 ^ a) (hb : 128 * 8 = b) :
    m.units < 2 ^ a * 2 ^ b := by
  have h := m.bounded
  unfold unitsOfInfinity at h
  rw [ha, ← Nat.pow_mul, hb] at h
  exact h

/-- Fives and twos pair up to tens. -/
theorem mul_five_pow_mul_two_pow (u a : Nat) : u * 5 ^ a * 2 ^ a = u * 10 ^ a := by
  rw [Nat.mul_assoc, ← Nat.mul_pow 5 2]

/-- A whole number below `2 ^ 53` is read from its digits. -/
theorem toNumber_whole (h : 0 < m.units) (hwhole : m.units % unitsPerOne = 0)
    (hsmall : m.units / unitsPerOne < 2 ^ 53) :
    Decimal.toNumber false ⟨m.units / unitsPerOne, 0⟩ = .finite false m := by
  have hdvd : m.units / unitsPerOne * unitsPerOne = m.units :=
    Nat.div_mul_cancel (Nat.dvd_of_mod_eq_zero hwhole)
  have hpos : m.units / unitsPerOne ≠ 0 := by
    intro hzero
    rw [hzero, Nat.zero_mul] at hdvd
    omega
  -- at most 16 digits, which is far inside the range that is looked at
  have hlength : (Nat.toDigits 10 (m.units / unitsPerOne)).length ≤ 16 :=
    (Nat.length_toDigits_le_iff (by decide) (by decide)).mpr (Nat.lt_trans hsmall (by decide))
  unfold Decimal.toNumber
  rw [if_neg hpos, if_neg, if_neg, if_pos (Int.le_refl 0)]
  · dsimp only
    rw [Int.toNat_zero, Nat.pow_zero, Nat.mul_one, hdvd, ofRatio_units]
  · unfold Decimal.point Decimal.digits
    dsimp only
    omega
  · unfold Decimal.point Decimal.digits
    dsimp only
    omega

/-- A number written out in full stands for itself exactly: its point is well inside the range that
    is looked at. -/
theorem toNumber_expansion {a b c : Nat} (h : 0 < m.units) (ha : unitsPerOne = 2 ^ a)
    (hb : 128 * 8 = b) (hc : a = c + 400) (hpos : 0 < c) (hle : c ≤ 800) :
    Decimal.toNumber false ⟨m.units * 5 ^ a, -a⟩ = .finite false m := by
  have hupper := length_expansion_le (c := 400) (m.units_lt ha hb) (by omega) (by omega)
  have hlower : c < (Nat.toDigits 10 (m.units * 5 ^ a)).length := by
    subst hc
    exact lt_length_expansion h hpos hle
  have hne : 0 < m.units * 5 ^ a := Nat.mul_pos h (Nat.pow_pos (by decide))
  -- a unit is a power of five over a power of ten
  have hvalue : m.units * 5 ^ a * unitsPerOne = m.units * 10 ^ a :=
    ha ▸ mul_five_pow_mul_two_pow m.units a
  unfold Decimal.toNumber Decimal.point Decimal.digits
  dsimp only
  rw [if_neg (Nat.ne_of_gt hne), if_neg (by omega), if_neg (by omega), if_neg (by omega),
    Int.neg_neg, Int.toNat_natCast, hvalue]
  exact m.ofRatio_mul false (Nat.pow_pos (by decide))

/-- A number written out in full reads back. -/
theorem toNumber_exactDecimal (h : 0 < m.units) :
    m.exactDecimal.toNumber false = .finite false m := by
  have hexpansion := toNumber_expansion h unitsPerOne_eq (b := 1024) rfl (c := 674) rfl
    (by decide) (by decide)
  exact hexpansion

/-- Either of two neighbours is taken only if it reads back. -/
theorem toNumber_choice {above below d : Decimal} {preferred : Bool}
    (h : (if m.readsBack above && preferred then some above
      else if m.readsBack below then some below else none) = some d) :
    d.toNumber false = .finite false m := by
  split at h
  · rename_i hreads
    cases h
    exact of_decide_eq_true (Bool.and_eq_true_iff.mp hreads).1
  split at h
  · rename_i hreads
    cases h
    exact of_decide_eq_true hreads
  · cases h

/-- What is found at a precision reads back. -/
theorem toNumber_atPrecision? {count : Nat} {d : Decimal} (h : m.atPrecision? count = some d) :
    d.toNumber false = .finite false m := by
  unfold atPrecision? at h
  dsimp only at h
  -- whichever of the neighbours is tried first
  split at h <;> exact toNumber_choice h

/-- The shortest decimal of a number other than zero reads back, and has a coefficient. -/
theorem toNumber_shortest (h : 0 < m.units) :
    m.shortest.toNumber false = .finite false m ∧ 0 < m.shortest.coefficient := by
  have hnormalize {d : Decimal} (hd : d.toNumber false = .finite false m) :
      d.normalize.toNumber false = .finite false m ∧ 0 < d.normalize.coefficient := by
    obtain ⟨hsame, hpos⟩ := Decimal.toNumber_normalize false (coefficient_pos_of_toNumber h hd)
    exact ⟨hsame.trans hd, hpos⟩
  unfold shortest
  split
  · rename_i hwhole
    exact hnormalize (toNumber_whole h hwhole.1 hwhole.2)
  · dsimp only
    -- only decimals that read back are looked for; where there is none, the exact one is taken
    cases hfound : (List.range 17).findSome? fun i => m.atPrecision? (i + 1) with
    | none => exact hnormalize (toNumber_exactDecimal h)
    | some d =>
      obtain ⟨_, i, _, _, hd, _⟩ := List.findSome?_eq_some_iff.mp hfound
      exact hnormalize (toNumber_atPrecision? hd)

end Magnitude

end Descramble
