/-!
# Binary64 numbers

A finite binary64 number is a sign and a whole count of units of `2 ^ -1074`, the smallest positive
number of the format. A count is representable when at most 53 of its binary digits are significant
and it stays below `2 ^ 2098`, the first count that is too large. Keeping the count itself makes
sums, products and quotients exact questions about `Nat`: every operation computes its true result
as a ratio of counts and rounds once, by `nearestUnits`.

Main statement: `gridStep_dvd_nearestUnits`, a rounded count is representable.
-/

namespace Descramble

-- A power of whole numbers is repeated multiplication, whichever instances are at hand.
attribute [instance (2000), default_instance 20000] instPowNat

/-- The distance between neighbouring representable counts around `units`: one until 53 binary
    digits are used up, then a power of two. -/
def gridStep (units : Nat) : Nat :=
  2 ^ (units.log2 - 52)

/-- The whole number nearest to `num / den`; a half goes to the even neighbour. -/
def roundHalfEven (num den : Nat) : Nat :=
  let q := num / den
  let r := num % den
  if 2 * r < den then q else if den < 2 * r then q + 1 else q + q % 2

/-- The count on the grid nearest to `num / den` units; a tie goes to the even neighbour. -/
def nearestUnits (num den : Nat) : Nat :=
  let step := gridStep (num / den)
  roundHalfEven num (den * step) * step

/-- Rounding adds one at most to the whole part of a quotient. -/
theorem roundHalfEven_le (num den : Nat) : roundHalfEven num den ≤ num / den + 1 := by
  unfold roundHalfEven
  have := Nat.mod_two_eq_zero_or_one (num / den)
  dsimp only
  -- rounded down, rounded up, or a half, which goes up by one at most
  split
  · omega
  · split <;> omega

/-- A count of at most 53 significant digits is on its own grid, whatever power of two it is scaled
    by. -/
theorem gridStep_dvd_mul_pow {r : Nat} (s : Nat) (h : r ≤ 2 ^ 53) :
    gridStep (r * 2 ^ s) ∣ r * 2 ^ s := by
  unfold gridStep
  rcases Nat.eq_zero_or_pos r with rfl | hr
  · simp
  -- the bound itself is a power of two, with one digit more
  rcases Nat.lt_or_eq_of_le h with hlt | rfl
  -- scaling by a power of two moves all digits, and there are 53 at most
  · have hlog : (r * 2 ^ s).log2 < 53 + s := by
      have hs : 0 < 2 ^ s := Nat.pow_pos (by decide)
      rw [Nat.log2_lt (Nat.mul_ne_zero (by omega) (by omega)), Nat.pow_add]
      exact Nat.mul_lt_mul_of_pos_right hlt (Nat.pow_pos (by decide))
    exact Nat.dvd_trans (Nat.pow_dvd_pow 2 (by omega)) (Nat.dvd_mul_left _ _)
  · rw [← Nat.pow_add, Nat.log2_two_pow]
    exact Nat.pow_dvd_pow 2 (by omega)

/-- A rounded count is representable, as far as its digits go. -/
theorem gridStep_dvd_nearestUnits (num den : Nat) :
    gridStep (nearestUnits num den) ∣ nearestUnits num den := by
  unfold nearestUnits
  dsimp only
  unfold gridStep
  apply gridStep_dvd_mul_pow
  refine Nat.le_trans (roundHalfEven_le _ _) ?_
  rw [← Nat.div_div_eq_div_mul]
  have hlt : num / den < 2 ^ ((num / den).log2 + 1) := Nat.lt_log2_self
  -- cut down to the grid, 53 digits are left; rounding up may make it the next power of two
  have : num / den / 2 ^ ((num / den).log2 - 52) < 2 ^ 53 := by
    rw [Nat.div_lt_iff_lt_mul (Nat.pow_pos (by decide)), ← Nat.pow_add]
    exact Nat.lt_of_lt_of_le hlt (Nat.pow_le_pow_right (by decide) (by omega))
  omega

/-- How many units make one. -/
def unitsPerOne : Nat :=
  (2 ^ 179) ^ 6

/-- The first count beyond the finite numbers, `2 ^ 2098`. It stands for infinity where numbers are
    ordered. -/
def unitsOfInfinity : Nat :=
  unitsPerOne * (2 ^ 128) ^ 8

/-- One is at least a unit. -/
theorem unitsPerOne_pos : 0 < unitsPerOne :=
  Nat.pow_pos (Nat.pow_pos (by decide))

/-- Infinity lies beyond zero. -/
theorem unitsOfInfinity_pos : 0 < unitsOfInfinity :=
  Nat.mul_pos unitsPerOne_pos (Nat.pow_pos (Nat.pow_pos (by decide)))

/-- The size of a finite number: a representable count of units of `2 ^ -1074`. -/
structure Magnitude where
  units : Nat
  onGrid : gridStep units ∣ units
  bounded : units < unitsOfInfinity
deriving DecidableEq

/-- A binary64 number. There is one not-a-number, and zero has both signs. -/
inductive Number where
  | nan
  | infinite (negative : Bool)
  | finite (negative : Bool) (magnitude : Magnitude)
deriving DecidableEq

namespace Number

/-- The number nearest to `num / den` units; too large a count becomes infinite. -/
def ofRatio (negative : Bool) (num den : Nat) : Number :=
  if h : nearestUnits num den < unitsOfInfinity then
    .finite negative ⟨nearestUnits num den, gridStep_dvd_nearestUnits num den, h⟩
  else
    .infinite negative

/-- The number nearest to a whole number. -/
def ofInt (i : Int) : Number :=
  ofRatio (i < 0) (i.natAbs * unitsPerOne) 1

/-- The number nearest to a natural number. -/
def ofNat (n : Nat) : Number :=
  ofRatio false (n * unitsPerOne) 1

def zero : Number :=
  .finite false ⟨0, Nat.dvd_zero _, unitsOfInfinity_pos⟩

instance : Inhabited Number := ⟨zero⟩

/-- The number with the given IEEE bit pattern: sign, eleven bits of exponent, 52 of fraction. -/
def ofBits (bits : UInt64) : Number :=
  let negative := bits.toNat / 2 ^ 63 % 2 = 1
  let exponent := bits.toNat / 2 ^ 52 % 2 ^ 11
  let fraction := bits.toNat % 2 ^ 52
  if exponent = 2047 then
    if fraction = 0 then .infinite negative else .nan
  -- subnormal: there is no leading one
  else if exponent = 0 then
    ofRatio negative fraction 1
  else
    ofRatio negative ((2 ^ 52 + fraction) * 2 ^ (exponent - 1)) 1

/-- The IEEE bit pattern of a number, the quiet pattern for not-a-number. -/
def toBits : Number → UInt64
  | .nan => 0x7FF8000000000000
  | .infinite negative => if negative then 0xFFF0000000000000 else 0x7FF0000000000000
  | .finite negative m =>
    let sign := if negative then 2 ^ 63 else 0
    let shift := m.units.log2 - 52
    let exponent := if m.units < 2 ^ 52 then 0 else shift + 1
    UInt64.ofNat (sign + exponent * 2 ^ 52 + m.units / 2 ^ shift % 2 ^ 52)

def isNaN : Number → Bool
  | .nan => true
  | _ => false

def isFinite : Number → Bool
  | .finite _ _ => true
  | _ => false

/-- Where a number stands on the line from minus to plus infinity, in units; `none` for
    not-a-number. Both zeros stand at the origin. -/
def rank? : Number → Option Int
  | .nan => none
  | .infinite negative => some (if negative then -unitsOfInfinity else unitsOfInfinity)
  | .finite negative m => some (if negative then -m.units else m.units)

/-- Numeric equality: not-a-number equals nothing, and the two zeros are equal. -/
def equals (a b : Number) : Bool :=
  match a.rank?, b.rank? with
  | some x, some y => x == y
  | _, _ => false

/-- The order of two numbers, `none` when either is not a number. -/
def compare? (a b : Number) : Option Ordering :=
  match a.rank?, b.rank? with
  | some x, some y => some (compare x y)
  | _, _ => none

/-- Strictly less; false when either side is not a number. -/
def lt (a b : Number) : Bool :=
  a.compare? b == some .lt

end Number

end Descramble
