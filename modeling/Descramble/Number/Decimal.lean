import Descramble.Number.Basic

/-!
# Decimal numerals

A `Decimal` is the value a numeral spells: a coefficient times a power of ten. `Decimal.read?` takes
the longest numeral at the start of a text, `Decimal.toNumber` rounds its value to the nearest
number, and `Magnitude.shortest` goes back: of the decimals with the fewest digits that read back as
the number it takes the nearest.
-/

namespace Descramble

/-- The value `coefficient * 10 ^ exponent`. -/
structure Decimal where
  coefficient : Nat
  exponent : Int
deriving DecidableEq

namespace Decimal

/-- The digits of the coefficient, most significant first. -/
def digits (d : Decimal) : List Char :=
  Nat.toDigits 10 d.coefficient

/-- How many places the decimal point stands to the right of the first digit's left edge: the value
    is `0.d₁d₂… * 10 ^ point`. -/
def point (d : Decimal) : Int :=
  d.digits.length + d.exponent

/-- The number nearest to the value. A value of `10 ^ 400` or more is infinite and one below
    `10 ^ -400` is zero without looking at its digits, since both lie far outside the format. -/
def toNumber (negative : Bool) (d : Decimal) : Number :=
  if d.coefficient = 0 then .ofRatio negative 0 1
  else if 400 < d.point then .infinite negative
  else if d.point < -400 then .ofRatio negative 0 1
  else if 0 ≤ d.exponent then
    .ofRatio negative (d.coefficient * 10 ^ d.exponent.toNat * unitsPerOne) 1
  else
    .ofRatio negative (d.coefficient * unitsPerOne) (10 ^ (-d.exponent).toNat)

/-- Drops up to `bound` zeros from the end of the coefficient. -/
def dropZeros : Nat → Decimal → Decimal
  | 0, d => d
  | bound + 1, d =>
    if d.coefficient % 10 = 0 then dropZeros bound ⟨d.coefficient / 10, d.exponent + 1⟩ else d

/-- The same value with no zero at the end of the coefficient. -/
def normalize (d : Decimal) : Decimal :=
  if d.coefficient = 0 then ⟨0, 0⟩ else dropZeros d.digits.length d

/-- The exponent part of a numeral, `e`, a sign or none, and digits; zero and nothing read where
    there is none. -/
def readExponent (cs : List Char) : Int × List Char :=
  match cs with
  | c :: rest =>
    if c = 'e' || c = 'E' then
      let (negative, body) : Bool × List Char :=
        match rest with
        | '-' :: body => (true, body)
        | '+' :: body => (false, body)
        | _ => (false, rest)
      let ds := body.takeWhile Char.isDigit
      if ds.isEmpty then (0, cs)
      else
        let value : Int := Nat.ofDigitChars 10 ds 0
        (if negative then -value else value, body.dropWhile Char.isDigit)
    else (0, cs)
  | [] => (0, cs)

/-- The fraction digits that follow a point, and what comes after them. -/
def readFraction : List Char → List Char × List Char
  | '.' :: rest => (rest.takeWhile Char.isDigit, rest.dropWhile Char.isDigit)
  | cs => ([], cs)

/-- The longest unsigned numeral at the start of a text: digits with an optional fraction, or a
    point and at least one digit, then an optional exponent. -/
def read? (cs : List Char) : Option (Decimal × List Char) :=
  let whole := cs.takeWhile Char.isDigit
  let (fraction, rest) := readFraction (cs.dropWhile Char.isDigit)
  if whole.isEmpty && fraction.isEmpty then none
  else
    let (exponent, rest) := readExponent rest
    some (⟨Nat.ofDigitChars 10 (whole ++ fraction) 0, exponent - fraction.length⟩, rest)

end Decimal

namespace Magnitude

/-- The place of the decimal point: the least `p` with the value below `10 ^ p`. -/
def point (m : Magnitude) : Int :=
  let whole := m.units / unitsPerOne
  if 0 < whole then (Nat.toDigits 10 whole).length
  else
    let places := (Nat.toDigits 10 (unitsPerOne / m.units)).length
    if unitsPerOne ≤ m.units * 10 ^ (places - 1) then 2 - places else 1 - places

/-- Whether a decimal reads back as this magnitude. -/
def readsBack (m : Magnitude) (d : Decimal) : Bool :=
  d.toNumber false == .finite false m

/-- The nearer of the two neighbours of the value among the decimals with `count` digits, of those
    that read back; the upper one where both are equally near. -/
def atPrecision? (m : Magnitude) (count : Nat) : Option Decimal :=
  let exponent := m.point - count
  -- the value is `num / den` in units of the last digit
  let (num, den) : Nat × Nat :=
    if 0 ≤ exponent then (m.units, unitsPerOne * 10 ^ exponent.toNat)
    else (m.units * 10 ^ (-exponent).toNat, unitsPerOne)
  let below : Decimal := ⟨num / den, exponent⟩
  let above : Decimal := ⟨num / den + 1, exponent⟩
  let belowReads := m.readsBack below
  if m.readsBack above && (!belowReads || den ≤ 2 * (num % den)) then some above
  else if belowReads then some below
  else none

/-- The full decimal expansion of the value. -/
def exactDecimal (m : Magnitude) : Decimal :=
  ⟨m.units * 5 ^ 1074, -1074⟩

/-- The decimal with the fewest digits that reads back as this magnitude, the nearest of them. A
    whole number below `2 ^ 53` is its own. -/
def shortest (m : Magnitude) : Decimal :=
  if m.units % unitsPerOne = 0 ∧ m.units / unitsPerOne < 2 ^ 53 then
    Decimal.normalize ⟨m.units / unitsPerOne, 0⟩
  else
    let found := (List.range 17).findSome? fun i => m.atPrecision? (i + 1)
    (found.getD m.exactDecimal).normalize

end Magnitude

end Descramble
