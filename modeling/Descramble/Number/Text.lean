import Descramble.Number.Decimal

/-!
# The text of a number

Scripts write a number with the fewest digits that read back. The text is positional while the
decimal point stands within 21 places after the first digit or 6 zeros before it; otherwise it is
scientific, with a signed exponent.
-/

namespace Descramble

namespace Decimal

/-- The text of a decimal, by the place of its point among its digits. -/
def layout (d : Decimal) : List Char :=
  let ds := d.digits
  let count : Int := ds.length
  let point := d.point
  if count ≤ point ∧ point ≤ 21 then
    ds ++ List.replicate (point - count).toNat '0'
  else if 0 < point ∧ point ≤ 21 then
    ds.take point.toNat ++ '.' :: ds.drop point.toNat
  else if -6 < point ∧ point ≤ 0 then
    '0' :: '.' :: (List.replicate (-point).toNat '0' ++ ds)
  else
    let exponent := point - 1
    let mantissa := if ds.length = 1 then ds else ds.take 1 ++ '.' :: ds.drop 1
    mantissa ++ 'e' :: (if exponent < 0 then '-' else '+') :: Nat.toDigits 10 exponent.natAbs

end Decimal

namespace Number

/-- The text of a number; zero has no sign. -/
def toText : Number → String
  | .nan => "NaN"
  | .infinite negative => if negative then "-Infinity" else "Infinity"
  | .finite negative m =>
    if m.units = 0 then "0"
    else
      let body := m.shortest.layout
      String.ofList (if negative then '-' :: body else body)

end Number

end Descramble
