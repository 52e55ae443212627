/-!
# Digits in any base

The value of a digit in a base up to 36, and the digits that spell a number in such a base.
-/

namespace Descramble

/-- The value of an ASCII letter or digit, from 0 to 35, in either case. -/
def digitValue? (c : Char) : Option Nat :=
  if c.isDigit then some (c.toNat - '0'.toNat)
  -- letters go on after nine, whatever their case
  else if 'a' ≤ c ∧ c ≤ 'z' then some (c.toNat - 'a'.toNat + 10)
  else if 'A' ≤ c ∧ c ≤ 'Z' then some (c.toNat - 'A'.toNat + 10)
  else none

/-- The value of a digit of the given base. -/
def digitIn? (base : Nat) (c : Char) : Option Nat :=
  (digitValue? c).filter (· < base)

/-- The longest run of digits of the base at the start of a text, as values, and the rest. -/
def digitRun (base : Nat) : List Char → List Nat × List Char
  | [] => ([], [])
  | c :: cs =>
    match digitIn? base c with
    | some d => let (ds, rest) := digitRun base cs; (d :: ds, rest)
    | none => ([], c :: cs)

/-- The number that digit values spell, most significant first. -/
def ofDigitValues (base : Nat) (ds : List Nat) : Nat :=
  ds.foldl (fun n d => base * n + d) 0

/-- The lower-case digit of a value below 36. -/
def digitOf (d : Nat) : Char :=
  if d < 10 then Char.ofNat ('0'.toNat + d) else Char.ofNat ('a'.toNat + (d - 10))

/-- The upper-case digit of a value below 36. -/
def upperDigitOf (d : Nat) : Char :=
  if d < 10 then Char.ofNat ('0'.toNat + d) else Char.ofNat ('A'.toNat + (d - 10))

/-- The last `bound + 1` digits of a number, most significant first. -/
def lastDigits (base : Nat) : Nat → Nat → List Nat
  | 0, n => [n]
  | bound + 1, n => if n < base then [n] else lastDigits base bound (n / base) ++ [n % base]

/-- The digits of a number in a base of at least two, most significant first. -/
def digitsIn (base n : Nat) : List Nat :=
  lastDigits base n n

/-- A number in lower-case hexadecimal with at least `width` digits. -/
def hexPadded (width n : Nat) : List Char :=
  let ds := (digitsIn 16 n).map digitOf
  List.replicate (width - ds.length) '0' ++ ds

/-- The scalar value with the given code, or the replacement character. -/
def scalarOf (code : Nat) : Char :=
  if code.isValidChar then Char.ofNat code else '\uFFFD'

end Descramble
