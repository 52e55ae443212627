import Descramble.Number.Arithmetic
import Descramble.Text.Word
import Descramble.Text.Digits

/-!
# Whole numbers in other bases

The text of a whole number in a base from 2 to 36, and reading a whole number in such a base from
the front of a text.
-/

namespace Descramble.Number

/-- The largest size up to which every whole number is a binary64 number. -/
def maxExact : Nat :=
  2 ^ 53 - 1

/-- The text of a whole number in a base, if the number is not too large to be exact. -/
def toTextIn? (base : Nat) (n : Number) : Option String :=
  if n.isWhole then
    match n.truncate? with
    | some i =>
      if i.natAbs ≤ maxExact then
        let digits := (digitsIn base i.natAbs).map digitOf
        some (String.ofList (if i < 0 then '-' :: digits else digits))
      else none
    | none => none
  else none

/-- The number that digit values spell, most significant first, rounded after every digit. -/
def ofDigits (base : Nat) (ds : List Nat) : Number :=
  ds.foldl (fun n d => (n.mul (.ofNat base)).add (.ofNat d)) zero

/-- The text after `0x`, if it starts so. -/
def afterHexMark? : List Char → Option (List Char)
  | '0' :: 'x' :: rest => some rest
  | '0' :: 'X' :: rest => some rest
  | _ => none

/-- The base for reading a text and the text after its mark. The mark `0x` says 16 where that or
    nothing is asked for, and otherwise nothing means 10. -/
def chooseBase (asked : Nat) (cs : List Char) : Nat × List Char :=
  if asked = 0 ∨ asked = 16 then
    match afterHexMark? cs with
    | some rest => (16, rest)
    | none => (if asked = 0 then 10 else asked, cs)
  else (asked, cs)

/-- The whole number at the front of a text, after blanks and a sign; not a number where no digit of
    the base stands there. -/
def readInBase (asked : Nat) (cs : List Char) : Number :=
  let cs := trimFront cs
  let (negative, cs) : Bool × List Char :=
    match cs with
    | '-' :: rest => (true, rest)
    | '+' :: rest => (false, rest)
    | _ => (false, cs)
  let (base, cs) := chooseBase asked cs
  if base < 2 ∨ 36 < base then .nan
  else
    let ds := (digitRun base cs).1
    if ds.isEmpty then .nan
    else
      let n := ofDigits base ds
      if negative then n.neg else n

end Descramble.Number
