import Descramble.Text.Digits

/-!
# URI components

The bytes of a text that may not stand for themselves in a URI component are written as a percent
sign and two hexadecimal digits. Reading a component undoes this and nothing else, and fails on a
percent sign without two digits and on bytes that are no text.
-/

namespace Descramble.Component

/-- Whether a byte stands for itself: ASCII letters, digits and `-_.!~*'()`. -/
def isUnreserved (b : UInt8) : Bool :=
  let c := Char.ofNat b.toNat
  c.isAlphanum || "-_.!~*'()".toList.contains c

/-- The characters that stand for a byte. -/
def encodeByte (b : UInt8) : List Char :=
  if isUnreserved b then [Char.ofNat b.toNat]
  else ['%', upperDigitOf (b.toNat / 16), upperDigitOf (b.toNat % 16)]

/-- The component that stands for a text. -/
def encode (s : String) : String :=
  String.ofList (s.toUTF8.data.toList.flatMap encodeByte)

/-- The value of a byte that is the code of a hexadecimal digit. -/
def hexByte? (b : UInt8) : Option Nat :=
  digitIn? 16 (Char.ofNat b.toNat)

/-- Undoes percent signs. -/
def decodeBytes? : List UInt8 → Option (List UInt8)
  | [] => some []
  | b :: rest =>
    if b = '%'.toUInt8 then
      match rest with
      | high :: low :: rest => do
        let h ← hexByte? high
        let l ← hexByte? low
        return UInt8.ofNat (16 * h + l) :: (← decodeBytes? rest)
      | _ => none
    else do
      return b :: (← decodeBytes? rest)

/-- The text that a component stands for. -/
def decode? (s : String) : Option String := do
  String.fromUTF8? ⟨(← decodeBytes? s.toUTF8.data.toList).toArray⟩

end Descramble.Component
