import Descramble.Text.Search

/-!
# Signature timestamps

A player script carries the timestamp of its signature transform as digits after one of two keys.
-/

namespace Descramble.Timestamp

/-- The digits after a key at the very start of a text. -/
def atStart? (s : List Char) : Option (List Char) :=
  match afterStart? "signatureTimestamp:".toList s <|> afterStart? "sts:".toList s with
  | some rest =>
    let digits := rest.takeWhile Char.isDigit
    if digits.isEmpty then none else some digits
  | none => none

/-- The digits after the first key that has any. -/
def find? : List Char → Option (List Char)
  | [] => none
  | c :: s =>
    match atStart? (c :: s) with
    | some digits => some digits
    | none => find? s

/-- The signature timestamp of a script. -/
def ofScript? (text : String) : Option String :=
  (find? text.toList).map String.ofList

end Descramble.Timestamp
