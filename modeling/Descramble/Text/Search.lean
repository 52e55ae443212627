/-!
# Searching a text

The first place where a text contains another, and what follows from it: cutting a text there and
splitting it at every such place.

Main statement: `afterStart?_eq_some_iff`, a text that starts with a token is the token and the text
after it.
-/

namespace Descramble

/-- The text after `token`, if it starts with it. -/
def afterStart? : List Char → List Char → Option (List Char)
  | [], s => some s
  | t :: token, c :: s => if t = c then afterStart? token s else none
  | _ :: _, [] => none

/-- A text that starts with a token is the token and the text after it. -/
theorem afterStart?_eq_some_iff {token s rest : List Char} :
    afterStart? token s = some rest ↔ s = token ++ rest := by
  -- along the token, character by character
  induction token generalizing s with
  | nil => simp [afterStart?, eq_comm]
  | cons t token ih =>
    cases s with
    | nil => simp [afterStart?]
    | cons c s =>
      by_cases h : t = c
      · simp [afterStart?, h, ih]
      · simp [afterStart?, h, Ne.symm h]

/-- The place of the first occurrence of `needle`, counting from `place` at the front of the
    text. -/
def occurrence? (needle : List Char) : Nat → List Char → Option Nat
  | place, [] => if needle.isEmpty then some place else none
  | place, c :: s =>
    if needle.isPrefixOf (c :: s) then some place else occurrence? needle (place + 1) s

/-- What stands before and after the first occurrence of `needle`. -/
def cutAt? (needle s : List Char) : Option (List Char × List Char) :=
  (occurrence? needle 0 s).map fun place => (s.take place, s.drop (place + needle.length))

/-- The pieces between the occurrences of `separator`, looking for at most `bound` of them. -/
def piecesUpTo (separator : List Char) : Nat → List Char → List (List Char)
  | 0, s => [s]
  | bound + 1, s =>
    match cutAt? separator s with
    | some (piece, rest) => piece :: piecesUpTo separator bound rest
    | none => [s]

/-- The pieces between the occurrences of a separator that is not empty. -/
def pieces (separator s : List Char) : List (List Char) :=
  -- every piece but the last takes a separator, so the length is bound enough
  piecesUpTo separator s.length s

end Descramble
