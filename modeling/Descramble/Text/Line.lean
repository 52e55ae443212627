import Descramble.Script.Parse

/-!
# Lines

A text consists of lines that end in a newline, perhaps after a carriage return; the last one may
lack its end. A position in a text, counted in bytes from its end, lies on one of the lines.
-/

namespace Descramble

/-- Cuts a carriage return off the front. -/
def withoutReturn : List Char → List Char
  | '\r' :: cs => cs
  | cs => cs

/-- The lines of a text, where `line` holds what came before of the first one, last character
    first. -/
def linesAfter (line : List Char) : List Char → List (List Char)
  | [] => if line.isEmpty then [] else [line.reverse]
  | '\n' :: cs => (withoutReturn line).reverse :: linesAfter [] cs
  | c :: cs => linesAfter (c :: line) cs

/-- The lines of a text without their ends. -/
def linesOf (cs : List Char) : List (List Char) :=
  linesAfter [] cs

/-- The characters of a text that fit into a number of bytes. -/
def takeBytes : Nat → List Char → List Char
  | _, [] => []
  | bytes, c :: cs => if c.utf8Size ≤ bytes then c :: takeBytes (bytes - c.utf8Size) cs else []

/-- The characters before a position that is counted in bytes from the end. -/
def beforePosition (position : Nat) (cs : List Char) : List Char :=
  takeBytes (utf8Length cs - position) cs

/-- The last line that starts before a position, with its number; `none` if it is the last line of
    the text. At the start of the text, its first line. -/
def lineAt? (position : Nat) (cs : List Char) : Option (Nat × List Char) :=
  let count := (linesOf (beforePosition position cs)).length
  let all := linesOf cs
  if count < all.length then all[count - 1]?.map (max count 1, ·) else none

end Descramble
