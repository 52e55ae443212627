import Descramble.Text.Digits
import Descramble.Text.Mark

/-!
# Joined and quoted texts

Texts are written one after the other with a separator between them, or between double quotes: in a
script in one way, in a diagnostic in another.
-/

namespace Descramble

/-! ## Joined texts -/

/-- Texts with a separator between them. -/
def joined (separator : String) : List String → String
  | [] => ""
  | [text] => text
  | text :: rest => text ++ separator ++ joined separator rest

/-- Texts with a comma and a blank between them. -/
def commaSeparated (texts : List String) : String :=
  joined ", " texts

/-! ## Quoted strings

A string in a script is written between double quotes. Quotes, backslashes and the usual control
characters have short escapes, the two Unicode line separators four hexadecimal digits, and the
other ASCII control characters two. -/

namespace Quoted

/-- What one character becomes between the quotes. -/
def escape (c : Char) : List Char :=
  if c = '"' then ['\\', '"']
  else if c = '\\' then ['\\', '\\']
  else if c = '\n' then ['\\', 'n']
  else if c = '\r' then ['\\', 'r']
  else if c = '\t' then ['\\', 't']
  else if c.toNat = 0x2028 ∨ c.toNat = 0x2029 then '\\' :: 'u' :: hexPadded 4 c.toNat
  else if c.toNat < 0x20 ∨ c.toNat = 0x7F then '\\' :: 'x' :: hexPadded 2 c.toNat
  else [c]

/-- A text between double quotes. -/
def encode (s : String) : String :=
  String.ofList ('"' :: (s.toList.flatMap escape ++ ['"']))

end Quoted

/-! ## Listed texts

A text in a diagnostic stands between double quotes, and what could not be told apart by eye is
escaped: quotes, backslashes, the usual control characters, and by its code every character without
a mark of its own. -/

namespace Listing

/-- What one character becomes in a listing. -/
def escape (c : Char) : List Char :=
  if c = '"' then ['\\', '"']
  else if c = '\\' then ['\\', '\\']
  else if c = '\n' then ['\\', 'n']
  else if c = '\r' then ['\\', 'r']
  else if c = '\t' then ['\\', 't']
  else if c = '\x00' then ['\\', '0']
  else if ' ' ≤ c ∧ c < '\x7f' then [c]
  else if lacksMark c then '\\' :: 'u' :: '\x7b' :: (hexPadded 1 c.toNat ++ ['\x7d'])
  else [c]

/-- A text as a diagnostic lists it. -/
def encode (s : String) : String :=
  String.ofList ('"' :: (s.toList.flatMap escape ++ ['"']))

/-- Several texts in brackets. -/
def encodeAll (texts : List String) : String :=
  "[" ++ commaSeparated (texts.map encode) ++ "]"

end Listing

end Descramble
