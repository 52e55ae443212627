import Descramble.Number.Decimal
import Descramble.Script.Tree
import Descramble.Text.Word
import Descramble.Text.Digits
import Descramble.Text.Search
import Descramble.Script.Reader.Basic

/-!
# Tokens

Words, numbers, strings and punctuation, each read together with the gap after it: blanks, line
comments and block comments.
-/

namespace Descramble.Reader

mutual

/-- The text after the gap at its front. A block comment that is not closed is a final error at its
    start. -/
def skipGap : List Char → Except ReadError (List Char)
  | [] => .ok []
  | '/' :: '/' :: rest => skipLine rest
  | '/' :: '*' :: rest => skipBlock ('/' :: '*' :: rest) rest
  | c :: rest => if isBlank c then skipGap rest else .ok (c :: rest)

/-- Skips the rest of a line comment and the gap after it. -/
def skipLine : List Char → Except ReadError (List Char)
  | [] => .ok []
  | c :: rest => if c = '\n' then skipGap rest else skipLine rest

/-- Skips the rest of the block comment that began at `start`, and the gap after it. -/
def skipBlock (start : List Char) : List Char → Except ReadError (List Char)
  | [] => .error ⟨start, true⟩
  | '*' :: '/' :: rest => skipGap rest
  | _ :: rest => skipBlock start rest

end

/-- Reads a gap, which may be empty. -/
def gap : Reader Unit := fun s =>
  match skipGap s with
  | .ok rest => .ok ((), rest)
  | .error e => .error e

/-- Reads exactly the characters of a token. -/
def exactly (token : String) : Reader Unit := fun s =>
  match afterStart? token.toList s with
  | some rest => .ok ((), rest)
  | none => .error ⟨s, false⟩

/-- Succeeds where no word goes on, and reads nothing. -/
def wordEnd : Reader Unit := fun s =>
  match s with
  | c :: _ => if isWordChar c then .error ⟨s, false⟩ else .ok ((), s)
  | [] => .ok ((), s)

/-- Succeeds where none of the given characters comes next, and reads nothing. -/
def notBefore (cs : List Char) : Reader Unit := fun s =>
  match s with
  | c :: _ => if cs.contains c then .error ⟨s, false⟩ else .ok ((), s)
  | [] => .ok ((), s)

/-- Reads a punctuation mark and the gap after it. -/
def symbol (mark : String) : Reader Unit := do
  exactly mark
  gap

/-- Reads an operator mark that is not the start of a longer one: none of the characters of
    `longer` may follow it. -/
def operator (mark : String) (longer : List Char) : Reader Unit := do
  exactly mark
  notBefore longer
  gap

/-- Reads a word with a fixed meaning. -/
def keyword (word : String) : Reader Unit := do
  exactly word
  wordEnd
  gap

/-- Reads any word, reserved or not. -/
def anyWord : Reader Name := fun s =>
  match s with
  | c :: rest =>
    if isWordStart c then
      (do gap; return String.ofList (c :: rest.takeWhile isWordChar) : Reader Name)
        (rest.dropWhile isWordChar)
    else .error ⟨s, false⟩
  | [] => .error ⟨s, false⟩

/-- Reads a word that is not reserved. -/
def ident : Reader Name := fun s =>
  match anyWord s with
  | .ok (name, rest) => if isReserved name then .error ⟨s, false⟩ else .ok (name, rest)
  | .error e => .error e

/-- Reads `0x` or `0X` and hexadecimal digits. A value of 64 bits or more is a final error. -/
def hexNumber : Reader Number := fun s =>
  match s with
  | '0' :: x :: body =>
    let (ds, rest) := digitRun 16 body
    if (x = 'x' ∨ x = 'X') ∧ !ds.isEmpty then
      match (do wordEnd; gap : Reader Unit) rest with
      | .ok (_, rest) =>
        let value := ofDigitValues 16 ds
        if value < 2 ^ 64 then .ok (.ofNat value, rest) else .error ⟨s, true⟩
      | .error e => .error e
    else .error ⟨s, false⟩
  | _ => .error ⟨s, false⟩

/-- Reads a decimal numeral. -/
def decimalNumber : Reader Number := fun s =>
  match Decimal.read? s with
  | some (d, rest) => (do wordEnd; gap; return d.toNumber false : Reader Number) rest
  | none => .error ⟨s, false⟩

def number : Reader Number :=
  hexNumber <|> decimalNumber

/-- The value of exactly `count` hexadecimal digits, and the text after them. -/
def hexDigits? (count : Nat) (s : List Char) : Option (Nat × List Char) := do
  let ds ← (s.take count).mapM (digitIn? 16)
  if ds.length = count then some (ofDigitValues 16 ds, s.drop count) else none

/-- The character that `\u` and what follows it stand for: four digits, two such escapes for a
    surrogate pair, or any number of digits in braces. A lone surrogate is replaced. -/
def unicodeEscape? (s : List Char) : Option (Char × List Char) :=
  match s with
  | '\x7b' :: body =>
    match digitRun 16 body with
    | (d :: ds, '\x7d' :: rest) =>
      let code := ofDigitValues 16 (d :: ds)
      if code ≤ 0x10FFFF then some (scalarOf code, rest) else none
    | _ => none
  | _ => do
    let (high, rest) ← hexDigits? 4 s
    let alone := some (scalarOf high, rest)
    if 0xD800 ≤ high ∧ high < 0xDC00 then
      match rest with
      | '\\' :: 'u' :: body =>
        match hexDigits? 4 body with
        | some (low, rest) =>
          if 0xDC00 ≤ low ∧ low < 0xE000 then
            some (scalarOf (0x10000 + (high - 0xD800) * 0x400 + (low - 0xDC00)), rest)
          else alone
        | none => alone
      | _ => alone
    else alone

/-- What an escape stands for, given the text after its backslash: at most one character, since an
    escaped line end stands for none. -/
def escape? (s : List Char) : Option (Option Char × List Char) :=
  match s with
  | [] => none
  | 'n' :: rest => some (some '\n', rest)
  | 't' :: rest => some (some '\t', rest)
  | 'r' :: rest => some (some '\r', rest)
  | 'b' :: rest => some (some '\x08', rest)
  | 'f' :: rest => some (some '\x0c', rest)
  | 'v' :: rest => some (some '\x0b', rest)
  | '0' :: rest => some (some '\x00', rest)
  | 'x' :: rest => do
    let (code, rest) ← hexDigits? 2 rest
    some (some (scalarOf code), rest)
  | 'u' :: rest => do
    let (c, rest) ← unicodeEscape? rest
    some (some c, rest)
  | '\n' :: rest => some (none, rest)
  | c :: rest => some (some c, rest)

/-- Reads the characters of a string up to its closing quote; `done` holds those read so far, last
    first. Errors are final: at the line end that breaks the string, otherwise at its start. -/
def stringBody (start : List Char) (quote : Char) :
    Nat → List Char → List Char → Except ReadError (String × List Char)
  | 0, _, _ => .error ⟨start, true⟩
  | _ + 1, _, [] => .error ⟨start, true⟩
  | bound + 1, done, c :: rest =>
    if c = quote then .ok (String.ofList done.reverse, rest)
    else if c = '\\' then
      match escape? rest with
      | some (some d, rest) => stringBody start quote bound (d :: done) rest
      | some (none, rest) => stringBody start quote bound done rest
      | none => .error ⟨start, true⟩
    else if c = '\n' then .error ⟨c :: rest, true⟩
    else stringBody start quote bound (c :: done) rest

/-- Reads a string between single or double quotes. -/
def string : Reader String := fun s =>
  match s with
  | quote :: body =>
    if quote = '"' ∨ quote = '\'' then
      match stringBody s quote (body.length + 1) [] body with
      | .ok (value, rest) => (do gap; return value : Reader String) rest
      | .error e => .error e
    else .error ⟨s, false⟩
  | [] => .error ⟨s, false⟩

end Descramble.Reader
