import Descramble.Number.Arithmetic
import Descramble.Text.Word
import Descramble.Value.Text

/-!
# Conversions

How values become truth values, numbers, words and positions.
-/

namespace Descramble

/-- The number that the digits after `0x` spell, with a plus sign allowed before them; not-a-number
    from 64 bits on. -/
def hexTextToNumber (cs : List Char) : Number :=
  let body := match cs with
    | '+' :: rest => rest
    | _ => cs
  let (ds, rest) := digitRun 16 body
  if ds.isEmpty || !rest.isEmpty then .nan
  else
    let value := ofDigitValues 16 ds
    if value < 2 ^ 64 then .ofNat value else .nan

/-- The number that a whole text spells as a decimal numeral with an optional sign. -/
def decimalTextToNumber (cs : List Char) : Number :=
  let (negative, body) : Bool × List Char :=
    match cs with
    | '-' :: rest => (true, rest)
    | '+' :: rest => (false, rest)
    | _ => (false, cs)
  match Decimal.read? body with
  | some (d, []) => d.toNumber negative
  | _ => .nan

/-- The number that a text spells between blanks: nothing is zero, `0x` announces hexadecimal
    digits, and infinity has its name. Any other text is not a number. -/
def textToNumber (s : String) : Number :=
  match trimEnds s.toList with
  | [] => .zero
  | '0' :: 'x' :: rest => hexTextToNumber rest
  | '0' :: 'X' :: rest => hexTextToNumber rest
  | cs =>
    if cs = "Infinity".toList ∨ cs = "+Infinity".toList then .infinite false
    else if cs = "-Infinity".toList then .infinite true
    else decimalTextToNumber cs

/-- A position argument: a whole number, or beyond every whole number on either side. -/
inductive Offset where
  | before
  | at (i : Int)
  | beyond
deriving DecidableEq

namespace Offset

/-- The position within a length, where a negative one counts from the end. -/
def relativeTo (len : Nat) : Offset → Nat
  | .before => 0
  | .at i => if i < 0 then (len + i).toNat else min i.toNat len
  | .beyond => len

/-- The position moved into a length. -/
def clampTo (len : Nat) : Offset → Nat
  | .before => 0
  | .at i => min i.toNat len
  | .beyond => len

/-- The position itself, if it lies below a length. -/
def index? (len : Nat) : Offset → Option Nat
  | .at i => if 0 ≤ i ∧ i.toNat < len then some i.toNat else none
  | _ => none

end Offset

/-- A number as a position, cut toward zero; not-a-number counts as zero. -/
def Number.toOffset : Number → Offset
  | .infinite negative => if negative then .before else .beyond
  | n => .at (n.truncate?.getD 0)

namespace Store

def truthy : Value → Bool
  | .undefined | .null => false
  | .flag b => b
  | .number n => !(n.equals .zero || n.isNaN)
  | .text t => !t.isEmpty
  | .object _ => true

/-- Text and numbers as they are, an object as its text. -/
def primitiveOf (s : Store) : Value → Value
  | .object ref => .text (s.objectText ref)
  | v => v

/-- The number that a value stands for. -/
def numberOf (s : Store) : Value → Number
  | .undefined => .nan
  | .null => .zero
  | .flag b => if b then .ofNat 1 else .zero
  | .number n => n
  | .text t => textToNumber t
  | .object ref =>
    if (s.object ref).isFunction then .nan else textToNumber (s.objectText ref)

/-- The position that a value stands for. -/
def offsetOf (s : Store) (v : Value) : Offset :=
  (s.numberOf v).toOffset

/-- The name of a value's type. -/
def typeName (s : Store) : Value → String
  | .undefined => "undefined"
  | .null => "object"
  | .flag _ => "boolean"
  | .number _ => "number"
  | .text _ => "string"
  | .object ref => if (s.object ref).isFunction then "function" else "object"

end Store

end Descramble
