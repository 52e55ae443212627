import Descramble.Number.Arithmetic
import Descramble.Value.Conversion

/-!
# Operators on values

Equality, order and arithmetic. Objects take part in order, loose equality and arithmetic as their
text.
-/

namespace Descramble

/-- Equality without conversion. An object equals only itself. -/
def Value.strictEquals : Value → Value → Bool
  | .undefined, .undefined => true
  | .null, .null => true
  | .flag a, .flag b => a == b
  | .number a, .number b => a.equals b
  | .text a, .text b => a == b
  | .object a, .object b => a == b
  | _, _ => false

namespace Store

/-- Equality of two values that are not objects, by their numbers where the types differ. -/
def primitiveEquals (s : Store) : Value → Value → Bool
  | .undefined, .null => true
  | .null, .undefined => true
  | .undefined, b => Value.undefined.strictEquals b
  | .null, b => Value.null.strictEquals b
  | _, .undefined => false
  | _, .null => false
  | .text a, .text b => a == b
  | a, b => (s.numberOf a).equals (s.numberOf b)

/-- Equality with conversion. -/
def looseEquals (s : Store) : Value → Value → Bool
  | .object a, .object b => a == b
  | .object _, .undefined => false
  | .object _, .null => false
  | .undefined, .object _ => false
  | .null, .object _ => false
  | a, b => s.primitiveEquals (s.primitiveOf a) (s.primitiveOf b)

/-- The order of two values: of texts by their characters, otherwise of numbers. -/
def compare? (s : Store) (a b : Value) : Option Ordering :=
  match s.primitiveOf a, s.primitiveOf b with
  | .text x, .text y => some (compare x y)
  | x, y => (s.numberOf x).compare? (s.numberOf y)

def comparison (s : Store) (op : Comparison) (a b : Value) : Bool :=
  match op with
  | .loose => s.looseEquals a b
  | .looseNot => !s.looseEquals a b
  | .strict => a.strictEquals b
  | .strictNot => !a.strictEquals b
  | .less => s.compare? a b == some .lt
  | .greater => s.compare? a b == some .gt
  | .lessEq => s.compare? a b == some .lt || s.compare? a b == some .eq
  | .greaterEq => s.compare? a b == some .gt || s.compare? a b == some .eq

/-- The sum of two values: their texts one after the other if either is a text. -/
def sum (s : Store) (a b : Value) : Value :=
  let a := s.primitiveOf a
  let b := s.primitiveOf b
  match a, b with
  | .text _, _ | _, .text _ => .text (s.textOf a ++ s.textOf b)
  | _, _ => .number ((s.numberOf a).add (s.numberOf b))

end Store

/-- A signed word as a number. -/
def Number.ofWord (w : Int32) : Number :=
  .ofInt w.toInt

/-- The result of an operation on two numbers. Shifts and bit operations work on words of 32 bits,
    and a shift counts modulo 32. -/
def Arithmetic.apply (op : Arithmetic) (x y : Number) : Number :=
  match op with
  | .add => x.add y
  | .sub => x.sub y
  | .mul => x.mul y
  | .div => x.div y
  | .rem => x.rem y
  | .shiftLeft => .ofWord (x.toUInt32 <<< (y.toUInt32 &&& 31)).toInt32
  | .shiftRight => .ofWord (x.toInt32 >>> (y.toUInt32 &&& 31).toInt32)
  | .shiftRightZero => .ofNat (x.toUInt32 >>> (y.toUInt32 &&& 31)).toNat
  | .bitAnd => .ofWord (x.toInt32 &&& y.toInt32)
  | .bitOr => .ofWord (x.toInt32 ||| y.toInt32)
  | .bitXor => .ofWord (x.toInt32 ^^^ y.toInt32)

/-- The result of an operation on two values. Only a sum is not one of numbers alone. -/
def Store.arithmetic (s : Store) (op : Arithmetic) (a b : Value) : Value :=
  match op with
  | .add => s.sum a b
  | op => .number (op.apply (s.numberOf a) (s.numberOf b))

end Descramble
