import Descramble.Number.Basic

/-!
# Arithmetic

Each operation answers for not-a-number and the infinities first; on finite numbers it computes the
exact result in units and rounds it once.
-/

namespace Descramble.Number

/-- A finite number as a signed count of units. -/
def signedUnits (negative : Bool) (m : Magnitude) : Int :=
  if negative then -m.units else m.units

def neg : Number → Number
  | .nan => .nan
  | .infinite negative => .infinite !negative
  | .finite negative m => .finite (!negative) m

def abs : Number → Number
  | .nan => .nan
  | .infinite _ => .infinite false
  | .finite _ m => .finite false m

/-- The sum. An exact zero is negative only when both terms are negative zeros. -/
def add : Number → Number → Number
  | .nan, _ => .nan
  | _, .nan => .nan
  | .infinite s, .infinite t => if s = t then .infinite s else .nan
  | .infinite s, _ => .infinite s
  | _, .infinite t => .infinite t
  | .finite s a, .finite t b =>
    let sum := signedUnits s a + signedUnits t b
    if sum = 0 then ofRatio (s && t) 0 1 else ofRatio (sum < 0) sum.natAbs 1

def sub (a b : Number) : Number :=
  a.add b.neg

def mul : Number → Number → Number
  | .nan, _ => .nan
  | _, .nan => .nan
  | .infinite s, .infinite t => .infinite (s != t)
  | .infinite s, .finite t b => if b.units = 0 then .nan else .infinite (s != t)
  | .finite s a, .infinite t => if a.units = 0 then .nan else .infinite (s != t)
  | .finite s a, .finite t b => ofRatio (s != t) (a.units * b.units) unitsPerOne

def div : Number → Number → Number
  | .nan, _ => .nan
  | _, .nan => .nan
  | .infinite _, .infinite _ => .nan
  | .infinite s, .finite t _ => .infinite (s != t)
  | .finite s _, .infinite t => ofRatio (s != t) 0 1
  | .finite s a, .finite t b =>
    if b.units = 0 then
      if a.units = 0 then .nan else .infinite (s != t)
    else
      ofRatio (s != t) (a.units * unitsPerOne) b.units

/-- The remainder of a division that cuts toward zero, so it has the sign of the dividend. -/
def rem : Number → Number → Number
  | .nan, _ => .nan
  | _, .nan => .nan
  | .infinite _, _ => .nan
  | a, .infinite _ => a
  | .finite s a, .finite _ b => if b.units = 0 then .nan else ofRatio s (a.units % b.units) 1

/-- The power, as the platform's floating-point unit rounds it. -/
def pow (a b : Number) : Number :=
  ofBits (Float.pow (Float.ofBits a.toBits) (Float.ofBits b.toBits)).toBits

/-- The whole number next to a finite number on the side given by `up`. -/
private def wholeToward (up : Bool) (negative : Bool) (m : Magnitude) : Number :=
  let q := m.units / unitsPerOne
  let away := up != negative && m.units % unitsPerOne != 0
  ofRatio negative ((if away then q + 1 else q) * unitsPerOne) 1

def floor : Number → Number
  | .finite negative m => wholeToward false negative m
  | n => n

def ceil : Number → Number
  | .finite negative m => wholeToward true negative m
  | n => n

/-- The smaller number; the first of two equal ones, and not-a-number if either is. -/
def min (a b : Number) : Number :=
  if a.isNaN || b.isNaN then .nan else if b.lt a then b else a

/-- The larger number; the first of two equal ones, and not-a-number if either is. -/
def max (a b : Number) : Number :=
  if a.isNaN || b.isNaN then .nan else if a.lt b then b else a

/-- Whether a number is finite and whole. -/
def isWhole : Number → Bool
  | .finite _ m => m.units % unitsPerOne == 0
  | _ => false

/-- The whole part of a finite number, cut toward zero. -/
def truncate? : Number → Option Int
  | .finite negative m =>
    let q : Int := (m.units / unitsPerOne : Nat)
    some (if negative then -q else q)
  | _ => none

/-- The whole part modulo `2 ^ 32`; zero for a number that is not finite. -/
def toUInt32 (n : Number) : UInt32 :=
  match n.truncate? with
  | some i => UInt32.ofNat (i % 2 ^ 32).toNat
  | none => 0

/-- The whole part modulo `2 ^ 32`, read as a signed word. -/
def toInt32 (n : Number) : Int32 :=
  n.toUInt32.toInt32

end Descramble.Number
