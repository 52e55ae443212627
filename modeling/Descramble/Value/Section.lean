import Descramble.Value.Conversion

/-!
# Sections of a sequence

The parts of a text or an array that two position arguments name. Every position is moved into the
sequence first, so none of these functions can go out of range.
-/

namespace Descramble

namespace Offset

/-- The part from one position up to another, where negative positions count from the end. -/
def slice (start stop : Offset) (xs : List α) : List α :=
  (xs.take (stop.relativeTo xs.length)).drop (start.relativeTo xs.length)

/-- The part between two positions in either order, where negative positions count as zero. -/
def between (one other : Offset) (xs : List α) : List α :=
  let i := one.clampTo xs.length
  let j := other.clampTo xs.length
  (xs.take (max i j)).drop (min i j)

/-- At most `count` items from a position on. -/
def run (start count : Offset) (xs : List α) : List α :=
  let i := start.relativeTo xs.length
  (xs.drop i).take (count.clampTo (xs.length - i))

/-- Takes at most `count` items from a position on out of a sequence and puts others in their place:
    the items taken out and the sequence that is left. -/
def splice (start count : Offset) (inserted xs : List α) : List α × List α :=
  let i := start.relativeTo xs.length
  let n := count.clampTo (xs.length - i)
  ((xs.drop i).take n, xs.take i ++ inserted ++ xs.drop (i + n))

end Offset

/-- An argument of a call, `undefined` where there are too few. -/
def argument (args : List Value) (i : Nat) : Value :=
  args[i]?.getD .undefined

/-- The position where a section ends: a missing one is the end of the sequence. -/
def Store.stopOf (s : Store) : Value → Offset
  | .undefined => .beyond
  | v => s.offsetOf v

end Descramble
