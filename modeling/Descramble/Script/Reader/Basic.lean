/-!
# Readers

A reader takes a value off the front of a text. It fails either tentatively, so that an alternative
may still be tried from the same place, or finally. An error keeps the text from the place of the
error on, from which its position is measured.

Repetition takes a bound on the number of rounds. Every round of a reader in use takes at least one
character, so the length of the text is bound enough.

Main statements: `bind_assoc` and `id_map`, readers are composed as a monad.
-/

namespace Descramble

/-- Why reading stopped: the text from the place of the error on, and whether alternatives are ruled
    out. -/
structure ReadError where
  rest : List Char
  isFinal : Bool
deriving DecidableEq

/-- A reader: the value it takes and the text after it. -/
def Reader (α : Type) : Type :=
  List Char → Except ReadError (α × List Char)

namespace Reader

variable {α β : Type}

@[inline] protected def pure (a : α) : Reader α :=
  fun s => .ok (a, s)

@[inline] protected def bind (p : Reader α) (f : α → Reader β) : Reader β := fun s =>
  match p s with
  | .ok (a, rest) => f a rest
  | .error e => .error e

instance : Monad Reader where
  pure := Reader.pure
  bind := Reader.bind

/-- What a sequence of readers does with a text. -/
theorem bind_apply (p : Reader α) (f : α → Reader β) (s : List Char) :
    (p >>= f) s =
      match p s with
      | .ok (a, rest) => f a rest
      | .error e => .error e :=
  rfl

/-- Leaving the value as it is changes nothing. -/
theorem id_map (p : Reader α) : id <$> p = p := by
  funext s
  show (p >>= fun a => pure (id a)) s = p s
  rw [bind_apply]
  cases p s <;> rfl

/-- It does not matter how a sequence of readers is grouped. -/
theorem bind_assoc {γ : Type} (p : Reader α) (f : α → Reader β) (g : β → Reader γ) :
    (p >>= f >>= g) = (p >>= fun a => f a >>= g) := by
  funext s
  rw [bind_apply, bind_apply, bind_apply]
  cases p s <;> rfl

instance : LawfulMonad Reader :=
  .mk' _ id_map (fun _ _ => rfl) bind_assoc

/-- Tries `q` from the same place when `p` fails tentatively. -/
@[inline] protected def orElse (p : Reader α) (q : Unit → Reader α) : Reader α := fun s =>
  match p s with
  | .ok r => .ok r
  | .error e => if e.isFinal then .error e else q () s

instance : OrElse (Reader α) where
  orElse := Reader.orElse

/-- Reads `p` where it can be read; a final failure stays one. -/
@[inline] def optional (p : Reader α) : Reader (Option α) := fun s =>
  match p s with
  | .ok (a, rest) => .ok (some a, rest)
  -- after a tentative failure nothing has been taken
  | .error e => if e.isFinal then .error e else .ok (none, s)

/-- Reads `p` where it can be read and takes every failure, even a final one, for absence. -/
@[inline] def lookFor (p : Reader α) : Reader (Option α) := fun s =>
  match p s with
  | .ok (a, rest) => .ok (some a, rest)
  | .error _ => .ok (none, s)

/-- Reads `p` as often as it can be read, at most `bound` times. -/
def many (p : Reader α) : Nat → Reader (List α)
  | 0 => Reader.pure []
  | bound + 1 => fun s =>
    match p s with
    | .ok (a, rest) =>
      match many p bound rest with
      | .ok (as, rest) => .ok (a :: as, rest)
      | .error e => .error e
    -- the round that fails tentatively takes nothing, so it is not missed
    | .error e => if e.isFinal then .error e else .ok ([], s)

/-- Reads items that each follow a separator. A separator without an item after it is left
    unread. -/
def manyAfter (separator : Reader Unit) (p : Reader α) (bound : Nat) : Reader (List α) :=
  many (do separator; p) bound

/-- Reads items with separators between them, at least one. -/
def sepBy1 (separator : Reader Unit) (p : Reader α) (bound : Nat) : Reader (List α) := do
  let first ← p
  let others ← manyAfter separator p bound
  return first :: others

/-- Reads items with separators between them, perhaps none. -/
def sepBy (separator : Reader Unit) (p : Reader α) (bound : Nat) : Reader (List α) := do
  match ← optional p with
  | some first => return first :: (← manyAfter separator p bound)
  | none => return []

end Reader

end Descramble
