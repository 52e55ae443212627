import Descramble.Evaluation.Run
import Descramble.Transform.Reduction

/-!
# Solutions

Running a reduced program yields its transforms as functions. They share the store in which the
program ran, so what one call leaves behind the next one finds.
-/

namespace Descramble

/-- Why a program has no solution, or a transform no result. -/
inductive SolutionError where
  | badSyntax (e : SyntaxError)
  | thrown (description : String)
  | ended (message : String)
  | notCallable (t : Transform) (listing : String)
  | notText (t : Transform) (listing : String)
deriving DecidableEq

namespace SolutionError

def ofFault (s : Store) : Fault → SolutionError
  | .thrown v => .thrown (s.describe v)
  | .fatal why => .ended why.message

def message : SolutionError → String
  | .badSyntax e => e.message
  | .thrown description => "uncaught " ++ description
  | .ended message => message
  | .notCallable t listing => t.name ++ " is not a function: " ++ listing
  | .notText t listing => t.name ++ " returned a non-string: " ++ listing

end SolutionError

/-- The transforms that a program handed out, and the store they work in. -/
structure Solution where
  store : Store
  n : Option Value
  sig : Option Value

namespace Solution

/-- The function that a solution has for a transform. -/
def get? (s : Solution) : Transform → Option Value
  | .n => s.n
  | .sig => s.sig

/-- The record in which a program hands out its transforms, with no transform in it. -/
def emptyRecord : Object :=
  ⟨.plain, (Bindings.empty.insert Transform.n.name .null).insert Transform.sig.name .null, none⟩

/-- The function that a record holds for a transform; `null` stands for none. -/
def slot (s : Store) (record : Value) (t : Transform) :
    Except SolutionError (Option Value) × Store :=
  match s.getProperty record t.name with
  | (.error fault, s) => (.error (.ofFault s fault), s)
  | (.ok .null, s) => (.ok none, s)
  | (.ok v, s) =>
    if s.isFunction v then (.ok (some v), s) else (.error (.notCallable t (s.listingOf v)), s)

/-- Runs a program in a fresh store and collects the transforms it hands out. -/
def ofProgram (p : Program) : Except SolutionError Solution := do
  let (ref, s) := Store.initial.addObject emptyRecord
  let record := Value.object ref
  let (result, s) := (s.provide resultName record).run p
  result.mapError (.ofFault s)
  -- a fault in the slot of `n` is reported before one in that of the signature
  let (n, s) := slot s record .n
  let n ← n
  let (sig, s) := slot s record .sig
  return ⟨s, n, ← sig⟩

/-- Reads a program and runs it. -/
def ofText (text : String) : Except SolutionError Solution :=
  match Program.parse text with
  | .error e => .error (.badSyntax e)
  | .ok p => ofProgram p

/-- Transforms a token with one of a solution's functions. -/
def apply (s : Solution) (t : Transform) (f : Value) (token : String) :
    Except SolutionError String × Solution :=
  match s.store.call f .undefined [.text token] with
  | (.error fault, store) => (.error (.ofFault store fault), { s with store })
  | (.ok (.text out), store) => (.ok out, { s with store })
  | (.ok v, store) => (.error (.notText t (store.listingOf v)), { s with store })

end Solution

end Descramble
