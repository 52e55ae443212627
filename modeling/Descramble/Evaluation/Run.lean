import Descramble.Evaluation.Machine
import Descramble.Value.Global

/-!
# Runs

What a host does with a store: running a program in it, calling its functions and reading their
properties. The store keeps what a run did before it ended, also when it ended in a fault. Between
two runs nothing is being called, so each of them starts at the first level of calls.

A conflict ends the program that runs the script. What that prints on its way out is left out here:
a conflict has a message and is passed to the host like any other fault.
-/

namespace Descramble

/-- The number of steps after which a run is given up. -/
def maxSteps : Nat :=
  2 ^ 62

/-- Runs an action to its end. A run that is given up leaves the store as it was. -/
def Action.perform (x : Action Completion) (s : Store) : Outcome :=
  ((Machine.start x s 0).run maxSteps).getD ⟨.error (.fatal .unfinished), s, 0⟩

namespace Store

/-- Runs a program at the top of the store's scopes. -/
def run (s : Store) (p : Program) : Except Fault Unit × Store :=
  let outcome := (Action.runBody ⟨.root, .object .global⟩ p.body).perform s
  (outcome.result.map fun _ => (), outcome.store)

/-- Runs an action for its value. -/
def evaluate (s : Store) (x : Action Value) : Except Fault Value × Store :=
  let outcome := Action.perform (do return .gaveBack (← x)) s
  (outcome.result.map Completion.value, outcome.store)

/-- Calls a value. -/
def call (s : Store) (f this : Value) (args : List Value) : Except Fault Value × Store :=
  s.evaluate (Action.call f this args)

/-- Reads a property of a value. -/
def getProperty (s : Store) (target : Value) (key : String) : Except Fault Value × Store :=
  s.evaluate (Action.getProperty target key)

/-- Makes a value visible to every program under a name, but not as a global property. -/
def provide (s : Store) (name : Name) (value : Value) : Store :=
  s.bind .root name value

/-- The global property under a name. -/
def global? (s : Store) (name : Name) : Option Value :=
  (s.object .global).get? name

/-- What a thrown value says about itself: its name and message, or else its text. -/
def describe (s : Store) (thrown : Value) : String :=
  match s.objectOf? thrown with
  | some o =>
    match o.get? "message" with
    | some message =>
      ((o.get? "name").map s.textOf).getD "Error" ++ ": " ++ s.textOf message
    | none => s.textOf thrown
  | none => s.textOf thrown

end Store

def Fatal.message : Fatal → String
  | .tooDeep => "Maximum call stack size exceeded"
  | .conflict => "already mutably borrowed"
  | .unfinished => "Maximum number of steps exceeded"

/-- What a fault says about itself. -/
def Fault.message (s : Store) : Fault → String
  | .thrown v => s.describe v
  | .fatal why => why.message

end Descramble
