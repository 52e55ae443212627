import Descramble.Evaluation.Native
import Descramble.Evaluation.Statement

/-!
# The machine

The machine runs actions and carries out what they ask for. Those that wait for an answer form a
stack, and every call on it is one level deeper than the one below it. A call beyond the last level
is refused: it ends at once, in a fault that goes to whoever asked.

Main definitions: `Machine.next`, one step of the machine; `Machine.run`, the whole way to the
outcome.
-/

namespace Descramble

namespace Action

/-- Runs what a function consists of. A function that is called on nothing has the global object as
    `this`, and sees all its arguments as an array. -/
def enter (f : Callable) (this : Value) (args : List Value) : Action Completion := do
  match f with
  | .native n => return .gaveBack (← runNative n this args)
  | .closure definition scope =>
    let this := match this with
      | .undefined | .null => .object .global
      | v => v
    let inner ← makeScope scope
    modify (·.bindParams inner definition.params args)
    let list ← makeList args
    modify (·.bindIfNew inner "arguments" list)
    runBody ⟨inner, this⟩ definition.body
  | .arrow params body scope this =>
    let inner ← makeScope scope
    modify (·.bindParams inner params args)
    match body with
    | .expr e => return .gaveBack (← eval ⟨inner, this⟩ e)
    | .block body => runBody ⟨inner, this⟩ body

end Action

/-- What waits for an answer: a call, or a loop of which one turn is being taken. -/
inductive Pending where
  | call (resume : Except Fault Completion → Store → Step Completion)
  | loop (l : Loop) (resume : Except Fault Completion → Store → Step Completion)

/-- The deepest level of calls. -/
def maxDepth : Nat :=
  10000

/-- A run that goes on: what waits, how deep in calls it is, and what it does now. -/
structure Machine where
  pending : List Pending
  depth : Nat
  current : Step Completion

/-- How a run ends: with what result, in what store and at what level of calls. -/
structure Outcome where
  result : Except Fault Completion
  store : Store
  depth : Nat

namespace Machine

/-- A run that starts with an action, at a level of calls. -/
def start (x : Action Completion) (s : Store) (depth : Nat) : Machine :=
  ⟨[], depth, x s⟩

/-- Goes on to the next request or answer. -/
def next : Machine → Outcome ⊕ Machine
  | ⟨pending, depth, .ask (.call f this args) s resume⟩ =>
    if depth < maxDepth then
      .inr ⟨.call resume :: pending, depth + 1, Action.enter f this args s⟩
    else .inr ⟨pending, depth, resume (.error (.fatal .tooDeep)) s⟩
  | ⟨pending, depth, .ask (.loop l) s resume⟩ =>
    .inr ⟨.loop l resume :: pending, depth, Action.turn l s⟩
  | ⟨[], depth, .done result s⟩ => .inl ⟨result, s, depth⟩
  | ⟨.call resume :: pending, depth, .done result s⟩ =>
    .inr ⟨pending, depth - 1, resume result s⟩
  -- a turn that ends in `continued` asks for the loop again, so a loop needs one place on the stack
  | ⟨.loop l resume :: pending, depth, .done (.ok .continued) s⟩ =>
    .inr ⟨pending, depth, .ask (.loop l) s resume⟩
  | ⟨.loop _ resume :: pending, depth, .done result s⟩ => .inr ⟨pending, depth, resume result s⟩

/-- The store of a machine. -/
def store (m : Machine) : Store :=
  match m.current with
  | .done _ s => s
  | .ask _ s _ => s

/-- Runs a machine for a number of steps at most, to its outcome if that comes by then. -/
def run : Nat → Machine → Option Outcome
  | 0, _ => none
  | bound + 1, m =>
    match m.next with
    | .inl outcome => some outcome
    | .inr m => m.run bound

end Machine

end Descramble
