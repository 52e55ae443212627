import Descramble.Evaluation.Action
import Descramble.Value.Section

/-!
# Methods of arrays

A method works on the items that the array has when the method is called. The methods that change an
array put its new items in place at the end; those that call a function for each item keep to the
items they started with, whatever the function does to the array.
-/

namespace Descramble

/-- The same object with other items, if it is an array. -/
def Object.withItems (o : Object) (items : List Value) : Object :=
  match o with
  | ⟨.list _, properties, parent⟩ => ⟨.list items.toArray, properties, parent⟩
  | _ => o

/-- What an argument adds to a concatenation: the items of an array, or itself. -/
def Store.spread (s : Store) (v : Value) : List Value :=
  match s.items? v with
  | some items => items.toList
  | none => [v]

/-- The place of the first item from `start` on that equals a value. -/
def indexOf? (v : Value) (start : Nat) (items : List Value) : Option Nat :=
  ((items.drop start).findIdx? (·.strictEquals v)).map (start + ·)

namespace Action

/-- Puts other items into an array. -/
def setItems (ref : ObjectRef) (items : List Value) : Action Unit :=
  modify (·.modifyObject ref (·.withItems items))

/-- Calls a function with every item, its place and the array, in order. -/
def callForEach (f this : Value) (ref : ObjectRef) (place : Nat) (results : List Value) :
    List Value → Action (List Value)
  | [] => return results.reverse
  | item :: rest => do
    let v ← call f this [item, .number (.ofNat place), .object ref]
    callForEach f this ref (place + 1) (v :: results) rest

/-- The results of calling a function with every item of an array. -/
def mapItems (ref : ObjectRef) (items args : List Value) : Action (List Value) := do
  let f := argument args 0
  if ← read (·.isFunction f) then callForEach f (argument args 1) ref 0 [] items
  else typeError ((← read (·.listingOf f)) ++ " expects a function")

end Action

open Descramble.Action

/-- Runs a method on an array with the given items. -/
def ListMethod.run (m : ListMethod) (ref : ObjectRef) (items args : List Value) :
    Action Value := do
  let first := argument args 0
  let second := argument args 1
  match m with
  | .push =>
    setItems ref (items ++ args)
    return .number (.ofNat (items.length + args.length))
  -- taking an item from an empty array gives `undefined` and leaves it empty
  | .pop =>
    setItems ref items.dropLast
    return items.getLast?.getD .undefined
  | .shift =>
    setItems ref items.tail
    return items.head?.getD .undefined
  | .unshift =>
    setItems ref (args ++ items)
    return .number (.ofNat (args.length + items.length))
  | .splice =>
    let start ← read (·.offsetOf first)
    let count ← if args.length < 2 then pure .beyond else read (·.offsetOf second)
    let (removed, left) := start.splice count (args.drop 2) items
    setItems ref left
    makeList removed
  | .reverse =>
    setItems ref items.reverse
    return .object ref
  | .slice =>
    let start ← read (·.offsetOf first)
    makeList (start.slice (← read (·.stopOf second)) items)
  | .join =>
    let separator ← match first with
      | .undefined => pure ","
      | _ => read (·.textOf first)
    return .text (← read (·.join ref items.toArray separator))
  | .indexOf =>
    let start := (← read (·.offsetOf second)).relativeTo items.length
    return .number (((indexOf? first start items).map .ofNat).getD (.ofInt (-1)))
  | .concat => makeList (items ++ (← read fun s => args.flatMap s.spread))
  | .forEach =>
    let _ ← mapItems ref items args
    return .undefined
  | .map => makeList (← mapItems ref items args)

end Descramble
