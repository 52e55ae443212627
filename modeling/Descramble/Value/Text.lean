import Descramble.Number.Text
import Descramble.Text.Quoted
import Descramble.Value.Store

/-!
# The text of a value

An array is written as the texts of its items with separators between them. Items that are missing
are blank, and so is every array that is already being written around them, so that the text of a
cyclic array is finite.
-/

namespace Descramble

namespace Store

/-- The text of an item of an array, given the arrays being written around it and how to write one
    that is not. -/
def itemTextBy (inside : List ObjectRef → ObjectRef → String) (around : List ObjectRef) :
    Value → String
  | .undefined | .null => ""
  | .flag b => if b then "true" else "false"
  | .number n => n.toText
  | .text t => t
  | .object ref => if ref ∈ around then "" else inside (ref :: around) ref

/-- The text of an object, where `around` are the objects being written around it and the object
    itself. Each array inside another adds one to them, so the number of objects bounds the
    nesting. -/
def objectTextWithin (s : Store) : Nat → List ObjectRef → ObjectRef → String
  | 0, _, _ => ""
  | bound + 1, around, ref =>
    match (s.object ref).kind with
    | .plain => "[object Object]"
    | .function _ => "function () \x7b [native code] \x7d"
    | .list items =>
      joined "," (items.toList.map (itemTextBy (objectTextWithin s bound) around))

/-- The text of an object. -/
def objectText (s : Store) (ref : ObjectRef) : String :=
  objectTextWithin s (s.objects.size + 1) [ref] ref

/-- The texts of the items of an array with a separator between them. -/
def join (s : Store) (ref : ObjectRef) (items : Array Value) (separator : String) : String :=
  joined separator
    (items.toList.map (itemTextBy (objectTextWithin s (s.objects.size + 1)) [ref]))

/-- The text of a value. -/
def textOf (s : Store) : Value → String
  | .undefined => "undefined"
  | .null => "null"
  | .flag b => if b then "true" else "false"
  | .number n => n.toText
  | .text t => t
  | .object ref => s.objectText ref

/-- Whether writing an object looks at another one, where `around` are the objects being written
    around it and the object itself. -/
def looksAtWithin (s : Store) (other : ObjectRef) : Nat → List ObjectRef → ObjectRef → Bool
  | 0, _, _ => false
  | bound + 1, around, ref =>
    ref == other ||
      match (s.object ref).kind with
      | .list items => items.toList.any fun
        | .object next => next ∉ around && s.looksAtWithin other bound (next :: around) next
        | _ => false
      | _ => false

/-- Whether writing a value looks at an object: at itself, or at one in the arrays that it writes on
    the way. -/
def looksAt (s : Store) (v : Value) (other : ObjectRef) : Bool :=
  match v with
  | .object ref => s.looksAtWithin other (s.objects.size + 1) [ref] ref
  | _ => false

/-- The text of a value in a diagnostic, which does not look into objects. -/
def listingOf (s : Store) : Value → String
  | .text t => Listing.encode t
  | .object ref =>
    match (s.object ref).kind with
    | .plain => "[object]"
    | .list items => "[array of " ++ toString items.size ++ "]"
    | .function _ => "[function]"
  | v => s.textOf v

end Store

end Descramble
