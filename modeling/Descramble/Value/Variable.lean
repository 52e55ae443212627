import Descramble.Value.Property

/-!
# Variables

A name means the innermost scope that binds it, and otherwise the global object. Reading and writing
a variable look for the same binding; writing a name that nothing binds makes a global property.
-/

namespace Descramble.Store

/-- The innermost scope that binds a name, looking at `bound` scopes at most. -/
def binderWithin (s : Store) (name : Name) : Nat → ScopeRef → Option ScopeRef
  | 0, _ => none
  | bound + 1, ref =>
    let scope := s.scope ref
    if scope.names.contains name then some ref
    else
      match scope.parent with
      | some parent => s.binderWithin name bound parent
      | none => none

/-- The innermost scope that binds a name. A scope is younger than the one around it, so its number
    bounds the length of the chain. -/
def binder? (s : Store) (ref : ScopeRef) (name : Name) : Option ScopeRef :=
  s.binderWithin name (ref.index + 1) ref

/-- The value of a name in a scope. -/
def lookup? (s : Store) (ref : ScopeRef) (name : Name) : Option Value :=
  match s.binder? ref name with
  | some binder => (s.scope binder).names.get? name
  | none => s.inherited? .global name

/-- Puts a value under a name in one scope. -/
def bind (s : Store) (ref : ScopeRef) (name : Name) (value : Value) : Store :=
  s.modifyScope ref fun scope => { scope with names := scope.names.insert name value }

/-- Puts a value under a name in one scope unless the name has one there. -/
def bindIfNew (s : Store) (ref : ScopeRef) (name : Name) (value : Value) : Store :=
  s.modifyScope ref fun scope => { scope with names := scope.names.insertIfNew name value }

/-- Gives a name a value where it is bound, or makes it global. -/
def assign (s : Store) (ref : ScopeRef) (name : Name) (value : Value) : Store :=
  match s.binder? ref name with
  | some binder => s.bind binder name value
  | none => s.setOwn .global name value

/-- Declares a name in a scope with a value. In the root scope this makes a global property. -/
def define (s : Store) (ref : ScopeRef) (name : Name) (value : Value) : Store :=
  if ref = .root then s.setOwn .global name value else s.bind ref name value

/-- Declares a name in a scope without touching a value that it has there. -/
def declare (s : Store) (ref : ScopeRef) (name : Name) : Store :=
  if ref = .root then
    if ((s.object .global).get? name).isSome then s else s.setOwn .global name .undefined
  else s.bindIfNew ref name .undefined

/-- Binds the parameters of a function to arguments, `undefined` where there are too few. -/
def bindParams (s : Store) (ref : ScopeRef) : List Name → List Value → Store
  | [], _ => s
  | param :: params, args =>
    (s.bind ref param (args.head?.getD .undefined)).bindParams ref params args.tail

end Descramble.Store
