import Descramble.Script.Tree
import Descramble.Value.Native

/-!
# Values

What a running script computes with. Objects and scopes live in a store and are named by references,
so values can be shared and cyclic.
-/

namespace Descramble

structure ObjectRef where
  index : Nat
deriving DecidableEq

structure ScopeRef where
  index : Nat
deriving DecidableEq

inductive Value where
  | undefined
  | null
  | flag (b : Bool)
  | number (n : Number)
  | text (s : String)
  | object (ref : ObjectRef)
deriving DecidableEq

instance : Inhabited Value := ⟨.undefined⟩

/-- What a call runs. A function closes over the scope in which it was made, an arrow function also
    over the value of `this`. -/
inductive Callable where
  | closure (definition : Function) (scope : ScopeRef)
  | arrow (params : List Name) (body : ArrowBody) (scope : ScopeRef) (this : Value)
  | native (n : Native)

end Descramble
