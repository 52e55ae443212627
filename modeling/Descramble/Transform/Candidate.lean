import Descramble.Script.Equality
import Descramble.Script.Printer
import Descramble.Transform.Shape

/-!
# Candidates

A candidate says how to invoke a transform: which function to call, and with which arguments before
the token. `Candidate.ofStatement?` finds the candidate that a statement gives for a transform.
-/

namespace Descramble

/-- The two transforms of a token: the throttling parameter `n` and the signature. -/
inductive Transform where
  | n
  | sig
deriving DecidableEq

namespace Transform

def all : List Transform :=
  [.n, .sig]

/-- The name of a transform's slot, also of the parameter of its wrapper. -/
def name : Transform → String
  | .n => "n"
  | .sig => "sig"

end Transform

structure Candidate where
  transform : Transform
  callee : Name
  leading : List Expr
deriving DecidableEq

namespace Candidate

/-- The function of one token that calls the candidate's function. -/
def wrapper (c : Candidate) : Expr :=
  let param := c.transform.name
  .arrow [param] (.expr (.call (.ident c.callee) (c.leading ++ [.ident param])))

def toText (c : Candidate) : String :=
  c.wrapper.toText

end Candidate

/-! ## Parts of a statement -/

/-- The function that an expression spells out. -/
def Expr.function? : Expr → Option Function
  | .function _ f => some f
  | _ => none

/-- The name in an array literal of a single name. -/
def Expr.soleIdent? : Expr → Option Name
  | .array [.ident name] => some name
  | _ => none

namespace Stmt

/-- The functions that a statement binds to names, in source order. -/
def functions : Stmt → List (Name × Function)
  | .function name f => [(name, f)]
  | .expr (.assign none (.ident name) value) => (value.function?.map (name, ·)).toList
  | .declare d =>
    d.declarators.filterMap fun ⟨name, init⟩ => (init.bind Expr.function?).map (name, ·)
  | _ => []

/-- The functions of a given number of parameters that a statement binds. -/
def functionsOfArity (s : Stmt) (arity : Nat) : List (Name × Function) :=
  s.functions.filter fun (_, f) => f.params.length == arity

/-- The name that a statement aliases by putting it into an array of its own. -/
def aliased? : Stmt → Option Name
  | .declare d => d.declarators.findSome? fun ⟨_, init⟩ => init.bind Expr.soleIdent?
  | .expr (.assign none _ value) => value.soleIdent?
  | _ => none

/-- The name on the right of the sum that a `try` statement returns from its handler. -/
def decoyOperand? : Stmt → Option Name
  | .attempt _ (some ⟨_, [.giveBack (some (.binary (.arithmetic .add) _ right))]⟩) _ =>
    right.ident?
  | _ => none

/-- The called name and the arguments in `c && (c = f(..), ..)`. -/
def guardedCall? : Stmt → Option (Name × List Expr)
  | .expr (.logical _ _ (.sequence (.assign _ _ (.call (.ident callee) args) :: _))) =>
    some (callee, args)
  | _ => none

end Stmt

/-- The statement before the last one of a function. -/
def Function.guard? (f : Function) : Option Stmt :=
  if f.body.length < 2 then none else f.body[f.body.length - 2]?

namespace Candidate

/-- The candidate that one function gives for the `n` transform: its decoy must return its own
    parameter. -/
def ofDecoy? (name : Name) (f : Function) : Option Candidate := do
  let guard ← f.guard?
  if Shape.decoyGuard.accepts (.stmt guard) && guard.decoyOperand? == f.params.head? then
    some ⟨.n, name, []⟩
  else none

/-- The candidate that one function gives for the signature transform: what its guard calls. -/
def ofCallGuard? (f : Function) : Option Candidate := do
  let guard ← f.guard?
  if Shape.callGuard.accepts (.stmt guard) then
    match guard.guardedCall? with
    | some (callee, [_]) => some ⟨.sig, callee, []⟩
    | some (callee, [first, _]) => some ⟨.sig, callee, [first]⟩
    | _ => none
  else none

/-- The candidate for the `n` transform: what an alias names, or else the first function with a
    decoy. -/
def n? (s : Stmt) : Option Candidate :=
  if Shape.aliasing.accepts (.stmt s) then
    s.aliased?.map fun name => ⟨.n, name, []⟩
  else if (Shape.function 1).accepts (.stmt s) then
    (s.functionsOfArity 1).findSome? fun (name, f) => ofDecoy? name f
  else none

/-- The candidate for the signature transform: the first function of three parameters with a guarded
    call. -/
def sig? (s : Stmt) : Option Candidate :=
  if (Shape.function 3).accepts (.stmt s) then
    (s.functionsOfArity 3).findSome? fun (_, f) => ofCallGuard? f
  else none

/-- The candidate that a statement gives for a transform. -/
def ofStatement? (t : Transform) (s : Stmt) : Option Candidate :=
  match t with
  | .n => n? s
  | .sig => sig? s

end Candidate

end Descramble
