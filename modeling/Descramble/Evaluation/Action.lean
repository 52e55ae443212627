import Descramble.Value.Operation
import Descramble.Value.Variable

/-!
# Actions

An action is a piece of a run: it changes the store and ends in a value or in a fault. It does not
run calls and loops itself. It asks for them, and says how it goes on with the answer; a `Step` is a
piece of a run up to its end or up to its next request. So actions are finite and are defined by
recursion on the script, while the nesting of calls lies in the list of those that wait for an
answer.

A fault is an answer like any other: whoever waits for a call may get one, and decides what becomes
of it. Scripts can only take up what was thrown.

Main statements: `bind_assoc` and `pure_bind`, actions are composed as a monad.
-/

namespace Descramble

/-- Where a piece of script runs: its scope and the value of `this`. -/
structure Context where
  scope : ScopeRef
  this : Value

/-- How a statement ends, unless it throws. -/
inductive Completion where
  | normal
  | gaveBack (v : Value)
  | broke
  | continued

/-- The value of a call whose body ends in this way. -/
def Completion.value : Completion → Value
  | .gaveBack v => v
  | _ => .undefined

/-- A loop after its first part. -/
structure Loop where
  test : Option Expr
  step : Option Expr
  body : Stmt
  context : Context

/-- Why a run comes to nothing, whatever its script does about it. -/
inductive Fatal where
  /-- A call was refused, because too many others were waiting for it. -/
  | tooDeep
  /-- An object had to be read while it was being written. This is an error of the program that runs
      the script, which does not survive it. -/
  | conflict
  /-- The run was given up. -/
  | unfinished
deriving DecidableEq

/-- Why a piece of a run has no value. A script can catch what was thrown. -/
inductive Fault where
  | thrown (v : Value)
  | fatal (why : Fatal)

/-- What an action cannot do by itself: run a call, or take turns of a loop until it ends. -/
inductive Request where
  | call (f : Callable) (this : Value) (args : List Value)
  | loop (l : Loop)

/-- A run up to its end, or up to its next request and how it goes on from the answer. -/
inductive Step (α : Type) where
  | done (result : Except Fault α) (store : Store)
  | ask (request : Request) (store : Store)
      (resume : Except Fault Completion → Store → Step α)

/-- Goes on with an action once a step has its result, a value or a fault. -/
def Step.followedBy (x : Step α) (f : Except Fault α → Store → Step β) : Step β :=
  match x with
  | .done result store => f result store
  | .ask request store resume =>
    .ask request store fun answer store => (resume answer store).followedBy f

/-- A piece of a run from a store on. -/
def Action (α : Type) : Type :=
  Store → Step α

namespace Action

protected def pure (a : α) : Action α :=
  fun s => .done (.ok a) s

/-- Ends in a fault. -/
def fault (f : Fault) : Action α :=
  fun s => .done (.error f) s

/-- Ends by throwing a value. -/
def raise (v : Value) : Action α :=
  fault (.thrown v)

/-- Goes on with whatever an action ends in. -/
def handle (x : Action α) (f : Except Fault α → Action β) : Action β :=
  fun s => (x s).followedBy fun result s => f result s

protected def bind (x : Action α) (f : α → Action β) : Action β :=
  fun s => (x s).followedBy fun result s =>
    match result with
    | .ok a => f a s
    | .error e => .done (.error e) s

instance : Monad Action where
  pure := Action.pure
  bind := Action.bind

/-- Ends in a result that there is already. -/
def resolve : Except Fault α → Action α
  | .ok a => pure a
  | .error e => fault e

/-! ## The store -/

/-- Looks something up in the store. -/
def read (f : Store → α) : Action α :=
  fun s => .done (.ok (f s)) s

def modify (f : Store → Store) : Action Unit :=
  fun s => .done (.ok ()) (f s)

/-- Makes an object. -/
def makeObject (o : Object) : Action Value :=
  fun s =>
    let (ref, s) := s.addObject o
    .done (.ok (.object ref)) s

def makeList (items : List Value) : Action Value :=
  makeObject (.list items.toArray)

def makeNative (n : Native) : Action Value :=
  makeObject (.function (.native n))

/-- Makes a scope inside another. -/
def makeScope (parent : ScopeRef) : Action ScopeRef :=
  fun s =>
    let (ref, s) := s.addScope parent
    .done (.ok ref) s

/-- Makes a block inside a context. -/
def makeBlock (c : Context) : Action Context := do
  return { c with scope := ← makeScope c.scope }

/-! ## Errors and requests -/

/-- Throws an object with a name and a message. -/
def fail (name message : String) : Action α := do
  let properties := (Bindings.empty.insert "name" (.text name)).insert "message" (.text message)
  raise (← makeObject ⟨.plain, properties, none⟩)

def typeError (message : String) : Action α :=
  fail "TypeError" message

/-- Asks for a request to be carried out. -/
def request (r : Request) : Action Completion :=
  fun s => .ask r s fun answer s => .done answer s

/-- Calls a value. Only a function can be called. -/
def call (f this : Value) (args : List Value) : Action Value := do
  match ← read (·.callable? f) with
  | some callable => return (← request (.call callable this args)).value
  | none =>
    match f with
    -- any other object is only called an object, a primitive is named by its text
    | .object _ => typeError "object is not a function"
    | _ => typeError ((← read (·.textOf f)) ++ " is not a function")

end Action

/-! ## Laws -/

/-- It does not matter whether the first two of three steps are put together first or the last
    two. -/
theorem Step.followedBy_assoc (x : Step α) (f : Except Fault α → Store → Step β)
    (g : Except Fault β → Store → Step γ) :
    (x.followedBy f).followedBy g = x.followedBy fun r s => (f r s).followedBy g := by
  induction x with
  | done result store => rfl
  -- the answer is handed on in the same way on both sides
  | ask request store resume ih =>
    simp only [Step.followedBy]
    congr
    funext answer store
    exact ih answer store

/-- Going on by doing nothing changes nothing. -/
theorem Step.followedBy_done (x : Step α) : (x.followedBy fun r s => .done r s) = x := by
  induction x with
  | done result store => rfl
  -- a request stays the same, with the same answer handed on
  | ask request store resume ih =>
    simp only [Step.followedBy]
    congr
    funext answer store
    exact ih answer store

namespace Action

/-- To go on from a value that there is already is to begin with what follows. -/
theorem pure_bind (a : α) (f : α → Action β) : (pure a >>= f) = f a :=
  rfl

/-- It does not matter how three actions are put together. -/
theorem bind_assoc (x : Action α) (f : α → Action β) (g : β → Action γ) :
    (x >>= f >>= g) = (x >>= fun a => f a >>= g) := by
  funext s
  -- both sides run `x` first and differ only in how they go on
  show ((x s).followedBy _).followedBy _ = (x s).followedBy _
  rw [Step.followedBy_assoc]
  congr
  funext result s
  cases result <;> rfl

/-- To keep the value of an action is to change nothing. -/
theorem id_map (x : Action α) : id <$> x = x := by
  -- a value is handed on as it is, and so is a fault
  funext s
  show (x s).followedBy _ = x s
  rw [← Step.followedBy_done (x s), Step.followedBy_assoc]
  congr
  funext result s
  cases result <;> rfl

instance : LawfulMonad Action :=
  .mk' _ id_map pure_bind bind_assoc

/-- To go on with the value of an action is to go on with whatever it ends in and to hand on the
    faults. -/
theorem bind_eq_handle (x : Action α) (f : α → Action β) :
    (x >>= f) = x.handle fun
      | .ok a => f a
      | .error e => fault e := by
  funext s
  show (x s).followedBy _ = (x s).followedBy _
  congr
  funext result s
  -- what ends in a value and what ends in a fault go on alike on both sides
  cases result <;> rfl

end Action

end Descramble
