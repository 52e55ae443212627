import Descramble.Evaluation.Action

/-!
# Reading and writing places

A place is a variable or a property of a value. Values that are not objects have a few properties
too: a text its length, its characters and its methods, a number and a truth value only `toString`.
-/

namespace Descramble

/-- The method that an object has by its kind under a name. -/
def ObjectKind.method? : ObjectKind → String → Option Native
  | .plain, _ => none
  | .list _, key => Native.listMethod? key
  | .function _, key => Native.functionMethod? key

/-- What an assignment can write to. -/
inductive Place where
  | variable (name : Name)
  | property (target : Value) (key : String)

namespace Action

/-- A native function for each reading of a method, or `undefined` where there is no method. -/
def makeMethod : Option Native → Action Value
  | some n => makeNative n
  | none => pure .undefined

/-- A property of a text. -/
def getOfText (t key : String) : Action Value :=
  if key = "length" then pure (.number (.ofNat t.length))
  else
    match listIndex? key with
    | some i =>
      match t.toList[i]? with
      | some c => pure (.text (String.singleton c))
      | none => pure .undefined
    | none => makeMethod (Native.textMethod? key)

/-- A property of an object: its own, a method that goes with its kind, or an inherited one. A
    function gets its prototype when that is first asked for. -/
def getOfObject (ref : ObjectRef) (key : String) : Action Value := do
  let o ← read (·.object ref)
  match o.get? key with
  | some v => return v
  | none =>
    match o.kind.method? key with
    | some n => makeNative n
    | none =>
      -- most functions never construct anything, so the prototype is not made with the function
      if o.isFunction && key == "prototype" then
        let prototype ← makeObject .plain
        modify (·.setOwn ref key prototype)
        return prototype
      else
        match o.parent with
        | some parent => return (← read (·.inherited? parent key)).getD .undefined
        | none => return .undefined

/-- A property of a value. Only `undefined` and `null` have none. -/
def getProperty (target : Value) (key : String) : Action Value := do
  match target with
  | .undefined | .null =>
    typeError s!"Cannot read properties of {← read (·.textOf target)} (reading '{key}')"
  | .text t => getOfText t key
  | .number _ | .flag _ => makeMethod (if key = "toString" then some .toText else none)
  | .object ref => getOfObject ref key

/-- Writes a property of a value, without effect on a value that is no object. -/
def setProperty (target : Value) (key : String) (value : Value) : Action Unit := do
  match target with
  | .object ref =>
    if ← read (·.rejectsLength ref key value) then
      fail "RangeError" "Invalid array length"
    else if ← read (·.conflictsWithLength ref key value) then
      fault (.fatal .conflict)
    else
      modify (·.setOwn ref key value)
  | .undefined | .null =>
    typeError s!"Cannot set properties of {← read (·.textOf target)} (setting '{key}')"
  | _ => pure ()

/-- The value of a variable. -/
def getVariable (c : Context) (name : Name) : Action Value := do
  match ← read (·.lookup? c.scope name) with
  | some v => return v
  | none => fail "ReferenceError" (name ++ " is not defined")

def getPlace (c : Context) : Place → Action Value
  | .variable name => getVariable c name
  | .property target key => getProperty target key

def setPlace (c : Context) (value : Value) : Place → Action Unit
  | .variable name => modify (·.assign c.scope name value)
  | .property target key => setProperty target key value

/-- Whether a value was made by a function: whether the function's prototype is among its
    parents. -/
def isInstance (value function : Value) : Action Bool := do
  if ← read (·.isFunction function) then
    match ← getProperty function "prototype", value with
    | .object prototype, .object ref => read (·.descendsFrom ref prototype)
    | _, _ => return false
  else
    typeError "Right-hand side of 'instanceof' is not callable"

/-- Whether an object has a property or inherits it. -/
def hasProperty (key object : Value) : Action Bool := do
  let name ← read (·.textOf key)
  match object with
  | .object ref => return (← read (·.inherited? ref name)).isSome
  | _ =>
    typeError s!"Cannot use 'in' operator to search for '{name}' in {← read (·.textOf object)}"

/-- Makes a new object with a function. The object inherits from the function's prototype, and it is
    the result unless the call gives back an object of its own. -/
def construct (f : Value) (args : List Value) : Action Value := do
  if ← read (·.isFunction f) then
    let parent := match ← getProperty f "prototype" with
      | .object ref => some ref
      | _ => none
    -- the prototype exists by now, so a parent is always older than its children
    let made ← makeObject ⟨.plain, .empty, parent⟩
    match ← call f made args with
    | .object ref => return .object ref
    | _ => return made
  else
    typeError ((← read (·.textOf f)) ++ " is not a constructor")

end Action

end Descramble
