import Descramble.Evaluation.Access
import Descramble.Script.Printer

/-!
# The value of an expression

Operands are evaluated from left to right, and an assignment fixes the place it writes to before it
evaluates the value. The functions that an expression spells out become objects that remember the
scope they are in.
-/

namespace Descramble

def Literal.value : Literal → Value
  | .number n => .number n
  | .text s => .text s
  | .flag b => .flag b
  | .null => .null

/-- The text under which a property of an object literal is kept. -/
def PropertyKey.name : PropertyKey → String
  | .word name => name
  | .text s => s
  | .number n => n.toText

/-- Whether the value of the left operand decides a logical operation. -/
def LogicalOp.decidedBy : LogicalOp → Value → Bool
  | .and, v => !Store.truthy v
  | .or, v => Store.truthy v

/-- The number after a step up or down. -/
def UpdateOp.next : UpdateOp → Number → Number
  | .increment, n => n.add (.ofNat 1)
  | .decrement, n => n.sub (.ofNat 1)

namespace Action

/-- Makes a function in a context. One with a name of its own sees itself under that name. -/
def makeFunction (c : Context) (name : Option Name) (definition : Function) : Action Value := do
  match name with
  | none => makeObject (.function (.closure definition c.scope))
  | some name =>
    let scope ← makeScope c.scope
    let f ← makeObject (.function (.closure definition scope))
    modify (·.bind scope name f)
    return f

/-- The result of an operator with two operands. -/
def binary (op : BinaryOp) (left right : Value) : Action Value :=
  match op with
  | .arithmetic op => read (·.arithmetic op left right)
  | .comparison op => return .flag (← read (·.comparison op left right))
  | .hasKey => return .flag (← hasProperty left right)
  | .instanceOf => return .flag (← isInstance left right)

/-- The result of an operator with one operand that only needs its value. -/
def unary (op : UnaryOp) (v : Value) : Action Value :=
  match op with
  | .not => return .flag !Store.truthy v
  | .negate => return .number (← read (·.numberOf v)).neg
  | .plus => return .number (← read (·.numberOf v))
  | .bitNot => return .number (.ofWord (~~~(← read (·.numberOf v)).toInt32))
  | .typeOf => return .text (← read (·.typeName v))
  | .void => return .undefined
  | .delete => return .flag false

/-- Removes the property at a place. -/
def erasePlace : Place → Action Unit
  | .property (.object ref) key => modify (·.modifyObject ref (·.erase key))
  | _ => pure ()

/-- The property of a value that a computed key names. -/
def getIndex (target key : Value) : Action Value := do
  getProperty target (← read (·.textOf key))

/-- Calls the value of an expression. -/
def callValue (callee : Expr) (f this : Value) (args : List Value) : Action Value := do
  if ← read (·.isFunction f) then call f this args
  else typeError (callee.toText ++ " is not a function")

mutual

/-- The value of an expression in a context. -/
def eval (c : Context) : Expr → Action Value
  | .ident name => getVariable c name
  | .literal l => return l.value
  | .this => return c.this
  | .array items => do makeList (← evalAll c items)
  | .object properties => do makeObject ⟨.plain, ← evalProperties c .empty properties, none⟩
  | .function name definition => makeFunction c name definition
  | .arrow params body => makeObject (.function (.arrow params body c.scope c.this))
  | .call (.member object name) args => do
    let target ← eval c object
    let f ← getProperty target name
    callValue (.member object name) f target (← evalAll c args)
  | .call (.index object key) args => do
    let target ← eval c object
    let f ← getIndex target (← eval c key)
    callValue (.index object key) f target (← evalAll c args)
  | .call callee args => do
    let f ← eval c callee
    callValue callee f .undefined (← evalAll c args)
  | .construct callee args => do
    let f ← eval c callee
    construct f (← evalAll c args)
  | .member object name => do getProperty (← eval c object) name
  | .index object key => do
    let target ← eval c object
    getIndex target (← eval c key)
  | .assign none target value => do
    let place ← evalPlace c target
    let v ← eval c value
    setPlace c v place
    return v
  | .assign (some op) target value => do
    -- the old value is read before the operand is evaluated, which may change it
    let place ← evalPlace c target
    let current ← getPlace c place
    let operand ← eval c value
    let v ← read (·.arithmetic op current operand)
    setPlace c v place
    return v
  | .logical op left right => do
    let v ← eval c left
    if op.decidedBy v then return v else eval c right
  | .binary op left right => do
    let x ← eval c left
    let y ← eval c right
    binary op x y
  -- asking for the type of a name that nothing binds is no error
  | .unary .typeOf (.ident name) =>
    return .text (← read fun s => ((s.lookup? c.scope name).map s.typeName).getD "undefined")
  | .unary .delete arg => do
    match arg with
    | .member _ _ | .index _ _ =>
      erasePlace (← evalPlace c arg)
      return .flag true
    | _ => return .flag false
  | .unary op arg => do unary op (← eval c arg)
  | .update op before arg => do
    let place ← evalPlace c arg
    let v ← getPlace c place
    let old ← read (·.numberOf v)
    setPlace c (.number (op.next old)) place
    return .number (if before then op.next old else old)
  | .conditional test yes no => do
    if Store.truthy (← eval c test) then eval c yes else eval c no
  | .sequence items => evalLast c .undefined items

/-- The values of the items of a list, in order. -/
def evalAll (c : Context) : List Expr → Action (List Value)
  | [] => return []
  | e :: es => do
    let v ← eval c e
    return v :: (← evalAll c es)

/-- The value of the last item of a list, or the given one if there is none. -/
def evalLast (c : Context) (last : Value) : List Expr → Action Value
  | [] => return last
  | e :: es => do evalLast c (← eval c e) es

/-- The properties of an object literal, added to those before them. -/
def evalProperties (c : Context) (made : Bindings) : List Property → Action Bindings
  | [] => return made
  | ⟨key, value⟩ :: rest => do evalProperties c (made.insert key.name (← eval c value)) rest

/-- The place that an assignment writes to. -/
def evalPlace (c : Context) : Expr → Action Place
  | .ident name => return .variable name
  | .member object name => return .property (← eval c object) name
  | .index object key => do
    let target ← eval c object
    let key ← eval c key
    return .property target (← read (·.textOf key))
  | e => fail "SyntaxError" ("invalid assignment target " ++ e.toText)

end

end Action

end Descramble
