import Descramble.Evaluation.Expression
import Descramble.Script.Hoisting

/-!
# Running statements

A statement ends normally or in a jump, which the statements around it pass on until one takes it: a
loop or a `switch` a `break`, a loop a `continue`, a call a `return`. A block is a scope of its own,
and the functions declared in it exist from its start.
-/

namespace Descramble

namespace Action

/-- Makes the functions that the statements of a block declare. -/
def declareFunctions (c : Context) : List Stmt → Action Unit
  | [] => return
  | .function name definition :: rest => do
    let f ← makeObject (.function (.closure definition c.scope))
    modify (·.define c.scope name f)
    declareFunctions c rest
  | _ :: rest => declareFunctions c rest

/-- Declares names without touching their values. -/
def declareNames (c : Context) : List Name → Action Unit
  | [] => return
  | name :: names => do
    modify (·.declare c.scope name)
    declareNames c names

/-- Runs the declarators of a declaration. A `var` without a value leaves its variable alone. -/
def runDeclarators (c : Context) (kind : DeclarationKind) : List Declarator → Action Unit
  | [] => return
  | ⟨name, init⟩ :: rest => do
    match init, kind with
    | none, .functionScoped => pure ()
    | none, _ => modify (·.define c.scope name .undefined)
    | some e, .functionScoped =>
      let v ← eval c e
      modify (·.assign c.scope name v)
    | some e, _ =>
      let v ← eval c e
      modify (·.define c.scope name v)
    runDeclarators c kind rest

def runDeclaration (c : Context) (d : Declaration) : Action Unit :=
  runDeclarators c d.kind d.declarators

/-- What a `for` loop does first. -/
def runStart (c : Context) : Option ForStart → Action Unit
  | none => return
  | some (.declare d) => runDeclaration c d
  | some (.expr e) => do let _ ← eval c e

/-- The value of an expression that may be missing. -/
def evalOptional (c : Context) : Option Expr → Action Value
  | none => return .undefined
  | some e => eval c e

/-- The place of the clause that a `switch` starts with: the first whose test equals the subject. -/
def findCase (c : Context) (subject : Value) (place : Nat) : List SwitchCase → Action (Option Nat)
  | [] => return none
  | ⟨none, _⟩ :: rest => findCase c subject (place + 1) rest
  | ⟨some test, _⟩ :: rest => do
    if (← eval c test).strictEquals subject then return some place
    else findCase c subject (place + 1) rest

/-- The place of the clause without a test. -/
def defaultCase? (cases : List SwitchCase) : Option Nat :=
  cases.findIdx? (·.test.isNone)

mutual

/-- Runs a statement in a context. -/
def run (c : Context) : Stmt → Action Completion
  | .expr e => do
    let _ ← eval c e
    return .normal
  | .declare d => do
    runDeclaration c d
    return .normal
  | .function _ _ => return .normal
  | .giveBack value => return .gaveBack (← evalOptional c value)
  | .ifElse test yes no => do
    if Store.truthy (← eval c test) then run c yes else runOptional c no
  | .block body => do
    let inner ← makeBlock c
    declareFunctions inner body
    runAll inner body
  | .forLoop start test step body => do
    let inner ← makeBlock c
    runStart inner start
    request (.loop ⟨test, step, body, inner⟩)
  | .whileLoop test body => request (.loop ⟨some test, none, body, c⟩)
  | .switch subject cases => do
    let v ← eval c subject
    -- every test is tried before the default clause, wherever that stands
    match (← findCase c v 0 cases) <|> defaultCase? cases with
    | none => return .normal
    | some start => runCases (← makeBlock c) start cases
  | .attempt block handler finalizer =>
    let tried := handle (do
      let inner ← makeBlock c
      declareFunctions inner block
      runAll inner block) fun result => runCatch c result handler
    handle tried fun result => runFinally c result finalizer
  | .raise value => do raise (← eval c value)
  | .breakOut => return .broke
  | .continueLoop => return .continued
  | .empty => return .normal

/-- Runs statements one after the other until one of them jumps. -/
def runAll (c : Context) : List Stmt → Action Completion
  | [] => return .normal
  | s :: ss => do
    match ← run c s with
    | .normal => runAll c ss
    | jump => return jump

def runOptional (c : Context) : Option Stmt → Action Completion
  | none => return .normal
  | some s => run c s

/-- Runs the clauses of a `switch` from the one at `start` on. -/
def runCases (c : Context) : Nat → List SwitchCase → Action Completion
  | _, [] => return .normal
  | start + 1, _ :: rest => runCases c start rest
  | 0, ⟨_, body⟩ :: rest => do
    declareFunctions c body
    match ← runAll c body with
    | .normal => runCases c 0 rest
    | .broke => return .normal
    | jump => return jump

/-- Runs the handler of a `try` statement if its block has thrown. Any other result stays. -/
def runCatch (c : Context) (result : Except Fault Completion) :
    Option CatchClause → Action Completion
  | none => resolve result
  | some ⟨param, body⟩ =>
    match result with
    | .error (.thrown thrown) => do
      let inner ← makeBlock c
      match param with
      | some name => modify (·.bind inner.scope name thrown)
      | none => pure ()
      declareFunctions inner body
      runAll inner body
    | other => resolve other

/-- Runs the last part of a `try` statement, unless the run comes to nothing. A jump or a throw out
    of it replaces the result. -/
def runFinally (c : Context) (result : Except Fault Completion) :
    Option (List Stmt) → Action Completion
  | none => resolve result
  | some body =>
    match result with
    | .error (.fatal why) => fault (.fatal why)
    | _ => do
      let inner ← makeBlock c
      declareFunctions inner body
      match ← runAll inner body with
      | .normal => resolve result
      | jump => return jump

end

/-- Runs the statements of a block in the scope made for it. -/
def runBody (c : Context) (body : List Stmt) : Action Completion := do
  declareNames c (Stmt.hoistedAll body)
  declareFunctions c body
  runAll c body

/-- Takes one turn of a loop. `continued` asks for another turn; any other completion is that of the
    loop. -/
def turn (l : Loop) : Action Completion := do
  let goesOn := match l.test with
    | some test => return Store.truthy (← eval l.context test)
    | none => return true
  if ← goesOn then
    match ← run l.context l.body with
    | .broke => return .normal
    | .gaveBack v => return .gaveBack v
    | .normal | .continued =>
      let _ ← evalOptional l.context l.step
      return .continued
  else return .normal

end Action

end Descramble
