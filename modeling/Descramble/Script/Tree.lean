import Descramble.Number.Basic
import Descramble.Script.Operator

/-!
# Syntax trees

The statements and expressions of a script. A member access by name and one by a computed key are
two kinds of expression, and a function statement always has its name, so the types admit no tree
in which these parts are missing.
-/

namespace Descramble

/-- A variable, function, parameter or property name. -/
abbrev Name := String

inductive Literal where
  | number (n : Number)
  | text (s : String)
  | flag (b : Bool)
  | null
deriving DecidableEq

/-- The key of a property in an object literal, as it was written. -/
inductive PropertyKey where
  | word (name : Name)
  | text (s : String)
  | number (n : Number)
deriving DecidableEq

mutual

inductive Expr where
  | ident (name : Name)
  | literal (value : Literal)
  | this
  | array (items : List Expr)
  | object (properties : List Property)
  | function (name : Option Name) (definition : Function)
  | arrow (params : List Name) (body : ArrowBody)
  | call (callee : Expr) (args : List Expr)
  | construct (callee : Expr) (args : List Expr)
  | member (object : Expr) (name : Name)
  | index (object : Expr) (key : Expr)
  | assign (op : Option Arithmetic) (target : Expr) (value : Expr)
  | logical (op : LogicalOp) (left : Expr) (right : Expr)
  | binary (op : BinaryOp) (left : Expr) (right : Expr)
  | unary (op : UnaryOp) (arg : Expr)
  | update (op : UpdateOp) (before : Bool) (arg : Expr)
  | conditional (test : Expr) (yes : Expr) (no : Expr)
  | sequence (items : List Expr)

structure Property where
  key : PropertyKey
  value : Expr

/-- The parameters and the body that every named or unnamed function has. -/
structure Function where
  params : List Name
  body : List Stmt

/-- An arrow function returns an expression or runs a block. -/
inductive ArrowBody where
  | expr (e : Expr)
  | block (body : List Stmt)

inductive Stmt where
  | expr (e : Expr)
  | declare (declaration : Declaration)
  | function (name : Name) (definition : Function)
  | giveBack (value : Option Expr)
  | ifElse (test : Expr) (yes : Stmt) (no : Option Stmt)
  | block (body : List Stmt)
  | forLoop (start : Option ForStart) (test : Option Expr) (step : Option Expr) (body : Stmt)
  | whileLoop (test : Expr) (body : Stmt)
  | switch (subject : Expr) (cases : List SwitchCase)
  | attempt (block : List Stmt) (handler : Option CatchClause) (finalizer : Option (List Stmt))
  | raise (value : Expr)
  | breakOut
  | continueLoop
  | empty

structure Declaration where
  kind : DeclarationKind
  declarators : List Declarator

structure Declarator where
  name : Name
  init : Option Expr

/-- What a `for` loop does first. -/
inductive ForStart where
  | declare (declaration : Declaration)
  | expr (e : Expr)

/-- One clause of a `switch`; the `default` clause has no test. -/
structure SwitchCase where
  test : Option Expr
  body : List Stmt

structure CatchClause where
  param : Option Name
  body : List Stmt

end

/-- A whole script. -/
structure Program where
  body : List Stmt

instance : Inhabited Expr := ⟨.this⟩

instance : Inhabited Stmt := ⟨.empty⟩

namespace Expr

def text (s : String) : Expr :=
  .literal (.text s)

def ident? : Expr → Option Name
  | .ident name => some name
  | _ => none

/-- Whether an expression can be assigned to. -/
def isTarget : Expr → Bool
  | .ident _ | .member _ _ | .index _ _ => true
  | _ => false

end Expr

end Descramble
