import Descramble.Number.Text
import Descramble.Text.Quoted
import Descramble.Script.Tree

/-!
# The text of a tree

A tree is written with two blanks of indentation per block and one blank around operators.
Parentheses stand only where they are needed: around an operand that binds more loosely than its
place asks for, at the start of an expression statement that would otherwise read as a block or a
function statement, and in the few places where two tokens or two readings would run together.
-/

namespace Descramble

namespace Expr

/-- How tightly an expression holds together; higher is tighter. -/
def binding : Expr → Nat
  | .sequence _ => 1
  | .assign _ _ _ | .arrow _ _ => 2
  | .conditional _ _ _ => 3
  | .logical op _ _ => op.binding
  | .binary op _ _ => op.binding
  | .unary _ _ | .update _ true _ => 14
  | .update _ false _ => 15
  | .call _ _ | .construct _ _ | .member _ _ | .index _ _ => 17
  | .ident _ | .literal _ | .this | .array _ | .object _ | .function _ _ => 18

mutual

/-- Whether the text of an expression starts with `function` or `{`. -/
def startsAmbiguously : Expr → Bool
  | .function _ _ | .object _ => true
  | .call callee _ => callee.startsAmbiguously
  | .member target _ | .index target _ => target.startsAmbiguously
  | .assign _ left _ | .logical _ left _ | .binary _ left _ => left.startsAmbiguously
  | .conditional test _ _ => test.startsAmbiguously
  | .update _ false arg => arg.startsAmbiguously
  | .sequence items => firstStartsAmbiguously items
  | _ => false

/-- The same for the first expression of a list. -/
def firstStartsAmbiguously : List Expr → Bool
  | [] => false
  | e :: _ => e.startsAmbiguously

end

/-- Whether an expression is a call. -/
def isCall : Expr → Bool
  | .call _ _ => true
  | _ => false

/-- Whether an expression is a number literal. -/
def isNumber : Expr → Bool
  | .literal (.number _) => true
  | _ => false

/-- Whether an expression is an object literal. -/
def isObject : Expr → Bool
  | .object _ => true
  | _ => false

end Expr

/-- Whether a statement is an `if` without an `else`. -/
def Stmt.isOpenIf : Stmt → Bool
  | .ifElse _ _ none => true
  | _ => false

def Literal.toText : Literal → String
  | .number n => n.toText
  | .text s => Quoted.encode s
  | .flag b => if b then "true" else "false"
  | .null => "null"

def PropertyKey.toText : PropertyKey → String
  | .word name => name
  | .text s => Quoted.encode s
  | .number n => n.toText

namespace Printer

def parenthesized (text : String) : String :=
  "(" ++ text ++ ")"

/-- Puts parentheses around a text that binds more loosely than `least`. -/
def atLeast (least binding : Nat) (text : String) : String :=
  if binding < least then parenthesized text else text

def indentation (depth : Nat) : String :=
  String.ofList (List.replicate (2 * depth) ' ')

/-- One line for each text, indented. -/
def indentedLines (depth : Nat) : List String → String
  | [] => ""
  | text :: rest => indentation depth ++ text ++ "\n" ++ indentedLines depth rest

/-- A block around the texts of its statements, which are already laid out one level deeper. -/
def braced (depth : Nat) (texts : List String) : String :=
  if texts.isEmpty then "\x7b\x7d"
  else "\x7b\n" ++ indentedLines (depth + 1) texts ++ indentation depth ++ "\x7d"

def parameterList (params : List Name) : String :=
  parenthesized (commaSeparated params)

def functionHead (name : Option Name) (params : List Name) : String :=
  "function" ++ (match name with | some name => " " ++ name | none => "") ++
    parameterList params ++ " "

/-- A unary operator before its operand. A word needs a blank, and so does a sign before a text that
    starts with the same sign. -/
def unaryText (op : UnaryOp) (arg : String) : String :=
  if op.isWord || op.text.toList.isPrefixOf arg.toList then op.text ++ " " ++ arg
  else op.text ++ arg

/-- The text of a place that may be empty, after a blank. -/
def afterBlank : Option String → String
  | some text => " " ++ text
  | none => ""

mutual

/-- The text of an expression without parentheses around it, in a block at `depth`. -/
def expr (depth : Nat) : Expr → String
  | .ident name => name
  | .literal value => value.toText
  | .this => "this"
  | .array items => "[" ++ commaSeparated (exprs depth items) ++ "]"
  | .object properties => "\x7b" ++ commaSeparated (propertyTexts depth properties) ++ "\x7d"
  | .function name definition =>
    functionHead name definition.params ++ functionBlock depth definition
  | .arrow params body =>
    (match params with
      | [param] => param
      | _ => parameterList params) ++ " => " ++ arrowBody depth body
  | .call callee args =>
    atLeast 17 callee.binding (expr depth callee) ++
      parenthesized (commaSeparated (exprs depth args))
  | .construct callee args =>
    let target :=
      if callee.isCall then parenthesized (expr depth callee)
      else atLeast 17 callee.binding (expr depth callee)
    "new " ++ target ++ parenthesized (commaSeparated (exprs depth args))
  | .member object name =>
    let target :=
      if object.isNumber then parenthesized (expr depth object)
      else atLeast 17 object.binding (expr depth object)
    target ++ "." ++ name
  | .index object key =>
    let target :=
      if object.isNumber then parenthesized (expr depth object)
      else atLeast 17 object.binding (expr depth object)
    target ++ "[" ++ expr depth key ++ "]"
  | .assign op target value =>
    atLeast 17 target.binding (expr depth target) ++ " " ++ assignmentText op ++ " " ++
      atLeast 2 value.binding (expr depth value)
  | .logical op left right =>
    atLeast op.binding left.binding (expr depth left) ++ " " ++ op.text ++ " " ++
      atLeast (op.binding + 1) right.binding (expr depth right)
  | .binary op left right =>
    atLeast op.binding left.binding (expr depth left) ++ " " ++ op.text ++ " " ++
      atLeast (op.binding + 1) right.binding (expr depth right)
  | .unary op arg => unaryText op (atLeast 14 arg.binding (expr depth arg))
  | .update op true arg => op.text ++ atLeast 14 arg.binding (expr depth arg)
  | .update op false arg => atLeast 17 arg.binding (expr depth arg) ++ op.text
  | .conditional test yes no =>
    atLeast 4 test.binding (expr depth test) ++ " ? " ++
      atLeast 2 yes.binding (expr depth yes) ++ " : " ++
      atLeast 2 no.binding (expr depth no)
  | .sequence items => commaSeparated (exprs depth items)

/-- The texts of the items of a list, where a sequence needs parentheses. -/
def exprs (depth : Nat) : List Expr → List String
  | [] => []
  | e :: es => atLeast 2 e.binding (expr depth e) :: exprs depth es

def propertyTexts (depth : Nat) : List Property → List String
  | [] => []
  | ⟨key, value⟩ :: rest =>
    (key.toText ++ ": " ++ atLeast 2 value.binding (expr depth value)) :: propertyTexts depth rest

def functionBlock (depth : Nat) : Function → String
  | ⟨_, body⟩ => braced depth (stmts (depth + 1) body)

def arrowBody (depth : Nat) : ArrowBody → String
  | .expr e =>
    if e.isObject then parenthesized (expr depth e) else atLeast 2 e.binding (expr depth e)
  | .block body => braced depth (stmts (depth + 1) body)

/-- The text of a statement in a block at `depth`, without the indentation of its first line. -/
def stmt (depth : Nat) : Stmt → String
  | .expr e =>
    (if e.startsAmbiguously then parenthesized (expr depth e) else expr depth e) ++ ";"
  | .declare declaration => declarationText depth declaration ++ ";"
  | .function name definition =>
    functionHead (some name) definition.params ++ functionBlock depth definition
  | .giveBack value => "return" ++ afterBlank (optionalExpr depth value) ++ ";"
  | .ifElse test yes none => "if (" ++ expr depth test ++ ") " ++ stmt depth yes
  | .ifElse test yes (some no) =>
    "if (" ++ expr depth test ++ ") " ++
      (if yes.isOpenIf then braced depth [stmt (depth + 1) yes] else stmt depth yes) ++
      " else " ++ stmt depth no
  | .block body => braced depth (stmts (depth + 1) body)
  | .forLoop start test step body =>
    "for (" ++ forStart depth start ++ ";" ++ afterBlank (optionalExpr depth test) ++ ";" ++
      afterBlank (optionalExpr depth step) ++ ") " ++ stmt depth body
  | .whileLoop test body => "while (" ++ expr depth test ++ ") " ++ stmt depth body
  | .switch subject cases =>
    "switch (" ++ expr depth subject ++ ") \x7b\n" ++ switchCases (depth + 1) cases ++
      indentation depth ++ "\x7d"
  | .attempt block handler finalizer =>
    "try " ++ braced depth (stmts (depth + 1) block) ++ catchText depth handler ++
      finallyText depth finalizer
  | .raise value => "throw " ++ expr depth value ++ ";"
  | .breakOut => "break;"
  | .continueLoop => "continue;"
  | .empty => ";"

def stmts (depth : Nat) : List Stmt → List String
  | [] => []
  | s :: ss => stmt depth s :: stmts depth ss

def optionalExpr (depth : Nat) : Option Expr → Option String
  | some e => some (expr depth e)
  | none => none

def declarationText (depth : Nat) : Declaration → String
  | ⟨kind, declarators⟩ =>
    kind.text ++ " " ++ commaSeparated (declaratorTexts depth declarators)

def declaratorTexts (depth : Nat) : List Declarator → List String
  | [] => []
  | ⟨name, none⟩ :: rest => name :: declaratorTexts depth rest
  | ⟨name, some init⟩ :: rest =>
    (name ++ " = " ++ atLeast 2 init.binding (expr depth init)) :: declaratorTexts depth rest

def forStart (depth : Nat) : Option ForStart → String
  | none => ""
  | some (.declare declaration) => declarationText depth declaration
  | some (.expr e) => expr depth e

def switchCases (depth : Nat) : List SwitchCase → String
  | [] => ""
  | ⟨none, body⟩ :: rest =>
    indentation depth ++ "default:\n" ++ indentedLines (depth + 1) (stmts (depth + 1) body) ++
      switchCases depth rest
  | ⟨some test, body⟩ :: rest =>
    indentation depth ++ "case " ++ expr depth test ++ ":\n" ++
      indentedLines (depth + 1) (stmts (depth + 1) body) ++ switchCases depth rest

def catchText (depth : Nat) : Option CatchClause → String
  | none => ""
  | some ⟨none, body⟩ => " catch " ++ braced depth (stmts (depth + 1) body)
  | some ⟨some param, body⟩ =>
    " catch (" ++ param ++ ") " ++ braced depth (stmts (depth + 1) body)

def finallyText (depth : Nat) : Option (List Stmt) → String
  | none => ""
  | some body => " finally " ++ braced depth (stmts (depth + 1) body)

end

end Printer

/-- The text of an expression on its own. -/
def Expr.toText (e : Expr) : String :=
  Printer.expr 0 e

/-- The text of a program, a line or more for each statement. -/
def Program.toText (p : Program) : String :=
  Printer.indentedLines 0 (Printer.stmts 0 p.body)

end Descramble
