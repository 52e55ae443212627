/-!
# Operators

The operators of the script language, each with its source text. Compound assignment applies the
arithmetic operators only, so these are a type of their own.
-/

namespace Descramble

/-- Operators on numbers, `+` also on strings. Each has a compound assignment. -/
inductive Arithmetic where
  | add | sub | mul | div | rem
  | shiftLeft | shiftRight | shiftRightZero
  | bitAnd | bitOr | bitXor
deriving DecidableEq

/-- Operators that compare two values. -/
inductive Comparison where
  | loose | looseNot | strict | strictNot
  | less | lessEq | greater | greaterEq
deriving DecidableEq

/-- Operators that evaluate both operands. -/
inductive BinaryOp where
  | arithmetic (op : Arithmetic)
  | comparison (op : Comparison)
  | hasKey
  | instanceOf
deriving DecidableEq

/-- Operators that may skip their right operand. -/
inductive LogicalOp where
  | and | or
deriving DecidableEq

inductive UnaryOp where
  | not | negate | plus | bitNot | typeOf | void | delete
deriving DecidableEq

inductive UpdateOp where
  | increment | decrement
deriving DecidableEq

/-- How a declaration introduces its names. -/
inductive DeclarationKind where
  | functionScoped | blockScoped | constant
deriving DecidableEq

def Arithmetic.text : Arithmetic → String
  | .add => "+"
  | .sub => "-"
  | .mul => "*"
  | .div => "/"
  | .rem => "%"
  | .shiftLeft => "<<"
  | .shiftRight => ">>"
  | .shiftRightZero => ">>>"
  | .bitAnd => "&"
  | .bitOr => "|"
  | .bitXor => "^"

def Comparison.text : Comparison → String
  | .loose => "=="
  | .looseNot => "!="
  | .strict => "==="
  | .strictNot => "!=="
  | .less => "<"
  | .lessEq => "<="
  | .greater => ">"
  | .greaterEq => ">="

def BinaryOp.text : BinaryOp → String
  | .arithmetic op => op.text
  | .comparison op => op.text
  | .hasKey => "in"
  | .instanceOf => "instanceof"

def LogicalOp.text : LogicalOp → String
  | .and => "&&"
  | .or => "||"

def UnaryOp.text : UnaryOp → String
  | .not => "!"
  | .negate => "-"
  | .plus => "+"
  | .bitNot => "~"
  | .typeOf => "typeof"
  | .void => "void"
  | .delete => "delete"

/-- Whether a unary operator is spelt as a word. -/
def UnaryOp.isWord : UnaryOp → Bool
  | .typeOf | .void | .delete => true
  | _ => false

def UpdateOp.text : UpdateOp → String
  | .increment => "++"
  | .decrement => "--"

def DeclarationKind.text : DeclarationKind → String
  | .functionScoped => "var"
  | .blockScoped => "let"
  | .constant => "const"

/-- The text of an assignment operator: plain, or compound with an arithmetic operator. -/
def assignmentText : Option Arithmetic → String
  | none => "="
  | some op => op.text ++ "="

/-- How tightly an arithmetic operator binds; higher is tighter. -/
def Arithmetic.binding : Arithmetic → Nat
  | .bitOr => 6
  | .bitXor => 7
  | .bitAnd => 8
  | .shiftLeft | .shiftRight | .shiftRightZero => 11
  | .add | .sub => 12
  | .mul | .div | .rem => 13

def Comparison.binding : Comparison → Nat
  | .loose | .looseNot | .strict | .strictNot => 9
  | .less | .lessEq | .greater | .greaterEq => 10

def BinaryOp.binding : BinaryOp → Nat
  | .arithmetic op => op.binding
  | .comparison op => op.binding
  | .hasKey | .instanceOf => 10

def LogicalOp.binding : LogicalOp → Nat
  | .or => 4
  | .and => 5

end Descramble
