import Descramble.Script.Reader.Token
import Descramble.Script.Tree

/-!
# Reading expressions

Each production is a reader over `Nested`, the readers for the parts that start further on in the
text. Binary operators are read level by level, the loosest first; a level is a chain of operands of
the next tighter one and groups to the left.
-/

namespace Descramble.Reader

/-- The readers for parts that start after at least one character of the whole, and a bound on how
    many parts can follow one another. -/
structure Nested where
  bound : Nat
  assignment : Reader Expr
  unary : Reader Expr
  construct : Reader Expr
  statement : Reader Stmt

/-- An operator between two operands. -/
inductive Infix where
  | logical (op : LogicalOp)
  | binary (op : BinaryOp)

namespace Infix

def combine : Infix → Expr → Expr → Expr
  | .logical op, left, right => .logical op left right
  | .binary op, left, right => .binary op left right

def text : Infix → String
  | .logical op => op.text
  | .binary op => op.text

/-- The characters that make a longer token of the operator when they follow it. -/
def longer : Infix → List Char
  | .logical _ => ['=']
  | .binary (.arithmetic op) =>
    match op with
    | .bitOr => ['|', '=']
    | .bitAnd => ['&', '=']
    | .shiftRight => ['>', '=']
    | .add => ['+', '=']
    | .sub => ['-', '=']
    | .bitXor | .shiftLeft | .shiftRightZero | .mul | .div | .rem => ['=']
  | .binary (.comparison op) =>
    match op with
    | .less => ['<']
    | .greater => ['>']
    | _ => []
  | .binary .hasKey | .binary .instanceOf => []

/-- Reads the operator's token. -/
def token : Infix → Reader Unit
  | .binary .hasKey => keyword "in"
  | .binary .instanceOf => keyword "instanceof"
  | op => operator op.text op.longer

end Infix

/-- The operators of one level of binding, in the order in which they are tried. -/
def infixLevel : Nat → List Infix
  | 4 => [.logical .or]
  | 5 => [.logical .and]
  | 6 => [.binary (.arithmetic .bitOr)]
  | 7 => [.binary (.arithmetic .bitXor)]
  | 8 => [.binary (.arithmetic .bitAnd)]
  | 9 => [.binary (.comparison .strict), .binary (.comparison .strictNot),
      .binary (.comparison .loose), .binary (.comparison .looseNot)]
  | 10 => [.binary (.comparison .lessEq), .binary (.comparison .greaterEq),
      .binary (.comparison .less), .binary (.comparison .greater), .binary .instanceOf,
      .binary .hasKey]
  | 11 => [.binary (.arithmetic .shiftRightZero), .binary (.arithmetic .shiftRight),
      .binary (.arithmetic .shiftLeft)]
  | 12 => [.binary (.arithmetic .add), .binary (.arithmetic .sub)]
  | 13 => [.binary (.arithmetic .mul), .binary (.arithmetic .div), .binary (.arithmetic .rem)]
  | _ => []

/-- The first of the operators that comes next, and the text after its token. -/
def firstInfix? : List Infix → List Char → Option (Infix × List Char)
  | [], _ => none
  | op :: ops, s =>
    match op.token s with
    | .ok (_, rest) => some (op, rest)
    | .error _ => firstInfix? ops s

/-- Goes on with a chain whose left part has been read. -/
def chainRest (ops : List Infix) (operand : Reader Expr) : Nat → Expr → Reader Expr
  | 0, left => Reader.pure left
  | bound + 1, left => fun s =>
    match firstInfix? ops s with
    | some (op, rest) =>
      match operand rest with
      | .ok (right, rest) => chainRest ops operand bound (op.combine left right) rest
      | .error e => .error e
    | none => .ok (left, s)

/-- Reads the `levels` tightest levels of operators over operands read by `operand`. -/
def chain (bound : Nat) (operand : Reader Expr) : Nat → Reader Expr
  | 0 => operand
  | levels + 1 => do
    let left ← chain bound operand levels
    chainRest (infixLevel (13 - levels)) (chain bound operand levels) bound left

def unaryOperator : Reader UnaryOp :=
  (do operator "!" ['=']; return .not) <|>
  (do operator "-" ['-', '=']; return .negate) <|>
  (do operator "+" ['+', '=']; return .plus) <|>
  (do operator "~" []; return .bitNot) <|>
  (do keyword "typeof"; return .typeOf) <|>
  (do keyword "void"; return .void) <|>
  (do keyword "delete"; return .delete)

def updateOperator : Reader UpdateOp :=
  (do symbol "++"; return .increment) <|>
  (do symbol "--"; return .decrement)

def assignmentOperator : Reader (Option Arithmetic) :=
  (do symbol ">>>="; return some .shiftRightZero) <|>
  (do symbol ">>="; return some .shiftRight) <|>
  (do symbol "<<="; return some .shiftLeft) <|>
  (do symbol "+="; return some .add) <|>
  (do symbol "-="; return some .sub) <|>
  (do symbol "*="; return some .mul) <|>
  (do symbol "/="; return some .div) <|>
  (do symbol "%="; return some .rem) <|>
  (do symbol "&="; return some .bitAnd) <|>
  (do symbol "|="; return some .bitOr) <|>
  (do symbol "^="; return some .bitXor) <|>
  (do operator "=" ['=', '>']; return none)

/-- Reads an optional comma before a closing bracket. -/
def trailingComma : Reader Unit := do
  let _ ← optional (symbol ",")

namespace Production

variable (nested : Nested)

/-- A block of statements in braces. -/
def block : Reader (List Stmt) := do
  symbol "\x7b"
  let body ← many nested.statement nested.bound
  symbol "\x7d"
  return body

/-- A list of names in parentheses. -/
def params : Reader (List Name) := do
  symbol "("
  let names ← sepBy (symbol ",") ident nested.bound
  symbol ")"
  return names

/-- The expressions of a list up to its closing bracket, which a comma may precede. -/
def items (closing : String) : Reader (List Expr) := do
  let items ← sepBy (symbol ",") nested.assignment nested.bound
  trailingComma
  symbol closing
  return items

def arguments : Reader (List Expr) := do
  symbol "("
  items nested ")"

/-- One expression, or several that commas join into a sequence. -/
def sequenced : List Expr → Expr
  | [e] => e
  | es => .sequence es

/-- A whole expression, over a reader for what stands between its commas. -/
def commaJoined (assignment : Reader Expr) : Reader Expr := do
  return sequenced (← sepBy1 (symbol ",") assignment nested.bound)

/-- A whole expression that starts further on. -/
def innerExpr : Reader Expr :=
  commaJoined nested nested.assignment

def propertyKey : Reader PropertyKey :=
  (do return .text (← string)) <|>
  (do return .number (← number)) <|>
  (do return .word (← anyWord))

def property : Reader Property := do
  let key ← propertyKey
  symbol ":"
  return ⟨key, ← nested.assignment⟩

def objectLiteral : Reader Expr := do
  symbol "\x7b"
  let properties ← sepBy (symbol ",") (property nested) nested.bound
  trailingComma
  symbol "\x7d"
  return .object properties

def arrayLiteral : Reader Expr := do
  symbol "["
  return .array (← items nested "]")

def functionExpression : Reader Expr := do
  keyword "function"
  let name ← optional ident
  let params ← params nested
  return .function name ⟨params, ← block nested⟩

def parenthesized : Reader Expr := do
  symbol "("
  let e ← innerExpr nested
  symbol ")"
  return e

/-- An expression that no operator can split. -/
def primary : Reader Expr :=
  (do return .literal (.number (← number))) <|>
  (do return .literal (.text (← string))) <|>
  (do keyword "true"; return .literal (.flag true)) <|>
  (do keyword "false"; return .literal (.flag false)) <|>
  (do keyword "null"; return .literal .null) <|>
  (do keyword "this"; return .this) <|>
  functionExpression nested <|>
  arrayLiteral nested <|>
  objectLiteral nested <|>
  parenthesized nested <|>
  (do return .ident (← ident))

/-- One access by name or by key, or one call where `calls` allows it, applied to what stands before
    it; `none` where no such thing comes next. -/
def suffix (calls : Bool) (e : Expr) : Reader (Option Expr) := do
  match ← lookFor (operator "." ['.']) with
  | some _ => return some (.member e (← anyWord))
  | none =>
    match ← lookFor (symbol "[") with
    | some _ =>
      let key ← innerExpr nested
      symbol "]"
      return some (.index e key)
    -- unlike the accesses, a call is settled by its bracket: an error inside it is not taken back
    | none => fun s =>
      if calls && s.head? == some '(' then
        (do return some (.call e (← arguments nested)) : Reader (Option Expr)) s
      else .ok (none, s)

/-- As many accesses and calls as follow. -/
def suffixes (calls : Bool) : Nat → Expr → Reader Expr
  | 0, e => Reader.pure e
  | bound + 1, e => do
    match ← suffix nested calls e with
    | some e => suffixes calls bound e
    | none => return e

/-- `new`, what it constructs, and arguments if there are any. -/
def construct : Reader Expr := do
  keyword "new"
  let target ← nested.construct <|> primary nested
  let callee ← suffixes nested false nested.bound target
  let args ← optional (arguments nested)
  return .construct callee (args.getD [])

/-- An operand with its accesses and calls. -/
def access : Reader Expr := do
  let e ← construct nested <|> primary nested
  suffixes nested true nested.bound e

/-- An operand with the operators in front of it and an update behind it. -/
def unary : Reader Expr := do
  match ← lookFor unaryOperator with
  | some op => return .unary op (← nested.unary)
  | none =>
    match ← lookFor updateOperator with
    | some op => return .update op true (← nested.unary)
    | none =>
      let e ← access nested
      match ← lookFor updateOperator with
      | some op => return .update op false e
      | none => return e

/-- A chain of all ten levels of operators, or a choice between two expressions. -/
def conditional : Reader Expr := do
  let test ← chain nested.bound (unary nested) 10
  match ← lookFor (symbol "?") with
  | some _ =>
    let yes ← nested.assignment
    symbol ":"
    return .conditional test yes (← nested.assignment)
  | none => return test

def arrow : Reader Expr := do
  let params ← (do return [← ident]) <|> params nested
  symbol "=>"
  let body ← (do return .block (← block nested)) <|> (do return .expr (← nested.assignment))
  return .arrow params body

/-- An expression without a comma at its top. What looks like an arrow function up to its end is
    one; anything else is an assignment or a chain of operators. -/
def assignment : Reader Expr := do
  match ← lookFor (arrow nested) with
  | some e => return e
  | none =>
    let target ← conditional nested
    fun s =>
      match assignmentOperator s with
      | .ok (op, rest) =>
        if target.isTarget then
          (do return .assign op target (← nested.assignment) : Reader Expr) rest
        else .error ⟨s, false⟩
      | .error _ => .ok (target, s)

/-- A whole expression. -/
def expr : Reader Expr :=
  commaJoined nested (assignment nested)

end Production

end Descramble.Reader
