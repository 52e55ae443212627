import Descramble.Script.Reader.Expression

/-!
# Reading statements

The kinds of statement are tried in a fixed order: a block before an expression, so that a brace
opens a block, and words with a fixed meaning before expressions.
-/

namespace Descramble.Reader

/-- The end of a statement: a semicolon, or nothing before a closing brace or the end of the
    text. -/
def statementEnd : Reader Unit := fun s =>
  match s with
  | [] => .ok ((), [])
  | '\x7d' :: _ => .ok ((), s)
  | _ => symbol ";" s

namespace Production

variable (nested : Nested)

def declarationKind : Reader DeclarationKind :=
  (do keyword "var"; return .functionScoped) <|>
  (do keyword "let"; return .blockScoped) <|>
  (do keyword "const"; return .constant)

def declarator : Reader Declarator := do
  let name ← ident
  return ⟨name, ← optional (do operator "=" ['=', '>']; nested.assignment)⟩

def declaration : Reader Declaration := do
  let kind ← declarationKind
  return ⟨kind, ← sepBy1 (symbol ",") (declarator nested) nested.bound⟩

def declarationStatement : Reader Stmt := do
  let declaration ← declaration nested
  statementEnd
  return .declare declaration

def functionStatement : Reader Stmt := do
  keyword "function"
  let name ← ident
  let params ← params nested
  return .function name ⟨params, ← block nested⟩

def returnStatement : Reader Stmt := do
  keyword "return"
  let value ← optional (innerExpr nested)
  statementEnd
  return .giveBack value

def ifStatement : Reader Stmt := do
  keyword "if"
  let test ← parenthesized nested
  let yes ← nested.statement
  return .ifElse test yes (← optional (do keyword "else"; nested.statement))

def forStart : Reader ForStart :=
  (do return .declare (← declaration nested)) <|> (do return .expr (← innerExpr nested))

def forStatement : Reader Stmt := do
  keyword "for"
  symbol "("
  let start ← optional (forStart nested)
  symbol ";"
  let test ← optional (innerExpr nested)
  symbol ";"
  let step ← optional (innerExpr nested)
  symbol ")"
  return .forLoop start test step (← nested.statement)

def whileStatement : Reader Stmt := do
  keyword "while"
  let test ← parenthesized nested
  return .whileLoop test (← nested.statement)

def caseTest : Reader (Option Expr) :=
  (do
    keyword "case"
    let test ← innerExpr nested
    symbol ":"
    return some test) <|>
  (do
    keyword "default"
    symbol ":"
    return none)

def switchCase : Reader SwitchCase := do
  let test ← caseTest nested
  return ⟨test, ← many nested.statement nested.bound⟩

def switchStatement : Reader Stmt := do
  keyword "switch"
  let subject ← parenthesized nested
  symbol "\x7b"
  let cases ← many (switchCase nested) nested.bound
  symbol "\x7d"
  return .switch subject cases

def catchParam : Reader Name := do
  symbol "("
  let name ← ident
  symbol ")"
  return name

def catchClause : Reader CatchClause := do
  keyword "catch"
  let param ← optional catchParam
  return ⟨param, ← block nested⟩

/-- A `try` needs a handler or a finalizer. -/
def attemptStatement : Reader Stmt := fun s =>
  (do
    keyword "try"
    let body ← block nested
    let handler ← optional (catchClause nested)
    let finalizer ← optional (do keyword "finally"; block nested)
    if handler.isNone && finalizer.isNone then fun _ => .error ⟨s, false⟩
    else return .attempt body handler finalizer : Reader Stmt) s

def raiseStatement : Reader Stmt := do
  keyword "throw"
  let value ← innerExpr nested
  statementEnd
  return .raise value

def expressionStatement : Reader Stmt := do
  let e ← expr nested
  statementEnd
  return .expr e

def statement : Reader Stmt :=
  (do return .block (← block nested)) <|>
  declarationStatement nested <|>
  functionStatement nested <|>
  returnStatement nested <|>
  ifStatement nested <|>
  forStatement nested <|>
  whileStatement nested <|>
  switchStatement nested <|>
  attemptStatement nested <|>
  raiseStatement nested <|>
  (do keyword "break"; statementEnd; return .breakOut) <|>
  (do keyword "continue"; statementEnd; return .continueLoop) <|>
  (do symbol ";"; return .empty) <|>
  expressionStatement nested

end Production

end Descramble.Reader
