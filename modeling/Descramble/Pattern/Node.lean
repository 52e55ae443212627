import Descramble.Script.Tree

/-!
# Nodes

A uniform view of a tree for patterns: every position is a node with a kind and named fields, a list
of nodes, or a primitive. Fields that a tree leaves out are `absent`. The kinds and fields are those
of the usual interchange format for script trees.
-/

namespace Descramble

inductive NodeKind where
  | expressionStatement
  | variableDeclaration
  | variableDeclarator
  | functionDeclaration
  | returnStatement
  | ifStatement
  | blockStatement
  | forStatement
  | whileStatement
  | switchStatement
  | switchCase
  | tryStatement
  | catchClause
  | throwStatement
  | breakStatement
  | continueStatement
  | emptyStatement
  | identifier
  | literal
  | thisExpression
  | arrayExpression
  | objectExpression
  | property
  | functionExpression
  | arrowFunctionExpression
  | callExpression
  | newExpression
  | memberExpression
  | assignmentExpression
  | logicalExpression
  | binaryExpression
  | unaryExpression
  | updateExpression
  | conditionalExpression
  | sequenceExpression
deriving DecidableEq

inductive NodeField where
  | alternate
  | argument
  | arguments
  | block
  | body
  | callee
  | cases
  | computed
  | consequent
  | declarations
  | discriminant
  | elements
  | expression
  | expressions
  | finalizer
  | handler
  | id
  | init
  | key
  | kind
  | left
  | name
  | object
  | operator
  | optional
  | param
  | params
  | beforeOperand
  | properties
  | property
  | right
  | test
  | update
  | value
deriving DecidableEq

/-- One position in a tree. A `binding` is a name where it is introduced or used as a key. -/
inductive Node where
  | stmt (s : Stmt)
  | expr (e : Expr)
  | declaration (d : Declaration)
  | declarator (d : Declarator)
  | catchClause (c : CatchClause)
  | switchCase (c : SwitchCase)
  | property (p : Property)
  | binding (name : Name)
  | list (items : List Node)
  | text (s : String)
  | number (n : Number)
  | flag (b : Bool)
  | null
  | absent

namespace Node

def ofOption {α : Type} (node : α → Node) : Option α → Node
  | some a => node a
  | none => .absent

def ofLiteral : Literal → Node
  | .number n => .number n
  | .text s => .text s
  | .flag b => .flag b
  | .null => .null

def ofForStart : ForStart → Node
  | .declare d => .declaration d
  | .expr e => .expr e

def ofArrowBody : ArrowBody → Node
  | .expr e => .expr e
  | .block body => .list (body.map .stmt)

def ofKey : PropertyKey → Node
  | .word name => .binding name
  | .text s => .text s
  | .number n => .number n

def kindOfStmt : Stmt → NodeKind
  | .expr _ => .expressionStatement
  | .declare _ => .variableDeclaration
  | .function _ _ => .functionDeclaration
  | .giveBack _ => .returnStatement
  | .ifElse _ _ _ => .ifStatement
  | .block _ => .blockStatement
  | .forLoop _ _ _ _ => .forStatement
  | .whileLoop _ _ => .whileStatement
  | .switch _ _ => .switchStatement
  | .attempt _ _ _ => .tryStatement
  | .raise _ => .throwStatement
  | .breakOut => .breakStatement
  | .continueLoop => .continueStatement
  | .empty => .emptyStatement

def kindOfExpr : Expr → NodeKind
  | .ident _ => .identifier
  | .literal _ => .literal
  | .this => .thisExpression
  | .array _ => .arrayExpression
  | .object _ => .objectExpression
  | .function _ _ => .functionExpression
  | .arrow _ _ => .arrowFunctionExpression
  | .call _ _ => .callExpression
  | .construct _ _ => .newExpression
  | .member _ _ | .index _ _ => .memberExpression
  | .assign _ _ _ => .assignmentExpression
  | .logical _ _ _ => .logicalExpression
  | .binary _ _ _ => .binaryExpression
  | .unary _ _ => .unaryExpression
  | .update _ _ _ => .updateExpression
  | .conditional _ _ _ => .conditionalExpression
  | .sequence _ => .sequenceExpression

/-- The kind of a node; lists, primitives and absent fields have none. -/
def kind? : Node → Option NodeKind
  | .stmt s => some (kindOfStmt s)
  | .expr e => some (kindOfExpr e)
  | .declaration _ => some .variableDeclaration
  | .declarator _ => some .variableDeclarator
  | .catchClause _ => some .catchClause
  | .switchCase _ => some .switchCase
  | .property _ => some .property
  | .binding _ => some .identifier
  | _ => none

def isAbsent : Node → Bool
  | .absent => true
  | _ => false

/-- The fields that a kind of node has, in source order. -/
def fieldsOfKind : NodeKind → List NodeField
  | .expressionStatement => [.expression]
  | .variableDeclaration => [.kind, .declarations]
  | .variableDeclarator => [.id, .init]
  | .functionDeclaration | .functionExpression => [.id, .params, .body]
  | .returnStatement | .throwStatement => [.argument]
  | .ifStatement | .conditionalExpression => [.test, .consequent, .alternate]
  | .blockStatement => [.body]
  | .forStatement => [.init, .test, .update, .body]
  | .whileStatement => [.test, .body]
  | .switchStatement => [.discriminant, .cases]
  | .switchCase => [.test, .consequent]
  | .tryStatement => [.block, .handler, .finalizer]
  | .catchClause => [.param, .body]
  | .breakStatement | .continueStatement | .emptyStatement | .thisExpression => []
  | .identifier => [.name]
  | .literal => [.value]
  | .arrayExpression => [.elements]
  | .objectExpression => [.properties]
  | .property => [.key, .value]
  | .arrowFunctionExpression => [.params, .body]
  | .callExpression => [.callee, .arguments, .optional]
  | .newExpression => [.callee, .arguments]
  | .memberExpression => [.object, .property, .computed, .optional]
  | .assignmentExpression | .logicalExpression | .binaryExpression => [.operator, .left, .right]
  | .unaryExpression | .updateExpression => [.operator, .beforeOperand, .argument]
  | .sequenceExpression => [.expressions]

def ofDeclaration (d : Declaration) : NodeField → Node
  | .kind => .text d.kind.text
  | .declarations => .list (d.declarators.map .declarator)
  | _ => .absent

def ofFunction (name : Option Name) (f : Function) : NodeField → Node
  | .id => ofOption .binding name
  | .params => .list (f.params.map .binding)
  | .body => .list (f.body.map .stmt)
  | _ => .absent

def ofOperation (operator : String) (left right : Expr) : NodeField → Node
  | .operator => .text operator
  | .left => .expr left
  | .right => .expr right
  | _ => .absent

def ofMember (object property : Expr) (computed : Bool) : NodeField → Node
  | .object => .expr object
  | .property => .expr property
  | .computed => .flag computed
  | .optional => .flag false
  | _ => .absent

def stmtField : Stmt → NodeField → Node
  | .expr e, .expression => .expr e
  | .declare d, field => ofDeclaration d field
  | .function name f, field => ofFunction (some name) f field
  | .giveBack value, .argument => ofOption .expr value
  | .raise value, .argument => .expr value
  | .ifElse test _ _, .test => .expr test
  | .ifElse _ yes _, .consequent => .stmt yes
  | .ifElse _ _ no, .alternate => ofOption .stmt no
  | .block body, .body => .list (body.map .stmt)
  | .forLoop start _ _ _, .init => ofOption ofForStart start
  | .forLoop _ test _ _, .test => ofOption .expr test
  | .forLoop _ _ step _, .update => ofOption .expr step
  | .forLoop _ _ _ body, .body => .stmt body
  | .whileLoop test _, .test => .expr test
  | .whileLoop _ body, .body => .stmt body
  | .switch subject _, .discriminant => .expr subject
  | .switch _ cases, .cases => .list (cases.map .switchCase)
  | .attempt block _ _, .block => .list (block.map .stmt)
  | .attempt _ handler _, .handler => ofOption .catchClause handler
  | .attempt _ _ finalizer, .finalizer => ofOption (fun body => .list (body.map .stmt)) finalizer
  | _, _ => .absent

def exprField : Expr → NodeField → Node
  | .ident name, .name => .text name
  | .literal value, .value => ofLiteral value
  | .array items, .elements => .list (items.map .expr)
  | .object properties, .properties => .list (properties.map .property)
  | .function name f, field => ofFunction name f field
  | .arrow params _, .params => .list (params.map .binding)
  | .arrow _ body, .body => ofArrowBody body
  | .call callee _, .callee | .construct callee _, .callee => .expr callee
  | .call _ args, .arguments | .construct _ args, .arguments => .list (args.map .expr)
  | .call _ _, .optional => .flag false
  | .member object name, field => ofMember object (.ident name) false field
  | .index object key, field => ofMember object key true field
  | .assign op left right, field => ofOperation (assignmentText op) left right field
  | .logical op left right, field => ofOperation op.text left right field
  | .binary op left right, field => ofOperation op.text left right field
  | .unary op _, .operator => .text op.text
  | .unary _ _, .beforeOperand => .flag true
  | .unary _ arg, .argument => .expr arg
  | .update op _ _, .operator => .text op.text
  | .update _ before _, .beforeOperand => .flag before
  | .update _ _ arg, .argument => .expr arg
  | .conditional test _ _, .test => .expr test
  | .conditional _ yes _, .consequent => .expr yes
  | .conditional _ _ no, .alternate => .expr no
  | .sequence items, .expressions => .list (items.map .expr)
  | _, _ => .absent

/-- What stands in a field, `absent` where the node has no such field. -/
def field : Node → NodeField → Node
  | .stmt s, f => stmtField s f
  | .expr e, f => exprField e f
  | .declaration d, f => ofDeclaration d f
  | .declarator d, .id => .binding d.name
  | .declarator d, .init => ofOption .expr d.init
  | .catchClause c, .param => ofOption .binding c.param
  | .catchClause c, .body => .list (c.body.map .stmt)
  | .switchCase c, .test => ofOption .expr c.test
  | .switchCase c, .consequent => .list (c.body.map .stmt)
  | .property p, .key => ofKey p.key
  | .property p, .value => .expr p.value
  | .binding name, .name => .text name
  | _, _ => .absent

/-- The fields that a node has, in source order. -/
def fields (n : Node) : List NodeField :=
  match n.kind? with
  | some kind => fieldsOfKind kind
  | none => []

/-- The items of a list. -/
def items? : Node → Option (List Node)
  | .list items => some items
  | _ => none

/-- The nodes directly below a node: the items of a list, otherwise what stands in its fields. -/
def children (n : Node) : List Node :=
  match n.items? with
  | some items => items
  | none => n.fields.map n.field

/-- Whether a primitive has the value of a literal. `null` also stands for an absent field. -/
def equalsLiteral : Node → Literal → Bool
  | .text s, .text t => s == t
  | .number n, .number m => n.equals m
  | .flag a, .flag b => a == b
  | .null, .null => true
  | .absent, .null => true
  | _, _ => false

end Node

end Descramble
