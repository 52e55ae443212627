import Descramble.Pattern.Node

/-!
# Renaming

A renaming replaces every name of a tree: variables, declared names, parameters and the names of
properties. Operators, literals and the shape of the tree stay as they are, so a renamed tree looks
the same as a node, except in the fields that hold a name.

Main statement: `Node.field_rename`, renaming commutes with looking into any other field.
-/

namespace Descramble

def PropertyKey.rename (r : Name → Name) : PropertyKey → PropertyKey
  | .word name => .word (r name)
  | .text s => .text s
  | .number n => .number n

mutual

/-- An expression with all its names replaced. -/
def Expr.rename (r : Name → Name) : Expr → Expr
  | .ident name => .ident (r name)
  -- what is written out in a script has no names in it
  | .literal value => .literal value
  | .this => .this
  | .array items => .array (Expr.renameAll r items)
  | .object properties => .object (Property.renameAll r properties)
  | .function name definition => .function (name.map r) (definition.rename r)
  | .arrow params body => .arrow (params.map r) (body.rename r)
  | .call callee args => .call (callee.rename r) (Expr.renameAll r args)
  | .construct callee args => .construct (callee.rename r) (Expr.renameAll r args)
  -- the name of a property is renamed as well, a computed key only inside
  | .member object name => .member (object.rename r) (r name)
  | .index object key => .index (object.rename r) (key.rename r)
  | .assign op target value => .assign op (target.rename r) (value.rename r)
  | .logical op left right => .logical op (left.rename r) (right.rename r)
  | .binary op left right => .binary op (left.rename r) (right.rename r)
  | .unary op arg => .unary op (arg.rename r)
  | .update op before arg => .update op before (arg.rename r)
  | .conditional test yes no => .conditional (test.rename r) (yes.rename r) (no.rename r)
  | .sequence items => .sequence (Expr.renameAll r items)

def Expr.renameAll (r : Name → Name) : List Expr → List Expr
  | [] => []
  | e :: es => e.rename r :: Expr.renameAll r es

def Expr.renameOption (r : Name → Name) : Option Expr → Option Expr
  | none => none
  | some e => some (e.rename r)

def Property.renameAll (r : Name → Name) : List Property → List Property
  | [] => []
  | ⟨key, value⟩ :: rest => ⟨key.rename r, value.rename r⟩ :: Property.renameAll r rest

def Function.rename (r : Name → Name) : Function → Function
  | ⟨params, body⟩ => ⟨params.map r, Stmt.renameAll r body⟩

def ArrowBody.rename (r : Name → Name) : ArrowBody → ArrowBody
  | .expr e => .expr (e.rename r)
  | .block body => .block (Stmt.renameAll r body)

/-- A statement with all its names replaced. -/
def Stmt.rename (r : Name → Name) : Stmt → Stmt
  | .expr e => .expr (e.rename r)
  | .declare d => .declare (d.rename r)
  | .function name definition => .function (r name) (definition.rename r)
  | .giveBack value => .giveBack (Expr.renameOption r value)
  | .ifElse test yes no => .ifElse (test.rename r) (yes.rename r) (Stmt.renameOption r no)
  | .block body => .block (Stmt.renameAll r body)
  | .forLoop start test step body =>
    .forLoop (ForStart.renameOption r start) (Expr.renameOption r test) (Expr.renameOption r step)
      (body.rename r)
  | .whileLoop test body => .whileLoop (test.rename r) (body.rename r)
  | .switch subject cases => .switch (subject.rename r) (SwitchCase.renameAll r cases)
  | .attempt block handler finalizer =>
    .attempt (Stmt.renameAll r block) (CatchClause.renameOption r handler)
      (Stmt.renameBlock r finalizer)
  | .raise value => .raise (value.rename r)
  | .breakOut => .breakOut
  | .continueLoop => .continueLoop
  | .empty => .empty

def Stmt.renameAll (r : Name → Name) : List Stmt → List Stmt
  | [] => []
  | s :: ss => s.rename r :: Stmt.renameAll r ss

def Stmt.renameOption (r : Name → Name) : Option Stmt → Option Stmt
  | none => none
  | some s => some (s.rename r)

def Stmt.renameBlock (r : Name → Name) : Option (List Stmt) → Option (List Stmt)
  | none => none
  | some body => some (Stmt.renameAll r body)

def Declaration.rename (r : Name → Name) : Declaration → Declaration
  | ⟨kind, declarators⟩ => ⟨kind, Declarator.renameAll r declarators⟩

def Declarator.renameAll (r : Name → Name) : List Declarator → List Declarator
  | [] => []
  | ⟨name, init⟩ :: rest => ⟨r name, Expr.renameOption r init⟩ :: Declarator.renameAll r rest

def ForStart.renameOption (r : Name → Name) : Option ForStart → Option ForStart
  | none => none
  | some (.declare d) => some (.declare (d.rename r))
  | some (.expr e) => some (.expr (e.rename r))

def SwitchCase.renameAll (r : Name → Name) : List SwitchCase → List SwitchCase
  | [] => []
  | ⟨test, body⟩ :: rest =>
    ⟨Expr.renameOption r test, Stmt.renameAll r body⟩ :: SwitchCase.renameAll r rest

def CatchClause.renameOption (r : Name → Name) : Option CatchClause → Option CatchClause
  | none => none
  | some ⟨param, body⟩ => some ⟨param.map r, Stmt.renameAll r body⟩

end

/-- A program with all its names replaced. -/
def Program.rename (r : Name → Name) (p : Program) : Program :=
  ⟨Stmt.renameAll r p.body⟩

def Property.rename (r : Name → Name) (p : Property) : Property :=
  ⟨p.key.rename r, p.value.rename r⟩

def Declarator.rename (r : Name → Name) (d : Declarator) : Declarator :=
  ⟨r d.name, Expr.renameOption r d.init⟩

def SwitchCase.rename (r : Name → Name) (c : SwitchCase) : SwitchCase :=
  ⟨Expr.renameOption r c.test, Stmt.renameAll r c.body⟩

def CatchClause.rename (r : Name → Name) (c : CatchClause) : CatchClause :=
  ⟨c.param.map r, Stmt.renameAll r c.body⟩

def ForStart.rename (r : Name → Name) : ForStart → ForStart
  | .declare d => .declare (d.rename r)
  | .expr e => .expr (e.rename r)

/-! ## Lists and missing parts -/

section Lists

variable (r : Name → Name)

/-- Renaming a list of expressions renames each of them. -/
theorem Expr.renameAll_eq_map (es : List Expr) : Expr.renameAll r es = es.map (Expr.rename r) := by
  induction es with
  | nil => rfl
  | cons e es ih => rw [Expr.renameAll, ih, List.map_cons]

/-- Renaming a list of statements renames each of them. -/
theorem Stmt.renameAll_eq_map (ss : List Stmt) : Stmt.renameAll r ss = ss.map (Stmt.rename r) := by
  induction ss with
  | nil => rfl
  | cons s ss ih => rw [Stmt.renameAll, ih, List.map_cons]

/-- Renaming the properties of an object renames each of them, key and value. -/
theorem Property.renameAll_eq_map (ps : List Property) :
    Property.renameAll r ps = ps.map (Property.rename r) := by
  -- the list is renamed by recursion, one property after the other
  induction ps with
  | nil => rfl
  | cons p ps ih =>
    obtain ⟨key, value⟩ := p
    rw [Property.renameAll, ih, List.map_cons]
    rfl

/-- Renaming the declarators of a declaration renames each of them. -/
theorem Declarator.renameAll_eq_map (ds : List Declarator) :
    Declarator.renameAll r ds = ds.map (Declarator.rename r) := by
  induction ds with
  | nil => rfl
  | cons d ds ih =>
    obtain ⟨name, init⟩ := d
    rw [Declarator.renameAll, ih, List.map_cons]
    rfl

/-- Renaming the cases of a `switch` renames each of them. -/
theorem SwitchCase.renameAll_eq_map (cs : List SwitchCase) :
    SwitchCase.renameAll r cs = cs.map (SwitchCase.rename r) := by
  induction cs with
  | nil => rfl
  | cons c cs ih =>
    obtain ⟨test, body⟩ := c
    rw [SwitchCase.renameAll, ih, List.map_cons]
    rfl

/-- An expression that may be missing is renamed where it is there. -/
theorem Expr.renameOption_eq_map (e : Option Expr) :
    Expr.renameOption r e = e.map (Expr.rename r) := by
  cases e <;> rfl

/-- A statement that may be missing is renamed where it is there. -/
theorem Stmt.renameOption_eq_map (s : Option Stmt) :
    Stmt.renameOption r s = s.map (Stmt.rename r) := by
  cases s <;> rfl

/-- A block that may be missing is renamed where it is there. -/
theorem Stmt.renameBlock_eq_map (body : Option (List Stmt)) :
    Stmt.renameBlock r body = body.map (Stmt.renameAll r) := by
  cases body <;> rfl

/-- What a loop begins with is renamed where it is there. -/
theorem ForStart.renameOption_eq_map (start : Option ForStart) :
    ForStart.renameOption r start = start.map (ForStart.rename r) := by
  rcases start with _ | d | e <;> rfl

/-- A handler is renamed where it is there. -/
theorem CatchClause.renameOption_eq_map (c : Option CatchClause) :
    CatchClause.renameOption r c = c.map (CatchClause.rename r) := by
  rcases c with _ | ⟨param, body⟩ <;> rfl

/-- A renamed function has the renamed parameters. -/
@[simp] theorem Function.params_rename (f : Function) : (f.rename r).params = f.params.map r := by
  cases f
  rfl

/-- A renamed function has the renamed statements. -/
theorem Function.body_rename (f : Function) :
    (f.rename r).body = f.body.map (Stmt.rename r) := by
  obtain ⟨params, body⟩ := f
  exact Stmt.renameAll_eq_map r body

/-- A renamed declaration has the renamed declarators. -/
theorem Declaration.declarators_rename (d : Declaration) :
    (d.rename r).declarators = d.declarators.map (Declarator.rename r) := by
  obtain ⟨kind, declarators⟩ := d
  exact Declarator.renameAll_eq_map r declarators

/-- A renamed program has the renamed statements, in their order. -/
theorem Program.body_rename (p : Program) : (p.rename r).body = p.body.map (Stmt.rename r) :=
  Stmt.renameAll_eq_map r p.body

end Lists

/-! ## Nodes -/

namespace Node

mutual

/-- A node of the renamed tree. A primitive stays as it is. -/
def rename (r : Name → Name) : Node → Node
  | .stmt s => .stmt (s.rename r)
  | .expr e => .expr (e.rename r)
  | .declaration d => .declaration (d.rename r)
  | .declarator d => .declarator (d.rename r)
  | .catchClause c => .catchClause (c.rename r)
  | .switchCase c => .switchCase (c.rename r)
  | .property p => .property (p.rename r)
  | .binding name => .binding (r name)
  | .list items => .list (renameAll r items)
  | .text s => .text s
  | .number n => .number n
  | .flag b => .flag b
  | .null => .null
  | .absent => .absent

def renameAll (r : Name → Name) : List Node → List Node
  | [] => []
  | n :: ns => n.rename r :: renameAll r ns

end

variable (r : Name → Name)

/-- Renaming a list of nodes renames each of them. -/
theorem renameAll_eq_map (ns : List Node) : renameAll r ns = ns.map (rename r) := by
  induction ns with
  | nil => rfl
  | cons n ns ih => rw [renameAll, ih, List.map_cons]

/-- The nodes of a renamed list, for a kind of node whose renaming is that of what it holds. -/
theorem rename_list {α : Type} (node : α → Node) (f : α → α)
    (h : ∀ a, (node a).rename r = node (f a)) (as : List α) :
    (Node.list (as.map node)).rename r = .list ((as.map f).map node) := by
  -- both sides go through the list once, and agree at each item
  rw [rename, renameAll_eq_map, List.map_map, List.map_map]
  exact congrArg Node.list (List.map_congr_left fun a _ => h a)

/-- The same for a node that may be missing. -/
theorem rename_ofOption {α : Type} (node : α → Node) (f : α → α)
    (h : ∀ a, (node a).rename r = node (f a)) (a : Option α) :
    (ofOption node a).rename r = ofOption node (a.map f) := by
  cases a with
  | none => rfl
  | some a => exact h a

/-- The nodes of renamed expressions are the renamed nodes. -/
theorem rename_exprs (es : List Expr) :
    (Node.list (es.map .expr)).rename r = .list ((Expr.renameAll r es).map .expr) := by
  rw [Expr.renameAll_eq_map]
  exact rename_list r .expr (Expr.rename r) (fun _ => rfl) es

/-- The nodes of renamed statements are the renamed nodes. -/
theorem rename_stmts (ss : List Stmt) :
    (Node.list (ss.map .stmt)).rename r = .list ((Stmt.renameAll r ss).map .stmt) := by
  rw [Stmt.renameAll_eq_map]
  exact rename_list r .stmt (Stmt.rename r) (fun _ => rfl) ss

/-- The nodes of renamed names are the renamed nodes. -/
theorem rename_bindings (names : List Name) :
    (Node.list (names.map .binding)).rename r = .list ((names.map r).map .binding) :=
  rename_list r .binding r (fun _ => rfl) names

/-- The node of a renamed expression that may be missing is the renamed node. -/
theorem rename_optionalExpr (e : Option Expr) :
    (ofOption Node.expr e).rename r = ofOption .expr (Expr.renameOption r e) := by
  rw [Expr.renameOption_eq_map]
  exact rename_ofOption r .expr (Expr.rename r) (fun _ => rfl) e

/-- Renaming leaves the kind of a node as it is. -/
@[simp] theorem kind?_rename (n : Node) : (n.rename r).kind? = n.kind? := by
  cases n with
  -- the kind of a statement or of an expression is computed from what it is
  | stmt s => cases s <;> rfl
  | expr e => cases e <;> rfl
  | _ => rfl

/-- Nothing appears or disappears by renaming. -/
@[simp] theorem isAbsent_rename (n : Node) : (n.rename r).isAbsent = n.isAbsent := by
  cases n <;> rfl

/-- Renaming leaves primitives as they are, so comparing with a literal sees no difference. -/
@[simp] theorem equalsLiteral_rename (n : Node) (value : Literal) :
    (n.rename r).equalsLiteral value = n.equalsLiteral value := by
  cases n <;> rfl

/-- A list stays a list, of the renamed nodes. -/
@[simp] theorem items?_rename (n : Node) : (n.rename r).items? = n.items?.map (renameAll r) := by
  cases n <;> rfl

/-! ### Fields -/

/-- The fields of a renamed declaration are the renamed fields. -/
theorem ofDeclaration_rename (d : Declaration) (f : NodeField) :
    ofDeclaration (d.rename r) f = (ofDeclaration d f).rename r := by
  obtain ⟨kind, declarators⟩ := d
  cases f with
  | declarations =>
    rw [Declaration.rename, Declarator.renameAll_eq_map]
    exact (rename_list r .declarator (Declarator.rename r) (fun _ => rfl) declarators).symm
  | _ => rfl

/-- The fields of a renamed function are the renamed fields. -/
theorem ofFunction_rename (name : Option Name) (definition : Function) (f : NodeField) :
    ofFunction (name.map r) (definition.rename r) f = (ofFunction name definition f).rename r := by
  obtain ⟨params, body⟩ := definition
  -- only three fields of a function hold nodes
  cases f with
  | id => exact (rename_ofOption r .binding r (fun _ => rfl) name).symm
  | params => exact (rename_bindings r params).symm
  | body => exact (rename_stmts r body).symm
  | _ => rfl

/-- The fields of a renamed operation are the renamed fields; its operator is a text and stays. -/
theorem ofOperation_rename (operator : String) (left right : Expr) (f : NodeField) :
    ofOperation operator (left.rename r) (right.rename r) f =
      (ofOperation operator left right f).rename r := by
  cases f <;> rfl

/-- The fields of a renamed access are the renamed fields. -/
theorem ofMember_rename (object property : Expr) (computed : Bool) (f : NodeField) :
    ofMember (object.rename r) (property.rename r) computed f =
      (ofMember object property computed f).rename r := by
  cases f <;> rfl

/-- The fields of a renamed statement are the renamed fields. -/
theorem stmtField_rename (s : Stmt) (f : NodeField) :
    stmtField (s.rename r) f = (stmtField s f).rename r := by
  -- field by field; a field that the statement does not have is absent on both sides
  cases s with
  | declare d => exact ofDeclaration_rename r d f
  | function name definition => exact ofFunction_rename r (some name) definition f
  | giveBack value =>
    cases f with
    | argument => exact (rename_optionalExpr r value).symm
    | _ => rfl
  | ifElse test yes no =>
    cases f with
    | alternate =>
      rw [Stmt.rename, Stmt.renameOption_eq_map]
      exact (rename_ofOption r .stmt (Stmt.rename r) (fun _ => rfl) no).symm
    | _ => rfl
  | block body =>
    cases f with
    | body => exact (rename_stmts r body).symm
    | _ => rfl
  | forLoop start test step body =>
    cases f with
    | init =>
      rw [Stmt.rename, ForStart.renameOption_eq_map]
      -- a declaration or an expression, each with nodes of its own
      have hstart (start : ForStart) : (ofForStart start).rename r = ofForStart (start.rename r) := by
        cases start <;> rfl
      exact (rename_ofOption r ofForStart (ForStart.rename r) hstart start).symm
    | test => exact (rename_optionalExpr r test).symm
    | update => exact (rename_optionalExpr r step).symm
    | _ => rfl
  | switch subject cases =>
    cases f with
    | cases =>
      rw [Stmt.rename, SwitchCase.renameAll_eq_map]
      exact (rename_list r .switchCase (SwitchCase.rename r) (fun _ => rfl) cases).symm
    | _ => rfl
  | attempt block handler finalizer =>
    cases f with
    | block => exact (rename_stmts r block).symm
    | handler =>
      rw [Stmt.rename, CatchClause.renameOption_eq_map]
      exact (rename_ofOption r .catchClause (CatchClause.rename r) (fun _ => rfl) handler).symm
    | finalizer =>
      rw [Stmt.rename, Stmt.renameBlock_eq_map]
      exact (rename_ofOption r _ (Stmt.renameAll r) (rename_stmts r) finalizer).symm
    | _ => rfl
  -- what has neither a list nor a missing part in a field computes to the same node on both sides
  | _ => cases f <;> rfl

/-- The fields of a renamed expression are the renamed fields, but for the name of an identifier:
    the field is a text, which renaming the node leaves as it is. -/
theorem exprField_rename (e : Expr) {f : NodeField} (hf : f ≠ .name) :
    exprField (e.rename r) f = (exprField e f).rename r := by
  cases e with
  -- a name itself is the one field that is not renamed along
  | ident name =>
    cases f with
    | name => exact absurd rfl hf
    | _ => rfl
  | literal value => cases f <;> cases value <;> rfl
  | array items =>
    cases f with
    | elements => exact (rename_exprs r items).symm
    | _ => rfl
  | object properties =>
    cases f with
    | properties =>
      rw [Expr.rename, Property.renameAll_eq_map]
      exact (rename_list r .property (Property.rename r) (fun _ => rfl) properties).symm
    | _ => rfl
  | function name definition => exact ofFunction_rename r name definition f
  | arrow params body =>
    cases f with
    | params => exact (rename_bindings r params).symm
    | body =>
      cases body with
      | expr e => rfl
      | block body => exact (rename_stmts r body).symm
    | _ => rfl
  | call callee args =>
    cases f with
    | arguments => exact (rename_exprs r args).symm
    | _ => rfl
  | construct callee args =>
    cases f with
    | arguments => exact (rename_exprs r args).symm
    | _ => rfl
  -- a name after a point is a node of its own, an identifier, and is renamed as one
  | member object name => exact ofMember_rename r object (.ident name) false f
  | index object key => exact ofMember_rename r object key true f
  | assign op target value => exact ofOperation_rename r _ target value f
  | logical op left right => exact ofOperation_rename r _ left right f
  | binary op left right => exact ofOperation_rename r _ left right f
  | sequence items =>
    cases f with
    | expressions => exact (rename_exprs r items).symm
    | _ => rfl
  | _ => cases f <;> rfl

/-- A renamed tree has the renamed nodes in its fields, except for a name itself. -/
theorem field_rename (n : Node) {f : NodeField} (hf : f ≠ .name) :
    (n.rename r).field f = (n.field f).rename r := by
  cases n with
  | stmt s => exact stmtField_rename r s f
  | expr e => exact exprField_rename r e hf
  | declaration d => exact ofDeclaration_rename r d f
  | declarator d =>
    cases f with
    | init => exact (rename_optionalExpr r d.init).symm
    | _ => rfl
  | catchClause c =>
    cases f with
    | param => exact (rename_ofOption r .binding r (fun _ => rfl) c.param).symm
    | body => exact (rename_stmts r c.body).symm
    | _ => rfl
  | switchCase c =>
    cases f with
    | test => exact (rename_optionalExpr r c.test).symm
    | consequent => exact (rename_stmts r c.body).symm
    | _ => rfl
  -- a key is a name, a text or a number, and only a name is renamed
  | property p =>
    cases f with
    | key =>
      obtain ⟨key, value⟩ := p
      cases key <;> rfl
    | _ => rfl
  | binding name =>
    cases f with
    | name => exact absurd rfl hf
    | _ => rfl
  | _ => cases f <;> rfl

end Node

end Descramble
