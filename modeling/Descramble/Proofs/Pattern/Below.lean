import Descramble.Pattern.Node
import Descramble.Proofs.Script.WellFormed

/-!
# What stands below a node

The fields of a node and the items of a list are smaller than it, so what is said of a node can be
said by recursion on what stands below it. In a tree that was read from a text, every number below
a node can be written as a numeral.

Main statements: `Node.size_field_lt`, `Node.HasNumerals.field`.
-/

namespace Descramble

/-! ## Sizes -/

namespace Node

mutual

/-- How large what a node shows is as a term. The node itself adds nothing, and primitives are
    smaller than all else. -/
noncomputable def size : Node → Nat
  | .stmt s => sizeOf s
  | .expr e => sizeOf e
  | .declaration d => sizeOf d
  | .declarator d => sizeOf d
  | .catchClause c => sizeOf c
  | .switchCase c => sizeOf c
  | .property p => sizeOf p
  | .binding name => sizeOf name
  | .list items => sizeAll items
  | .text _ | .number _ | .flag _ | .null | .absent => 0

noncomputable def sizeAll : List Node → Nat
  | [] => 1
  | n :: ns => 1 + n.size + sizeAll ns

end

/-- A node that shows a part of the tree is as large as the part. -/
@[simp] theorem size_stmt (s : Stmt) : (Node.stmt s).size = sizeOf s := (rfl)

@[simp] theorem size_expr (e : Expr) : (Node.expr e).size = sizeOf e := (rfl)

@[simp] theorem size_declaration (d : Declaration) : (Node.declaration d).size = sizeOf d := (rfl)

@[simp] theorem size_declarator (d : Declarator) : (Node.declarator d).size = sizeOf d := (rfl)

@[simp] theorem size_catchClause (c : CatchClause) : (Node.catchClause c).size = sizeOf c := (rfl)

@[simp] theorem size_switchCase (c : SwitchCase) : (Node.switchCase c).size = sizeOf c := (rfl)

@[simp] theorem size_property (p : Property) : (Node.property p).size = sizeOf p := (rfl)

@[simp] theorem size_binding (name : Name) : (Node.binding name).size = sizeOf name := (rfl)

/-- A list of nodes is larger than its items, also where they are primitives. -/
theorem size_list (ns : List Node) : (Node.list ns).size = sizeAll ns := (rfl)

@[simp] theorem sizeAll_nil : sizeAll [] = 1 := (rfl)

/-- Every item adds one to what a list shows, as it does to the size of a list in the tree. -/
@[simp] theorem sizeAll_cons (n : Node) (ns : List Node) :
    sizeAll (n :: ns) = 1 + n.size + sizeAll ns := (rfl)

/-- Primitives add nothing, so a text in a field is smaller than any node. -/
@[simp] theorem size_text (s : String) : (Node.text s).size = 0 := (rfl)

@[simp] theorem size_number (x : Number) : (Node.number x).size = 0 := (rfl)

@[simp] theorem size_flag (b : Bool) : (Node.flag b).size = 0 := (rfl)

@[simp] theorem size_null : Node.null.size = 0 := (rfl)

@[simp] theorem size_absent : Node.absent.size = 0 := (rfl)

section Sizes

variable {α : Type} [SizeOf α] {node : α → Node}

/-- A list that shows the items of a list in the tree is as large as that list. -/
@[simp] theorem size_map (h : ∀ a, (node a).size = sizeOf a) (as : List α) :
    (Node.list (as.map node)).size = sizeOf as := by
  rw [size_list]
  -- both sides grow by one and by the size of the item
  induction as with
  | nil => simp
  | cons a as ih => simp [h, ih]

/-- What may be missing is shown as smaller than the option that holds it. -/
theorem size_ofOption_lt (h : ∀ a, (node a).size = sizeOf a) (a : Option α) :
    (ofOption node a).size < sizeOf a := by
  -- what is missing is shown as nothing at all
  cases a with
  | none => simp [ofOption]
  | some a => simp [ofOption, h]

end Sizes

/-- The items of a list are smaller than the list. -/
theorem size_lt_of_mem_items {n : Node} {items : List Node} (h : n ∈ items) :
    n.size < (Node.list items).size := by
  rw [size_list]
  induction items with
  | nil => cases h
  | cons m items ih =>
    rw [sizeAll_cons]
    -- either the first item, or smaller than what is left of the list
    rcases List.mem_cons.mp h with rfl | h
    · omega
    · have := ih h
      omega

/-- The value of a literal is shown as a primitive. -/
theorem size_ofLiteral (value : Literal) : (ofLiteral value).size = 0 := by
  cases value <;> simp [ofLiteral]

/-- The key of a property is shown as smaller than the key itself. -/
theorem size_ofKey_lt (key : PropertyKey) : (ofKey key).size < sizeOf key := by
  cases key <;> grind [ofKey, size_binding, size_text, size_number]

/-- What a `for` loop begins with is shown as smaller than the field that holds it. -/
theorem size_ofForStart_lt (start : Option ForStart) :
    (ofOption ofForStart start).size < sizeOf start := by
  -- nothing, a declaration or an expression
  cases start with
  | none => simp [ofOption]
  | some start => cases start <;> grind [ofOption, ofForStart, size_declaration, size_expr]

/-- The body of an arrow function is shown as smaller than itself, block or expression. -/
theorem size_ofArrowBody_lt (body : ArrowBody) : (ofArrowBody body).size < sizeOf body := by
  cases body <;> simp [ofArrowBody]

/-- The fields of a declaration are smaller than the declaration. -/
theorem size_ofDeclaration_lt (d : Declaration) :
    ∀ f ∈ fieldsOfKind .variableDeclaration, (ofDeclaration d f).size < sizeOf d := by
  cases d with
  | mk kind declarators =>
    have hlist : (Node.list (declarators.map .declarator)).size = sizeOf declarators :=
      size_map size_declarator _
    grind [fieldsOfKind, ofDeclaration, size_text]

/-- The fields of a function are smaller than its name and its definition together. -/
theorem size_ofFunction_lt (name : Option Name) (definition : Function) :
    ∀ f ∈ fieldsOfKind .functionExpression,
      (ofFunction name definition f).size < sizeOf name + sizeOf definition := by
  have hname := size_ofOption_lt size_binding name
  -- name, parameters and statements are the three fields that hold nodes
  cases definition with
  | mk params body =>
    have hparams : (Node.list (params.map .binding)).size = sizeOf params := size_map size_binding _
    have hbody : (Node.list (body.map .stmt)).size = sizeOf body := size_map size_stmt _
    grind [fieldsOfKind, ofFunction]

/-- The fields of a statement are smaller than the statement. -/
theorem size_stmtField_lt (s : Stmt) :
    ∀ f ∈ fieldsOfKind (kindOfStmt s), (stmtField s f).size < sizeOf s := by
  have hexpr := size_ofOption_lt size_expr
  have hstmt := size_ofOption_lt size_stmt
  have hclause := size_ofOption_lt size_catchClause
  have hblock := size_ofOption_lt (size_map size_stmt)
  -- declarations and functions keep their fields in a record of their own
  cases s with
  | declare d =>
    intro f hf
    have := size_ofDeclaration_lt d f hf
    simp only [stmtField, Stmt.declare.sizeOf_spec]
    omega
  | function name d =>
    intro f hf
    have := size_ofFunction_lt (some name) d f hf
    simp only [stmtField, Stmt.function.sizeOf_spec, Option.some.sizeOf_spec] at this ⊢
    omega
  | _ =>
    simp [kindOfStmt, fieldsOfKind, stmtField] <;> grind [size_absent, size_ofForStart_lt]

/-- The fields of an expression are smaller than the expression. -/
theorem size_exprField_lt (e : Expr) :
    ∀ f ∈ fieldsOfKind (kindOfExpr e), (exprField e f).size < sizeOf e := by
  cases e with
  | function name d =>
    intro f hf
    have := size_ofFunction_lt name d f hf
    simp only [exprField, Expr.function.sizeOf_spec] at this ⊢
    omega
  | member object name =>
    -- The name is a node of its own, as large as the whole but for what it is accessed on.
    have hpos : 0 < sizeOf object := by cases object <;> grind
    grind [kindOfExpr, fieldsOfKind, exprField, ofMember, size_expr, size_flag]
  | _ =>
    simp [kindOfExpr, fieldsOfKind, exprField, ofMember, ofOperation] <;>
      grind [size_ofLiteral, size_ofArrowBody_lt]

/-- What stands in a field of a node is smaller than the node. -/
theorem size_field_lt {n : Node} : ∀ f ∈ n.fields, (n.field f).size < n.size := by
  have hexpr := size_ofOption_lt size_expr
  have hbinding := size_ofOption_lt size_binding
  -- statements and expressions by their own lemmas, any other node field by field
  cases n with
  | stmt s =>
    rw [size_stmt]
    exact size_stmtField_lt s
  | expr e =>
    rw [size_expr]
    exact size_exprField_lt e
  | declaration d =>
    rw [size_declaration]
    exact size_ofDeclaration_lt d
  | declarator d =>
    cases d
    grind [fields, kind?, fieldsOfKind, field, size_declarator, size_binding]
  | catchClause c =>
    cases c
    grind [fields, kind?, fieldsOfKind, field, size_catchClause, size_map, size_stmt]
  | switchCase c =>
    cases c
    grind [fields, kind?, fieldsOfKind, field, size_switchCase, size_map, size_stmt]
  | property p =>
    cases p
    grind [fields, kind?, fieldsOfKind, field, size_property, size_expr, size_ofKey_lt]
  | binding name =>
    cases name
    grind [fields, kind?, fieldsOfKind, field, size_binding, size_text]
  | _ => nofun

end Node

/-! ## Numbers

Names after a dot can be reserved words, so what lies below a well-formed part need not be
well-formed itself. Its numbers are numerals all the same. -/

namespace Part

/-- Whether the numbers that a part itself holds are numerals. -/
def HasNumerals : Part → Prop
  | .expr (.literal value) => ∀ x, value = .number x → x.IsNumeral
  | .expr (.object properties) =>
    ∀ property ∈ properties, ∀ x, property.key = .number x → x.IsNumeral
  | _ => True

/-- The numbers of a well-formed part are numerals, as literals and as keys. -/
theorem WellFormed.hasNumerals {part : Part} (h : part.WellFormed) : part.HasNumerals := by
  unfold HasNumerals
  -- only literals and the keys of an object hold numbers
  split
  · rintro x rfl
    exact h
  · intro property hmem x hkey
    have := h property hmem
    rwa [hkey] at this
  · trivial

end Part

namespace Node

mutual

/-- Whether the numbers at a node and below it are numerals. -/
def HasNumerals : Node → Prop
  | .stmt s => Part.Everywhere Part.HasNumerals (.stmt s)
  | .expr e => Part.Everywhere Part.HasNumerals (.expr e)
  | .declaration d => ∀ part ∈ d.inner, Part.Everywhere Part.HasNumerals part
  | .declarator d => ∀ e ∈ d.init, Part.Everywhere Part.HasNumerals (.expr e)
  | .catchClause c => ∀ part ∈ c.inner, Part.Everywhere Part.HasNumerals part
  | .switchCase c => ∀ part ∈ c.inner, Part.Everywhere Part.HasNumerals part
  | .property p =>
    (∀ x, p.key = .number x → x.IsNumeral) ∧ Part.Everywhere Part.HasNumerals (.expr p.value)
  | .list items => AllHaveNumerals items
  | .number x => x.IsNumeral
  | .binding _ | .text _ | .flag _ | .null | .absent => True

def AllHaveNumerals : List Node → Prop
  | [] => True
  | n :: ns => n.HasNumerals ∧ AllHaveNumerals ns

end

/-- Of a statement, the numbers are those of all its parts. -/
@[simp] theorem hasNumerals_stmt {s : Stmt} :
    (Node.stmt s).HasNumerals ↔ Part.Everywhere Part.HasNumerals (.stmt s) :=
  (Iff.rfl)

/-- Of an expression, the numbers are those of all its parts. -/
@[simp] theorem hasNumerals_expr {e : Expr} :
    (Node.expr e).HasNumerals ↔ Part.Everywhere Part.HasNumerals (.expr e) :=
  (Iff.rfl)

/-- Of a declaration, the numbers are those of its initializers. -/
theorem hasNumerals_declaration {d : Declaration} :
    (Node.declaration d).HasNumerals ↔ ∀ part ∈ d.inner, Part.Everywhere Part.HasNumerals part :=
  (Iff.rfl)

/-- Of one declared name, the numbers are those of its initializer. -/
theorem hasNumerals_declarator {d : Declarator} :
    (Node.declarator d).HasNumerals ↔
      ∀ e ∈ d.init, Part.Everywhere Part.HasNumerals (.expr e) :=
  (Iff.rfl)

/-- Of a handler, the numbers are those of its statements. -/
theorem hasNumerals_catchClause {c : CatchClause} :
    (Node.catchClause c).HasNumerals ↔ ∀ part ∈ c.inner, Part.Everywhere Part.HasNumerals part :=
  (Iff.rfl)

/-- Of a case, the numbers are those of its test and of its statements. -/
theorem hasNumerals_switchCase {c : SwitchCase} :
    (Node.switchCase c).HasNumerals ↔ ∀ part ∈ c.inner, Part.Everywhere Part.HasNumerals part :=
  (Iff.rfl)

/-- A property can hold a number as its key, besides those of its value. -/
theorem hasNumerals_property {p : Property} :
    (Node.property p).HasNumerals ↔
      (∀ x, p.key = .number x → x.IsNumeral) ∧
        Part.Everywhere Part.HasNumerals (.expr p.value) :=
  (Iff.rfl)

/-- A number on its own has to be a numeral. -/
theorem hasNumerals_number {x : Number} : (Node.number x).HasNumerals ↔ x.IsNumeral :=
  (Iff.rfl)

/-- Names, texts, flags and what is missing hold no numbers. -/
@[simp] theorem hasNumerals_binding (name : Name) : (Node.binding name).HasNumerals :=
  trivial

@[simp] theorem hasNumerals_text (s : String) : (Node.text s).HasNumerals :=
  trivial

@[simp] theorem hasNumerals_flag (b : Bool) : (Node.flag b).HasNumerals :=
  trivial

@[simp] theorem hasNumerals_null : Node.null.HasNumerals :=
  trivial

@[simp] theorem hasNumerals_absent : Node.absent.HasNumerals :=
  trivial

/-- The recursion along a list says the same of every item. -/
theorem allHaveNumerals_iff {ns : List Node} : AllHaveNumerals ns ↔ ∀ n ∈ ns, n.HasNumerals := by
  -- along the list, item by item
  induction ns with
  | nil => exact ⟨fun _ _ => nofun, fun _ => trivial⟩
  | cons n ns ih =>
    rw [List.forall_mem_cons, ← ih]
    exact .rfl

/-- A list has numerals where every item has. -/
theorem hasNumerals_list {ns : List Node} :
    (Node.list ns).HasNumerals ↔ ∀ n ∈ ns, n.HasNumerals :=
  allHaveNumerals_iff

/-- A list that shows the items of a list in the tree has numerals where each of them has. -/
@[simp] theorem hasNumerals_map {α : Type} {node : α → Node} {as : List α} :
    (Node.list (as.map node)).HasNumerals ↔ ∀ a ∈ as, (node a).HasNumerals := by
  simp [hasNumerals_list]

/-- What may be missing has numerals where it has them when it is there. -/
@[simp] theorem hasNumerals_ofOption {α : Type} {node : α → Node} {a : Option α} :
    (ofOption node a).HasNumerals ↔ ∀ x ∈ a, (node x).HasNumerals := by
  cases a <;> simp [ofOption]

/-- A name has no numbers, also when it is the name of a member, which can be a reserved word. -/
theorem hasNumerals_ident (name : Name) :
    Part.Everywhere Part.HasNumerals (.expr (.ident name)) :=
  .intro trivial (by simp [Part.inner, Expr.inner])

/-- The fields of a declaration have numerals if its initializers have. -/
theorem hasNumerals_ofDeclaration {d : Declaration}
    (h : ∀ part ∈ d.inner, Part.Everywhere Part.HasNumerals part) :
    ∀ f ∈ fieldsOfKind .variableDeclaration, (ofDeclaration d f).HasNumerals := by
  -- kind and declarators are its fields, and only the second can hold a number
  have hall : ∀ declarator ∈ d.declarators, (Node.declarator declarator).HasNumerals := by
    intro declarator hmem
    refine hasNumerals_declarator.mpr fun e he => ?_
    exact h (.expr e) (List.mem_map_of_mem (List.mem_filterMap.mpr ⟨declarator, hmem, he⟩))
  simpa [fieldsOfKind, ofDeclaration] using hall

/-- The fields of a function have numerals if its statements have. -/
theorem hasNumerals_ofFunction {name : Option Name} {definition : Function}
    (h : ∀ part ∈ definition.inner, Part.Everywhere Part.HasNumerals part) :
    ∀ f ∈ fieldsOfKind .functionExpression, (ofFunction name definition f).HasNumerals := by
  simpa [fieldsOfKind, ofFunction, Function.inner] using h

/-- What a `for` loop begins with has numerals if its parts have. -/
theorem hasNumerals_ofForStart {start : ForStart}
    (h : ∀ part ∈ start.inner, Part.Everywhere Part.HasNumerals part) :
    (ofForStart start).HasNumerals := by
  cases start with
  | declare d => exact hasNumerals_declaration.mpr h
  | expr e => simpa [ofForStart, ForStart.inner] using h

/-- The body of an arrow function has numerals if its parts have. -/
theorem hasNumerals_ofArrowBody {body : ArrowBody}
    (h : ∀ part ∈ body.inner, Part.Everywhere Part.HasNumerals part) :
    (ofArrowBody body).HasNumerals := by
  cases body <;> simpa [ofArrowBody, ArrowBody.inner] using h

/-- The value of a literal has numerals if it is no number or a numeral. -/
theorem hasNumerals_ofLiteral {value : Literal} (h : ∀ x, value = .number x → x.IsNumeral) :
    (ofLiteral value).HasNumerals := by
  -- only a number can fail to be a numeral
  cases value with
  | number x => exact hasNumerals_number.mpr (h x rfl)
  | _ => simp [ofLiteral]

/-- A key has numerals if it is no number or a numeral. -/
theorem hasNumerals_ofKey {key : PropertyKey} (h : ∀ x, key = .number x → x.IsNumeral) :
    (ofKey key).HasNumerals := by
  cases key with
  | number x => exact hasNumerals_number.mpr (h x rfl)
  | _ => simp [ofKey]

/-- The fields of a statement have numerals if all its parts have. -/
theorem hasNumerals_stmtField {s : Stmt} (h : Part.Everywhere Part.HasNumerals (.stmt s)) :
    ∀ f ∈ fieldsOfKind (kindOfStmt s), (stmtField s f).HasNumerals := by
  -- what holds everywhere holds of the parts right inside, which is what the fields show
  have hin : ∀ part ∈ s.inner, Part.Everywhere Part.HasNumerals part := fun _ hmem => h.inside hmem
  cases s with
  | declare d => exact hasNumerals_ofDeclaration hin
  | function name definition => exact hasNumerals_ofFunction hin
  -- where some fields may be missing, each is shown to be among the parts inside
  | forLoop start test step body =>
    have hstart : ∀ a ∈ start, (ofForStart a).HasNumerals := by
      rintro a rfl
      exact hasNumerals_ofForStart fun part hpart => hin part (by simp [Stmt.inner, hpart])
    have htest : ∀ e ∈ test, (Node.expr e).HasNumerals := by
      rintro e rfl
      exact hasNumerals_expr.mpr (hin (.expr e) (by simp [Stmt.inner]))
    have hstep : ∀ e ∈ step, (Node.expr e).HasNumerals := by
      rintro e rfl
      exact hasNumerals_expr.mpr (hin (.expr e) (by simp [Stmt.inner]))
    have hbody := hin (.stmt body) (by simp [Stmt.inner])
    simpa [kindOfStmt, fieldsOfKind, stmtField] using ⟨hstart, htest, hstep, hbody⟩
  | switch subject cases =>
    have hcases : ∀ c ∈ cases, (switchCase c).HasNumerals := by
      intro c hc
      refine hasNumerals_switchCase.mpr fun part hpart => ?_
      exact hin part (List.mem_cons_of_mem _ (List.mem_flatMap.mpr ⟨c, hc, hpart⟩))
    simpa [kindOfStmt, fieldsOfKind, stmtField] using ⟨hin _ List.mem_cons_self, hcases⟩
  | attempt block handler finalizer =>
    have hblock : ∀ s ∈ block, (Node.stmt s).HasNumerals := by
      intro s hs
      exact hasNumerals_stmt.mpr (hin (.stmt s) (by simp [Stmt.inner, hs]))
    have hhandler : ∀ c ∈ handler, (catchClause c).HasNumerals := by
      rintro c rfl
      refine hasNumerals_catchClause.mpr fun part hpart => hin part ?_
      simp [Stmt.inner, hpart]
    have hfinalizer : ∀ body ∈ finalizer, ∀ s ∈ body, (Node.stmt s).HasNumerals := by
      rintro body rfl s hs
      exact hasNumerals_stmt.mpr (hin (.stmt s) (by simp [Stmt.inner, hs]))
    simpa [kindOfStmt, fieldsOfKind, stmtField] using ⟨hblock, hhandler, hfinalizer⟩
  | breakOut | continueLoop | empty =>
    intro f hf
    cases hf
  | _ => simpa [kindOfStmt, fieldsOfKind, stmtField, Stmt.inner] using hin

/-- The fields of an expression have numerals if all its parts have. -/
theorem hasNumerals_exprField {e : Expr} (h : Part.Everywhere Part.HasNumerals (.expr e)) :
    ∀ f ∈ fieldsOfKind (kindOfExpr e), (exprField e f).HasNumerals := by
  -- as for statements, by the parts right inside
  have hin : ∀ part ∈ e.inner, Part.Everywhere Part.HasNumerals part := fun _ hmem => h.inside hmem
  cases e with
  | ident name => simp [kindOfExpr, fieldsOfKind, exprField]
  | this =>
    intro f hf
    cases hf
  -- literals and objects hold numbers of their own, which the part itself speaks for
  | literal value =>
    simpa [kindOfExpr, fieldsOfKind, exprField] using hasNumerals_ofLiteral h.here
  | object properties =>
    have hall : ∀ p ∈ properties, (property p).HasNumerals := by
      intro p hp
      exact hasNumerals_property.mpr ⟨h.here p hp, hin _ (List.mem_map_of_mem hp)⟩
    simpa [kindOfExpr, fieldsOfKind, exprField] using hall
  | function name definition => exact hasNumerals_ofFunction hin
  | arrow params body =>
    simpa [kindOfExpr, fieldsOfKind, exprField] using hasNumerals_ofArrowBody hin
  -- the name after a dot is shown as a node, which is no part of the tree
  | member object name =>
    have hobject := hin (.expr object) (List.mem_singleton_self _)
    simpa [kindOfExpr, fieldsOfKind, exprField, ofMember] using ⟨hobject, hasNumerals_ident name⟩
  | _ => simpa [kindOfExpr, fieldsOfKind, exprField, ofMember, ofOperation, Expr.inner] using hin

/-- What stands below a node has numerals if the node has. -/
theorem HasNumerals.field {n : Node} (h : n.HasNumerals) :
    ∀ f ∈ n.fields, (n.field f).HasNumerals := by
  -- statements and expressions by their own lemmas, each other node by its few fields
  cases n with
  | stmt s => exact hasNumerals_stmtField (hasNumerals_stmt.mp h)
  | expr e => exact hasNumerals_exprField (hasNumerals_expr.mp h)
  | declaration d => exact hasNumerals_ofDeclaration (hasNumerals_declaration.mp h)
  | declarator d =>
    simpa [fields, kind?, fieldsOfKind, Node.field] using hasNumerals_declarator.mp h
  | catchClause c =>
    simpa [fields, kind?, fieldsOfKind, Node.field, CatchClause.inner] using
      hasNumerals_catchClause.mp h
  | switchCase c =>
    rw [hasNumerals_switchCase] at h
    have htest : ∀ e ∈ c.test, (Node.expr e).HasNumerals := by
      intro e he
      exact hasNumerals_expr.mpr (h (.expr e) (by simp_all [SwitchCase.inner]))
    have hbody : ∀ s ∈ c.body, (Node.stmt s).HasNumerals := by
      intro s hs
      exact hasNumerals_stmt.mpr (h (.stmt s) (by simp [SwitchCase.inner, hs]))
    simpa [fields, kind?, fieldsOfKind, Node.field] using ⟨htest, hbody⟩
  | property p =>
    rw [hasNumerals_property] at h
    simpa [fields, kind?, fieldsOfKind, Node.field] using ⟨hasNumerals_ofKey h.1, h.2⟩
  | binding name => simp [fields, kind?, fieldsOfKind, Node.field]
  | _ => nofun

end Node

end Descramble
