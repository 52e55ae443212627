import Descramble.Pattern.Basic
import Descramble.Proofs.Number.Whole
import Descramble.Proofs.Pattern.Below
import Descramble.Proofs.Printer.RoundTrip

/-!
# The portrait of a tree

The portrait of a node is the pattern that spells out all that a pattern can see of it. Among the
trees that were read from texts it accepts the node itself and no other: two trees that differ show
it in some field, and no part of a tree is out of sight.

Main statement: `Part.Read.accepts_portrait_iff`.
-/

namespace Descramble

/-! ## Texts of operators -/

/-- Two operations that are written the same are the same. -/
@[simp] theorem Arithmetic.text_inj {op op' : Arithmetic} : op.text = op'.text ↔ op = op' := by
  cases op <;> cases op' <;> decide

/-- Two comparisons that are written the same are the same. -/
@[simp] theorem Comparison.text_inj {op op' : Comparison} : op.text = op'.text ↔ op = op' := by
  cases op <;> cases op' <;> decide

/-- No operation is written like a comparison. -/
theorem Arithmetic.text_ne_comparison (op : Arithmetic) (op' : Comparison) :
    op.text ≠ op'.text := by
  cases op <;> cases op' <;> decide

/-- The four kinds of binary operators share no text. -/
@[simp] theorem BinaryOp.text_inj {op op' : BinaryOp} : op.text = op'.text ↔ op = op' := by
  -- kind against kind, since the texts of one kind are compared by its own lemma
  cases op with
  | arithmetic op =>
    cases op' with
    | arithmetic op' => simp [text]
    | comparison op' => simpa [text] using op.text_ne_comparison op'
    | hasKey | instanceOf => cases op <;> decide
  | comparison op =>
    cases op' with
    | arithmetic op' => simpa [text] using (op'.text_ne_comparison op).symm
    | comparison op' => simp [text]
    | hasKey | instanceOf => cases op <;> decide
  | hasKey | instanceOf =>
    cases op' with
    | arithmetic op' | comparison op' => cases op' <;> decide
    | hasKey | instanceOf => decide

/-- Logical operators are told apart by their texts. -/
@[simp] theorem LogicalOp.text_inj {op op' : LogicalOp} : op.text = op'.text ↔ op = op' := by
  cases op <;> cases op' <;> decide

/-- Unary operators are told apart by their texts. -/
@[simp] theorem UnaryOp.text_inj {op op' : UnaryOp} : op.text = op'.text ↔ op = op' := by
  cases op <;> cases op' <;> decide

/-- Counting up and counting down are told apart by their texts. -/
@[simp] theorem UpdateOp.text_inj {op op' : UpdateOp} : op.text = op'.text ↔ op = op' := by
  cases op <;> cases op' <;> decide

/-- The words of declarations are told apart. -/
@[simp] theorem DeclarationKind.text_inj {kind kind' : DeclarationKind} :
    kind.text = kind'.text ↔ kind = kind' := by
  cases kind <;> cases kind' <;> decide

/-- An assignment is told from one with an operation, and these from each other. -/
@[simp] theorem assignmentText_inj {op op' : Option Arithmetic} :
    assignmentText op = assignmentText op' ↔ op = op' := by
  cases op with
  | none =>
    cases op' with
    | none => simp
    | some op' => cases op' <;> decide
  | some op =>
    cases op' with
    | none => cases op <;> decide
    | some op' => cases op <;> cases op' <;> decide

/-- A function is its parameters and its statements. -/
theorem Function.eq_iff {f g : Function} : f = g ↔ f.params = g.params ∧ f.body = g.body := by
  cases f
  cases g
  simp

/-- A declaration is its kind and its declarators. -/
theorem Declaration.eq_iff {d d' : Declaration} :
    d = d' ↔ d.kind = d'.kind ∧ d.declarators = d'.declarators := by
  cases d
  cases d'
  simp

namespace Node

/-! ## Nodes as patterns see them -/

mutual

/-- A node as patterns see it: a declaration at the head of a loop is like the statement, a name
    where it is introduced like the expression, and an absent field like `null`. -/
def seen : Node → Node
  | .declaration d => .stmt (.declare d)
  | .binding name => .expr (.ident name)
  | .absent => .null
  | .list items => .list (allSeen items)
  | n => n

def allSeen : List Node → List Node
  | [] => []
  | n :: ns => n.seen :: allSeen ns

end

/-- A list is seen item by item. -/
theorem allSeen_eq_map (ns : List Node) : allSeen ns = ns.map seen := by
  induction ns with
  | nil => rfl
  | cons n ns ih => rw [allSeen, ih, List.map_cons]

@[simp] theorem seen_stmt (s : Stmt) : (Node.stmt s).seen = .stmt s := rfl

@[simp] theorem seen_expr (e : Expr) : (Node.expr e).seen = .expr e := rfl

/-- Declarations at the head of a loop are seen like statements. -/
@[simp] theorem seen_declaration (d : Declaration) :
    (Node.declaration d).seen = .stmt (.declare d) := rfl

@[simp] theorem seen_declarator (d : Declarator) : (Node.declarator d).seen = .declarator d := rfl

@[simp] theorem seen_catchClause (c : CatchClause) : (Node.catchClause c).seen = .catchClause c :=
  rfl

@[simp] theorem seen_switchCase (c : SwitchCase) : (Node.switchCase c).seen = .switchCase c := rfl

@[simp] theorem seen_property (p : Property) : (Node.property p).seen = .property p := rfl

/-- Names where they are introduced are seen like expressions. -/
@[simp] theorem seen_binding (name : Name) : (Node.binding name).seen = .expr (.ident name) := rfl

/-- A list is seen as a list, of its items as they are seen. -/
theorem seen_list (ns : List Node) : (Node.list ns).seen = .list (ns.map seen) := by
  rw [← allSeen_eq_map]
  rfl

/-- No list is seen as missing, also where it is empty. -/
@[simp] theorem seen_list_ne_null (ns : List Node) : ¬ (Node.list ns).seen = .null := by
  rw [seen_list]
  exact nofun

@[simp] theorem seen_text (s : String) : (Node.text s).seen = .text s := rfl

@[simp] theorem seen_number (x : Number) : (Node.number x).seen = .number x := rfl

@[simp] theorem seen_flag (b : Bool) : (Node.flag b).seen = .flag b := rfl

@[simp] theorem seen_null : Node.null.seen = .null := rfl

/-- What is missing is seen like `null`. -/
@[simp] theorem seen_absent : Node.absent.seen = .null := rfl

/-- A node has the kind it is seen to have. -/
theorem kind?_seen (n : Node) : n.seen.kind? = n.kind? := by
  cases n <;> rfl

/-- A node has the fields it is seen to have. -/
theorem field_seen (n : Node) (f : NodeField) : n.seen.field f = n.field f := by
  cases n <;> cases f <;> rfl

/-! ## What is read into a node shows in it -/

section

variable {α : Type} {node : α → Node}

/-- A list of nodes shows what it was made from, if each of its nodes does. -/
@[simp] theorem seen_map_inj (h : ∀ a b, (node a).seen = (node b).seen ↔ a = b) {as bs : List α} :
    (Node.list (as.map node)).seen = (Node.list (bs.map node)).seen ↔ as = bs := by
  rw [seen_list, seen_list, List.map_map, List.map_map, Node.list.injEq]
  exact List.map_inj_right fun a b => (h a b).mp

/-- A node that may be missing shows what it was made from, if none is seen like `null` when it is
    there. -/
@[simp] theorem seen_ofOption_inj (h : ∀ a b, (node a).seen = (node b).seen ↔ a = b)
    (hnull : ∀ a, ¬ (node a).seen = .null) {a b : Option α} :
    (ofOption node a).seen = (ofOption node b).seen ↔ a = b := by
  -- what is missing is seen as `null`, so nothing that is there may be
  cases a with
  | none =>
    cases b with
    | none => simp
    | some b => simpa [ofOption, eq_comm] using hnull b
  | some a =>
    cases b with
    | none => simpa [ofOption] using hnull a
    | some b => simpa [ofOption] using h a b

end

/-- A literal shows its value. -/
@[simp] theorem seen_ofLiteral_inj {value value' : Literal} :
    (ofLiteral value).seen = (ofLiteral value').seen ↔ value = value' := by
  cases value <;> cases value' <;> simp [ofLiteral]

/-- A key shows whether it is a name, a string or a number, and which. -/
@[simp] theorem seen_ofKey_inj {key key' : PropertyKey} :
    (ofKey key).seen = (ofKey key').seen ↔ key = key' := by
  cases key <;> cases key' <;> simp [ofKey]

/-- What a loop begins with shows whether it is a declaration or an expression, and which. -/
@[simp] theorem seen_ofForStart_inj {start start' : ForStart} :
    (ofForStart start).seen = (ofForStart start').seen ↔ start = start' := by
  cases start <;> cases start' <;> simp [ofForStart]

/-- What a loop begins with is seen when it is there. -/
@[simp] theorem seen_ofForStart_ne_null (start : ForStart) : ¬ (ofForStart start).seen = .null := by
  cases start <;> simp [ofForStart]

/-- The body of an arrow function shows whether it is a block or an expression, and which. -/
@[simp] theorem seen_ofArrowBody_inj {body body' : ArrowBody} :
    (ofArrowBody body).seen = (ofArrowBody body').seen ↔ body = body' := by
  -- a block is seen as a list, and no expression is
  cases body with
  | expr e =>
    cases body' with
    | expr e' => simp [ofArrowBody]
    | block body' => simp [ofArrowBody, seen_list]
  | block body =>
    cases body' with
    | expr e' => simp [ofArrowBody, seen_list]
    | block body' => simp [ofArrowBody]

/-! ## The fields determine a node -/

/-- Statements of one kind with fields that are seen alike are the same. -/
theorem stmt_eq_of_fields {s t : Stmt} (hkind : kindOfStmt s = kindOfStmt t)
    (h : ∀ f ∈ fieldsOfKind (kindOfStmt s), (stmtField s f).seen = (stmtField t f).seen) :
    s = t := by
  -- statements of two kinds are ruled out, and the fields of one kind name all parts
  cases s <;> cases t <;> cases hkind <;>
    simp [kindOfStmt, fieldsOfKind, stmtField, ofDeclaration, ofFunction, Declaration.eq_iff,
      Function.eq_iff] at h ⊢ <;>
    exact h

/-- Expressions of one kind with fields that are seen alike are the same. -/
theorem expr_eq_of_fields {e e' : Expr} (hkind : kindOfExpr e = kindOfExpr e')
    (h : ∀ f ∈ fieldsOfKind (kindOfExpr e), (exprField e f).seen = (exprField e' f).seen) :
    e = e' := by
  -- A member by name and one by a computed key differ in their flag.
  cases e <;> cases e' <;> cases hkind <;>
    simp [kindOfExpr, fieldsOfKind, exprField, ofFunction, ofMember, ofOperation,
      Function.eq_iff] at h ⊢ <;>
    exact h

/-- The nodes of a kind, as patterns see them. -/
inductive HasKind : NodeKind → Node → Prop where
  | stmt (s : Stmt) : HasKind (kindOfStmt s) (.stmt s)
  | expr (e : Expr) : HasKind (kindOfExpr e) (.expr e)
  | declarator (d : Declarator) : HasKind .variableDeclarator (.declarator d)
  | catchClause (c : CatchClause) : HasKind .catchClause (.catchClause c)
  | switchCase (c : SwitchCase) : HasKind .switchCase (.switchCase c)
  | property (p : Property) : HasKind .property (.property p)

/-- A node that has a kind is seen as a node of that kind. -/
theorem hasKind_seen {n : Node} {kind : NodeKind} (h : n.kind? = some kind) :
    HasKind kind n.seen := by
  -- each type of node with its kind; lists and primitives have none
  cases n with
  | stmt s => cases h; exact .stmt s
  | expr e => cases h; exact .expr e
  | declaration d => cases h; exact .stmt (.declare d)
  | declarator d => cases h; exact .declarator d
  | catchClause c => cases h; exact .catchClause c
  | switchCase c => cases h; exact .switchCase c
  | property p => cases h; exact .property p
  | binding name => cases h; exact .expr (.ident name)
  | _ => cases h

/-- A kind belongs to statements, to expressions, or to one of the types between them. -/
theorem HasKind.eq_of_fields {n m : Node} {kind : NodeKind} (hn : HasKind kind n)
    (hm : HasKind kind m) (h : ∀ f ∈ fieldsOfKind kind, (n.field f).seen = (m.field f).seen) :
    n = m := by
  -- Kinds of statements and expressions are computed, so the kind of the other node is set aside
  -- as an equation before that node is taken apart.
  cases hn with
  | stmt s =>
    generalize hkind : kindOfStmt s = kind at hm
    cases hm with
    | stmt t => exact congrArg Node.stmt (stmt_eq_of_fields hkind h)
    | expr e => cases s <;> cases e <;> cases hkind
    | _ => cases s <;> cases hkind
  | expr e =>
    generalize hkind : kindOfExpr e = kind at hm
    cases hm with
    | stmt s => cases s <;> cases e <;> cases hkind
    | expr e' => exact congrArg Node.expr (expr_eq_of_fields hkind h)
    | _ => cases e <;> cases hkind
  | declarator d =>
    generalize hkind : NodeKind.variableDeclarator = kind at hm
    cases hm with
    | stmt s => cases s <;> cases hkind
    | expr e => cases e <;> cases hkind
    | declarator d' =>
      cases d
      cases d'
      simpa [fieldsOfKind, field] using h
    | _ => cases hkind
  | catchClause c =>
    generalize hkind : NodeKind.catchClause = kind at hm
    cases hm with
    | stmt s => cases s <;> cases hkind
    | expr e => cases e <;> cases hkind
    | catchClause c' =>
      cases c
      cases c'
      simpa [fieldsOfKind, field] using h
    | _ => cases hkind
  | switchCase c =>
    generalize hkind : NodeKind.switchCase = kind at hm
    cases hm with
    | stmt s => cases s <;> cases hkind
    | expr e => cases e <;> cases hkind
    | switchCase c' =>
      cases c
      cases c'
      simpa [fieldsOfKind, field] using h
    | _ => cases hkind
  | property p =>
    generalize hkind : NodeKind.property = kind at hm
    cases hm with
    | stmt s => cases s <;> cases hkind
    | expr e => cases e <;> cases hkind
    | property p' =>
      cases p
      cases p'
      simpa [fieldsOfKind, field] using h
    | _ => cases hkind

/-- Two nodes look the same to patterns when they are of one kind and their fields do. -/
theorem seen_eq_iff {n m : Node} {kind : NodeKind} (h : n.kind? = some kind) :
    m.seen = n.seen ↔
      m.kind? = some kind ∧ ∀ f ∈ fieldsOfKind kind, (m.field f).seen = (n.field f).seen := by
  constructor
  · intro heq
    refine ⟨by rw [← kind?_seen, heq, kind?_seen, h], fun f _ => ?_⟩
    rw [← field_seen m, heq, field_seen]
  -- both nodes are of the kind, and the fields of the kind determine them
  · rintro ⟨hm, hfields⟩
    refine (hasKind_seen hm).eq_of_fields (hasKind_seen h) fun f hf => ?_
    rw [field_seen, field_seen]
    exact hfields f hf

/-! ## Portraits -/

/-- The pattern of all that a node shows: its kind and every field it has, every item of a list, the
    value of a primitive, and `null` for what is absent. -/
def portrait : Node → Pattern
  | .list items => .sequence (items.map fun n => n.portrait)
  | .text s => .literal (.text s)
  | .number x => .literal (.number x)
  | .flag b => .literal (.flag b)
  | .null | .absent => .literal .null
  | n => .exact n.kind? (n.fields.attach.map fun f => (f.1, (n.field f.1).portrait))
termination_by n => n.size
decreasing_by
  · exact size_lt_of_mem_items (by assumption)
  · exact size_field_lt _ f.2

/-- The fields of a pattern accept where each of its entries does. -/
theorem fieldsAccept_iff {entries : List (NodeField × Pattern)} {n : Node} :
    Pattern.fieldsAccept entries n = true ↔
      ∀ entry ∈ entries, entry.2.accepts (n.field entry.1) = true := by
  induction entries with
  | nil => simp [Pattern.fieldsAccept]
  | cons entry entries ih =>
    rw [Pattern.fieldsAccept, Bool.and_eq_true, ih, List.forall_mem_cons]

/-- A pattern with a kind accepts the nodes of that kind whose fields its entries accept. -/
theorem accepts_exact_iff {kind : NodeKind} {entries : List (NodeField × Pattern)} {n : Node} :
    (Pattern.exact (some kind) entries).accepts n = true ↔
      n.kind? = some kind ∧ ∀ entry ∈ entries, entry.2.accepts (n.field entry.1) = true := by
  -- a pattern also asks that the node is there, which its kind says already
  have habsent : n.kind? = some kind → n.isAbsent = false := by
    cases n <;> simp [kind?, isAbsent]
  rw [Pattern.accepts, Bool.and_eq_true, fieldsAccept_iff]
  refine and_congr_left fun _ => ?_
  simpa using habsent

/-- Portraits of the items accept a list item by item, and only one of the same length. -/
theorem eachAccepts_map_iff {items ns : List Node}
    (h : ∀ n ∈ items, ∀ m ∈ ns, (n.portrait.accepts m = true ↔ m.seen = n.seen)) :
    Pattern.eachAccepts (items.map portrait) ns = true ↔ ns.map seen = items.map seen := by
  -- along both lists, which must end together
  induction items generalizing ns with
  | nil => cases ns <;> simp [Pattern.eachAccepts]
  | cons n items ih =>
    cases ns with
    | nil => simp [Pattern.eachAccepts]
    | cons m ns =>
      have hhead := h n List.mem_cons_self m List.mem_cons_self
      have htail := ih fun n hn m hm => h n (List.mem_cons_of_mem _ hn) m (List.mem_cons_of_mem _ hm)
      rw [List.map_cons, List.map_cons, List.map_cons, Pattern.eachAccepts, Bool.and_eq_true, hhead,
        htail, List.cons.injEq]

end Node

/-- Among numerals, only a number itself equals it. -/
theorem Number.IsNumeral.equals_iff {x y : Number} (hx : x.IsNumeral) (hy : y.IsNumeral) :
    x.equals y = true ↔ x = y := by
  -- numbers compare by rank, which tells numerals apart: none is negative or not-a-number
  rw [equals_iff_rank?]
  -- an infinite one outranks all that are finite
  cases x with
  | nan => cases hx
  | infinite s =>
    cases hx
    cases y with
    | nan => cases hy
    | infinite t => cases hy; simp [rank?]
    | finite t m =>
      cases hy
      have := m.bounded
      simp [rank?]
      omega
  | finite s m =>
    cases hx
    cases y with
    | nan => cases hy
    | infinite t =>
      cases hy
      have := m.bounded
      simp [rank?]
      omega
    | finite t m' =>
      cases hy
      cases m
      cases m'
      simp [rank?, eq_comm]

namespace Node

/-- A portrait accepts what looks the same to patterns. -/
theorem accepts_portrait_iff_seen {n m : Node} (hn : n.HasNumerals) (hm : m.HasNumerals) :
    n.portrait.accepts m = true ↔ m.seen = n.seen := by
  -- over the recursion of the portrait: lists, primitives, what is missing, and nodes with a kind
  fun_induction portrait n generalizing m with
  | case1 items ih =>
    rw [Pattern.accepts]
    cases m with
    | list ns =>
      rw [seen_list, seen_list, Node.list.injEq]
      exact eachAccepts_map_iff fun n hmem m hmem' =>
        ih n hmem (hasNumerals_list.mp hn n hmem) (hasNumerals_list.mp hm m hmem')
    | _ => simp [items?, seen_list]
  | case2 s => cases m <;> simp [Pattern.accepts, equalsLiteral, seen_list]
  | case3 x =>
    cases m with
    | number y =>
      rw [hasNumerals_number] at hn hm
      simpa [Pattern.accepts, equalsLiteral] using hm.equals_iff hn
    | _ => simp [Pattern.accepts, equalsLiteral, seen_list]
  | case4 b => cases m <;> simp [Pattern.accepts, equalsLiteral, seen_list]
  | case5 | case6 => cases m <;> simp [Pattern.accepts, equalsLiteral]
  | case7 n hlist htext hnumber hflag hnull habsent ih =>
    obtain ⟨kind, hkind⟩ : ∃ kind, n.kind? = some kind := by
      cases n <;> simp_all [kind?]
    have hfields : n.fields = fieldsOfKind kind := by rw [fields, hkind]
    rw [seen_eq_iff hkind, hkind, accepts_exact_iff, ← hfields]
    -- Nodes of one kind have the same fields, and these are smaller.
    refine and_congr_right fun hmkind => ?_
    have hmfields : m.fields = n.fields := by rw [hfields, fields, hmkind]
    have hfield (f : {f // f ∈ n.fields}) :
        (n.field f).portrait.accepts (m.field f) = true ↔ (m.field f).seen = (n.field f).seen :=
      ih f (hn.field f f.2) (hm.field f (by rw [hmfields]; exact f.2))
    simp only [List.forall_mem_map, hfield]
    exact ⟨fun h f hf => h ⟨f, hf⟩ (List.mem_attach _ _), fun h f _ => h f f.2⟩

end Node

/-! ## Trees that were read -/

/-- The node of a part. -/
def Part.node : Part → Node
  | .expr e => .expr e
  | .stmt s => .stmt s

/-- The parts of what parsing returns. -/
inductive Part.Read : Part → Prop where
  | statement {text : String} {p : Program} {s : Stmt} (h : Program.parse text = .ok p)
      (hmem : s ∈ p.body) : Read (.stmt s)
  | expression {text : String} {e : Expr} (h : Expr.parse text = .ok e) : Read (.expr e)
  | inside {part other : Part} (h : part.Read) (hmem : other ∈ part.inner) : Read other

/-- What was read is well-formed in every part. -/
theorem Part.Read.wellFormed {part : Part} (h : part.Read) :
    Part.Everywhere Part.WellFormed part := by
  -- a statement or an expression that was read, or a part inside one
  induction h with
  | statement h hmem => exact Program.sound_of_parse h _ hmem
  | expression h => exact Expr.sound_of_parse h
  | inside _ hmem ih => exact ih.inside hmem

/-- The numbers in what was read are numerals. -/
theorem Part.Read.hasNumerals {part : Part} (h : part.Read) : part.node.HasNumerals := by
  -- well-formed parts have numerals, and so has all that lies inside them
  have hall := h.wellFormed.mono fun _ => Part.WellFormed.hasNumerals
  cases part with
  | expr e => exact Node.hasNumerals_expr.mpr hall
  | stmt s => exact Node.hasNumerals_stmt.mpr hall

/-- A statement or an expression is seen as itself. -/
theorem Part.seen_node_inj {part other : Part} :
    part.node.seen = other.node.seen ↔ part = other := by
  cases part <;> cases other <;> simp [node]

/-- Of the statements and expressions that were read, the portrait of one accepts that one and no
    other. -/
theorem Part.Read.accepts_portrait_iff {part other : Part} (h : part.Read) (h' : other.Read) :
    part.node.portrait.accepts other.node = true ↔ other = part := by
  rw [Node.accepts_portrait_iff_seen h.hasNumerals h'.hasNumerals, seen_node_inj]

/-- What is missing is not taken for a `null` that was written. -/
theorem Part.Read.accepts_portrait_return :
    (Part.stmt (.giveBack none)).node.portrait.accepts (Part.stmt (.giveBack none)).node = true ∧
      (Part.stmt (.giveBack none)).node.portrait.accepts
        (Part.stmt (.giveBack (some (.literal .null)))).node = false := by
  have hbare : Program.parse "return;" = .ok ⟨[.giveBack none]⟩ := by decide +kernel
  have hnull : Program.parse "return null;" = .ok ⟨[.giveBack (some (.literal .null))]⟩ := by
    decide +kernel
  have hread : Part.Read (.stmt (.giveBack none)) := .statement hbare List.mem_cons_self
  have hread' : Part.Read (.stmt (.giveBack (some (.literal .null)))) :=
    .statement hnull List.mem_cons_self
  refine ⟨(accepts_portrait_iff hread hread).mpr rfl, ?_⟩
  rw [Bool.eq_false_iff, ne_eq, accepts_portrait_iff hread hread']
  exact nofun

end Descramble
