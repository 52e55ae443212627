import Descramble.Proofs.Transform.Shape

/-!
# Guards

A function shows itself as a transform by its guard, the statement before its last one: a `try`
whose handler returns a decoy, or a call behind a test. The shapes of both, level by level, as
conditions on trees.

Main statements: `Shape.accepts_decoyGuard_iff` and `Shape.accepts_callGuard_iff`.
-/

namespace Descramble

/-- What a decoy adds the parameter to: a name, or a name indexed by a literal. -/
inductive Expr.IsDecoyBase : Expr → Prop
  | ident (name : Name) : IsDecoyBase (.ident name)
  | indexed (name : Name) (l : Literal) : IsDecoyBase (.index (.ident name) (.literal l))

/-- Whether a statement is a `try` whose handler does nothing but return a decoy, which ends in the
    given name. -/
inductive Stmt.ReturnsDecoy : Stmt → Name → Prop
  | intro {block : List Stmt} {param : Option Name} {left : Expr} {name : Name}
      {finalizer : Option (List Stmt)} (hleft : left.IsDecoyBase) :
      ReturnsDecoy (.attempt block
        (some ⟨param, [.giveBack (some (.binary (.arithmetic .add) left (.ident name)))]⟩)
        finalizer) name

/-- Whether a statement is `a && (b = f(d(c)), g())` or `a && (b = f(l, d(c)), g())` for a literal
    `l`, with the called name `f` and the arguments before `d(c)`. -/
inductive Stmt.GuardsCall : Stmt → Name → List Expr → Prop
  | intro {tested target callee decode token : Name} {next : Expr} {args : List Expr}
      (l : Option Literal) :
      GuardsCall (.expr (.logical .and (.ident tested) (.sequence
        [.assign none (.ident target) (.call (.ident callee)
          (l.toList.map .literal ++ [.call (.ident decode) [.ident token]])),
          .call next args]))) callee (l.toList.map .literal)

/-- Whether a statement stands before the last one of a function. -/
def Function.HasGuard (f : Function) (guard : Stmt) : Prop :=
  ∃ before last, f.body = before ++ [guard, last]

namespace Stmt

variable {s : Stmt}

/-- The operand of a decoy is the name that its sum ends in. -/
theorem ReturnsDecoy.decoyOperand?_eq {name : Name} (h : s.ReturnsDecoy name) :
    s.decoyOperand? = some name := by
  cases h
  rfl

/-- A guarded call passes on one value, and one literal before it at most. -/
theorem GuardsCall.guardedCall?_eq {callee : Name} {leading : List Expr}
    (h : s.GuardsCall callee leading) :
    ∃ (l : Option Literal) (token : Expr), leading = l.toList.map .literal ∧
      s.guardedCall? = some (callee, leading ++ [token]) := by
  obtain ⟨l⟩ := h
  exact ⟨l, _, rfl, rfl⟩

end Stmt

namespace Function

variable {f : Function} {guard : Stmt}

/-- The statement before the last one is found as the guard. -/
theorem HasGuard.guard?_eq (h : f.HasGuard guard) : f.guard? = some guard := by
  obtain ⟨before, last, hbody⟩ := h
  have hlength : f.body.length = before.length + 2 := by
    rw [hbody, List.length_append]
    rfl
  -- counted from the front, the guard stands behind all that comes before it
  rw [guard?, if_neg (by omega), hlength, Nat.add_sub_cancel, hbody,
    List.getElem?_append_right (Nat.le_refl _), Nat.sub_self]
  rfl

/-- What is found as the guard is the statement before the last one, where there are two. -/
theorem guard?_eq_some_iff : f.guard? = some guard ↔ f.HasGuard guard := by
  refine ⟨fun h => ?_, HasGuard.guard?_eq⟩
  -- a body of fewer than two statements has no guard
  rcases List.eq_nil_or_concat f.body with hbody | ⟨start, last, hbody⟩
  · simp [guard?, hbody] at h
  rcases List.eq_nil_or_concat start with rfl | ⟨before, guard', rfl⟩
  · simp [guard?, hbody] at h
  · have hguard : f.HasGuard guard' := ⟨before, last, by rw [hbody]; simp⟩
    rw [hguard.guard?_eq] at h
    cases h
    exact hguard

end Function

namespace Pattern

/-- A pattern of a kind accepts the nodes of that kind whose fields it accepts. -/
theorem accepts_node_iff {kind : NodeKind} {fields : List (NodeField × Pattern)} {n : Node} :
    (node kind fields).accepts n = true ↔ n.kind? = some kind ∧ fieldsAccept fields n = true := by
  constructor
  · intro h
    rw [node, accepts, Bool.and_eq_true, Bool.and_eq_true, Option.isNone_some, Bool.false_or,
      beq_iff_eq] at h
    exact ⟨h.1.2, h.2⟩
  -- a node of a kind is never an absent field
  · rintro ⟨hkind, hfields⟩
    rw [accepts_node_of_kind hkind, hfields]

section Sequence

variable {α : Type} {ofItem : α → Node} {items : List α} {p q : Pattern}

/-- A pattern for one item accepts the lists of one item that it accepts. -/
theorem accepts_sequence_singleton_iff :
    (Pattern.sequence [p]).accepts (.list (items.map ofItem)) = true ↔
      ∃ a, items = [a] ∧ p.accepts (ofItem a) = true := by
  show eachAccepts [p] (items.map ofItem) = true ↔ _
  rcases items with _ | ⟨a, _ | ⟨b, rest⟩⟩ <;> simp [eachAccepts]

/-- A pattern for two items accepts the lists of two items, each by its own. -/
theorem accepts_sequence_pair_iff :
    (Pattern.sequence [p, q]).accepts (.list (items.map ofItem)) = true ↔
      ∃ a b, items = [a, b] ∧ p.accepts (ofItem a) = true ∧ q.accepts (ofItem b) = true := by
  show eachAccepts [p, q] (items.map ofItem) = true ↔ _
  -- too short, of the right length, or too long
  rcases items with _ | ⟨a, _ | ⟨b, _ | ⟨c, rest⟩⟩⟩ <;> simp [eachAccepts, and_assoc]

end Sequence

/-- A choice of two patterns accepts what one of them accepts. -/
theorem accepts_either_iff {p q : Pattern} {n : Node} :
    (Pattern.anyOf [p, q]).accepts n = true ↔ p.accepts n = true ∨ q.accepts n = true := by
  simp [accepts, anyAccepts]

end Pattern

namespace Shape

open Pattern

/-! ## Operators -/

/-- Of assignments, only the plain one is written so. -/
theorem accepts_plain_iff {op : Option Arithmetic} :
    (text "=").accepts (.text (assignmentText op)) = true ↔ op = none := by
  rcases op with _ | op
  · decide
  · cases op <;> decide

/-- Of logical operators, only the conjunction is written so. -/
theorem accepts_and_iff {op : LogicalOp} :
    (text "&&").accepts (.text op.text) = true ↔ op = .and := by
  cases op <;> decide

/-- Of binary operators, only the addition is written so. -/
theorem accepts_add_iff {op : BinaryOp} :
    (text "+").accepts (.text op.text) = true ↔ op = .arithmetic .add := by
  -- operations, comparisons and the two that are words
  rcases op with op | op | _ | _
  · cases op <;> decide
  · cases op <;> decide
  · decide
  · decide

/-! ## One level at a time -/

section Levels

variable {p q : Pattern} {s : Stmt} {e : Expr}

-- the kind of a node and its fields are read off its constructor
attribute [local simp] Node.kind? Node.kindOfExpr Node.kindOfStmt Node.field Node.exprField
  Node.stmtField fieldsAccept

/-- A pattern for identifiers accepts exactly those. -/
theorem accepts_ident_iff : ident.accepts (.expr e) = true ↔ ∃ name, e = .ident name := by
  rw [accepts_ident_expr]
  cases e <;> simp [Expr.ident?]

/-- A pattern for literals accepts exactly those, whatever their value. -/
theorem accepts_literal_iff :
    (ofKind .literal).accepts (.expr e) = true ↔ ∃ l, e = .literal l := by
  rw [ofKind, accepts_node_iff]
  cases e <;> simp

/-- Of statements, an expression on its own. -/
theorem accepts_expressionStatement_iff :
    (node .expressionStatement [(.expression, p)]).accepts (.stmt s) = true ↔
      ∃ e, s = .expr e ∧ p.accepts (.expr e) = true := by
  rw [accepts_node_iff]
  cases s <;> simp

/-- A plain assignment to a name. -/
theorem accepts_assignment_iff :
    (node .assignmentExpression [(.left, ident), (.operator, text "="), (.right, p)]).accepts
        (.expr e) = true ↔
      ∃ name value, e = .assign none (.ident name) value ∧ p.accepts (.expr value) = true := by
  rw [accepts_node_iff]
  cases e with
  | assign op target value =>
    simp only [fieldsAccept, Node.field, Node.exprField, Node.ofOperation, accepts_ident_iff,
      accepts_plain_iff, Bool.and_eq_true, and_true]
    constructor
    -- each field fixes one part of the assignment
    · rintro ⟨-, ⟨name, rfl⟩, rfl, hvalue⟩
      exact ⟨name, value, rfl, hvalue⟩
    · rintro ⟨name, value', heq, hvalue⟩
      cases heq
      exact ⟨rfl, ⟨name, rfl⟩, rfl, hvalue⟩
  | _ => simp

/-- A conjunction whose left side is a name. -/
theorem accepts_conjunction_iff :
    (node .logicalExpression [(.left, ident), (.operator, text "&&"), (.right, p)]).accepts
        (.expr e) = true ↔
      ∃ name right, e = .logical .and (.ident name) right ∧ p.accepts (.expr right) = true := by
  rw [accepts_node_iff]
  cases e with
  | logical op left right =>
    simp only [fieldsAccept, Node.field, Node.exprField, Node.ofOperation, accepts_ident_iff,
      accepts_and_iff, Bool.and_eq_true, and_true]
    constructor
    -- the name, the operator, and what is behind the test
    · rintro ⟨-, ⟨name, rfl⟩, rfl, hright⟩
      exact ⟨name, right, rfl, hright⟩
    · rintro ⟨name, right', heq, hright⟩
      cases heq
      exact ⟨rfl, ⟨name, rfl⟩, rfl, hright⟩
  | _ => simp

/-- A sum whose right side is a name. -/
theorem accepts_sum_iff :
    (node .binaryExpression [(.left, p), (.operator, text "+"), (.right, ident)]).accepts
        (.expr e) = true ↔
      ∃ left name, e = .binary (.arithmetic .add) left (.ident name) ∧
        p.accepts (.expr left) = true := by
  rw [accepts_node_iff]
  cases e with
  | binary op left right =>
    simp only [fieldsAccept, Node.field, Node.exprField, Node.ofOperation, accepts_ident_iff,
      accepts_add_iff, Bool.and_eq_true, and_true]
    constructor
    · rintro ⟨-, hleft, rfl, name, rfl⟩
      exact ⟨left, name, rfl, hleft⟩
    · rintro ⟨left', name, heq, hleft⟩
      cases heq
      exact ⟨rfl, hleft, rfl, name, rfl⟩
  | _ => simp

/-- Expressions with commas between them. -/
theorem accepts_sequenceExpression_iff :
    (node .sequenceExpression [(.expressions, p)]).accepts (.expr e) = true ↔
      ∃ items, e = .sequence items ∧ p.accepts (.list (items.map .expr)) = true := by
  rw [accepts_node_iff]
  cases e <;> simp

/-- A call of anything with anything. -/
theorem accepts_anyCall_iff :
    (node .callExpression [(.callee, .wildcard)]).accepts (.expr e) = true ↔
      ∃ callee args, e = .call callee args := by
  rw [accepts_node_iff]
  cases e <;> simp [accepts]

/-- A call of a name with arguments of a shape. -/
theorem accepts_call_iff :
    (node .callExpression [(.callee, ident), (.arguments, p), (.optional, flag false)]).accepts
        (.expr e) = true ↔
      ∃ callee args, e = .call (.ident callee) args ∧
        p.accepts (.list (args.map .expr)) = true := by
  -- a call in the tree is never an optional one
  have hflag : (flag false).accepts (.flag false) = true := rfl
  rw [accepts_node_iff]
  cases e with
  | call callee args =>
    simp only [fieldsAccept, Node.field, Node.exprField, accepts_ident_iff, hflag, Bool.and_true,
      Bool.and_eq_true]
    constructor
    · rintro ⟨-, ⟨name, rfl⟩, hargs⟩
      exact ⟨name, args, rfl, hargs⟩
    · rintro ⟨name, args', heq, hargs⟩
      cases heq
      exact ⟨rfl, ⟨name, rfl⟩, hargs⟩
  | _ => simp

/-- A `return` of a sum that ends in a name. -/
theorem accepts_return_iff :
    (node .returnStatement [(.argument, node .binaryExpression [
        (.left, p), (.operator, text "+"), (.right, ident)])]).accepts (.stmt s) = true ↔
      ∃ left name, s = .giveBack (some (.binary (.arithmetic .add) left (.ident name))) ∧
        p.accepts (.expr left) = true := by
  rw [accepts_node_iff]
  cases s with
  | giveBack value =>
    cases value with
    -- no value is an absent field, which is no node of any kind
    | none => simp [Node.ofOption, node, accepts, Node.isAbsent]
    | some e =>
      simp only [fieldsAccept, Node.field, Node.stmtField, Node.ofOption, accepts_sum_iff,
        Bool.and_true]
      constructor
      · rintro ⟨-, left, name, rfl, hleft⟩
        exact ⟨left, name, rfl, hleft⟩
      · rintro ⟨left, name, heq, hleft⟩
        cases heq
        exact ⟨rfl, left, name, rfl, hleft⟩
  | _ => simp

/-- A `try` with a handler whose statements have a shape. -/
theorem accepts_handler_iff :
    (node .tryStatement [(.handler, node .catchClause [(.body, p)])]).accepts (.stmt s) = true ↔
      ∃ block param body finalizer, s = .attempt block (some ⟨param, body⟩) finalizer ∧
        p.accepts (.list (body.map .stmt)) = true := by
  rw [accepts_node_iff]
  cases s with
  | attempt block handler finalizer =>
    cases handler with
    -- without a handler the field is absent
    | none => simp [Node.ofOption, node, accepts, Node.isAbsent]
    | some clause =>
      obtain ⟨param, body⟩ := clause
      simp only [fieldsAccept, Node.field, Node.stmtField, Node.ofOption, accepts_node_iff,
        Bool.and_true]
      constructor
      · rintro ⟨-, -, hbody⟩
        exact ⟨block, param, body, finalizer, rfl, hbody⟩
      · rintro ⟨_, _, _, _, heq, hbody⟩
        cases heq
        exact ⟨rfl, rfl, hbody⟩
  | _ => simp

/-- A name indexed by a literal. -/
theorem accepts_indexed_iff :
    (node .memberExpression [(.object, ident), (.computed, flag true),
        (.property, ofKind .literal), (.optional, flag false)]).accepts (.expr e) = true ↔
      ∃ name l, e = .index (.ident name) (.literal l) := by
  have hflag : (flag false).accepts (.flag false) = true := rfl
  have hcomputed : (flag true).accepts (.flag true) = true := rfl
  have hnamed : (flag true).accepts (.flag false) = false := rfl
  rw [accepts_node_iff]
  cases e with
  -- an access by name is no computed one
  | member target name =>
    simp [Node.ofMember, hnamed]
  | index target key =>
    simp only [fieldsAccept, Node.field, Node.exprField, Node.ofMember, accepts_ident_iff,
      accepts_literal_iff, hflag, hcomputed, Bool.and_true, Bool.and_eq_true, true_and]
    constructor
    · rintro ⟨-, ⟨name, rfl⟩, l, rfl⟩
      exact ⟨name, l, rfl⟩
    · rintro ⟨name, l, heq⟩
      cases heq
      exact ⟨rfl, ⟨name, rfl⟩, l, rfl⟩
  | _ => simp

end Levels

/-! ## The two guards -/

/-- The pattern of a decoy accepts exactly the statements that return one. -/
theorem accepts_decoyGuard_iff {s : Stmt} :
    decoyGuard.accepts (.stmt s) = true ↔ ∃ name, s.ReturnsDecoy name := by
  rw [decoyGuard, accepts_handler_iff]
  constructor
  · rintro ⟨block, param, body, finalizer, rfl, hbody⟩
    obtain ⟨returned, rfl, hreturned⟩ := accepts_sequence_singleton_iff.mp hbody
    obtain ⟨left, name, rfl, hleft⟩ := accepts_return_iff.mp hreturned
    refine ⟨name, .intro ?_⟩
    -- a decoy begins with an indexed name or with a name
    rcases accepts_either_iff.mp hleft with hindexed | hident
    · obtain ⟨base, l, rfl⟩ := accepts_indexed_iff.mp hindexed
      exact .indexed base l
    · obtain ⟨base, rfl⟩ := accepts_ident_iff.mp hident
      exact .ident base
  · rintro ⟨name, @⟨block, param, left, _, finalizer, hleft⟩⟩
    refine ⟨block, param, _, finalizer, rfl, accepts_sequence_singleton_iff.mpr ⟨_, rfl, ?_⟩⟩
    refine accepts_return_iff.mpr ⟨left, name, rfl, accepts_either_iff.mpr ?_⟩
    cases hleft with
    | indexed base l => exact .inl (accepts_indexed_iff.mpr ⟨base, l, rfl⟩)
    | ident base => exact .inr (accepts_ident_iff.mpr ⟨base, rfl⟩)

/-- The arguments of a guarded call: a decoded name, and a literal before it or not. -/
theorem accepts_arguments_iff {args : List Expr} :
    (Pattern.anyOf [
        .sequence [ofKind .literal, node .callExpression [
          (.callee, ident), (.arguments, .sequence [ident]), (.optional, flag false)]],
        .sequence [node .callExpression [
          (.callee, ident), (.arguments, .sequence [ident]), (.optional, flag false)]]]).accepts
      (.list (args.map .expr)) = true ↔
      ∃ (l : Option Literal) (decode token : Name),
        args = l.toList.map .literal ++ [.call (.ident decode) [.ident token]] := by
  -- the decoded name is a call of one name with another
  have hdecoded (e : Expr) : (node .callExpression [(.callee, ident),
      (.arguments, .sequence [ident]), (.optional, flag false)]).accepts (.expr e) = true ↔
        ∃ decode token, e = .call (.ident decode) [.ident token] := by
    simp only [accepts_call_iff, accepts_sequence_singleton_iff, accepts_ident_iff]
    constructor
    · rintro ⟨decode, args, rfl, _, rfl, token, rfl⟩
      exact ⟨decode, token, rfl⟩
    · rintro ⟨decode, token, rfl⟩
      exact ⟨decode, _, rfl, _, rfl, token, rfl⟩
  simp only [accepts_either_iff, accepts_sequence_pair_iff, accepts_sequence_singleton_iff,
    accepts_literal_iff, hdecoded]
  constructor
  · rintro (⟨_, _, rfl, ⟨l, rfl⟩, decode, token, rfl⟩ | ⟨_, rfl, decode, token, rfl⟩)
    · exact ⟨some l, decode, token, rfl⟩
    · exact ⟨none, decode, token, rfl⟩
  · rintro ⟨l, decode, token, rfl⟩
    cases l with
    | some l => exact .inl ⟨_, _, rfl, ⟨l, rfl⟩, decode, token, rfl⟩
    | none => exact .inr ⟨_, rfl, decode, token, rfl⟩

/-- The pattern of a guarded call accepts exactly the statements that guard one. -/
theorem accepts_callGuard_iff {s : Stmt} :
    callGuard.accepts (.stmt s) = true ↔ ∃ callee leading, s.GuardsCall callee leading := by
  rw [callGuard, accepts_expressionStatement_iff]
  constructor
  · rintro ⟨e, rfl, he⟩
    -- inwards level by level, each giving the part of the tree that it is about
    obtain ⟨tested, right, rfl, hright⟩ := accepts_conjunction_iff.mp he
    obtain ⟨items, rfl, hitems⟩ := accepts_sequenceExpression_iff.mp hright
    obtain ⟨assigned, called, rfl, hassigned, hcalled⟩ := accepts_sequence_pair_iff.mp hitems
    obtain ⟨target, value, rfl, hvalue⟩ := accepts_assignment_iff.mp hassigned
    obtain ⟨callee, args, rfl, hargs⟩ := accepts_call_iff.mp hvalue
    obtain ⟨l, decode, token, rfl⟩ := accepts_arguments_iff.mp hargs
    obtain ⟨next, nextArgs, rfl⟩ := accepts_anyCall_iff.mp hcalled
    exact ⟨callee, _, .intro l⟩
  · rintro ⟨callee, _, @⟨tested, target, _, decode, token, next, nextArgs, l⟩⟩
    refine ⟨_, rfl, accepts_conjunction_iff.mpr ⟨tested, _, rfl, ?_⟩⟩
    refine accepts_sequenceExpression_iff.mpr ⟨_, rfl, accepts_sequence_pair_iff.mpr
      ⟨_, _, rfl, ?_, accepts_anyCall_iff.mpr ⟨next, nextArgs, rfl⟩⟩⟩
    refine accepts_assignment_iff.mpr ⟨target, _, rfl, accepts_call_iff.mpr ⟨callee, _, rfl, ?_⟩⟩
    exact accepts_arguments_iff.mpr ⟨l, decode, token, rfl⟩

/-- A guarded call of two arguments has a literal first. -/
theorem literal_of_accepts_callGuard {guard : Stmt} {callee : Name} {first second : Expr}
    (h : callGuard.accepts (.stmt guard))
    (hcall : guard.guardedCall? = some (callee, [first, second])) : ∃ l, first = .literal l := by
  obtain ⟨callee', leading, hguard⟩ := accepts_callGuard_iff.mp h
  obtain ⟨l, token, rfl, heq⟩ := hguard.guardedCall?_eq
  rw [heq] at hcall
  -- without the literal there would be one argument only
  cases l with
  | none => simp at hcall
  | some l =>
    obtain ⟨rfl, hargs⟩ := Prod.mk.inj (Option.some.inj hcall)
    exact ⟨l, (List.cons.inj hargs).1.symm⟩

end Shape

end Descramble
