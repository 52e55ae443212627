import Descramble.Proofs.Transform.Defining

/-!
# What the shapes accept

The shapes of the transforms, read as plain conditions on trees.

Main statements: `Shape.accepts_function`, a statement that binds a function of a number of
parameters has the shape of one, and `Shape.accepts_aliasing_declare`.
-/

namespace Descramble

namespace Pattern

/-- A pattern of a kind looks at the fields of a node of that kind. -/
theorem accepts_node_of_kind {kind : NodeKind} {n : Node} (h : n.kind? = some kind)
    (fields : List (NodeField × Pattern)) :
    (node kind fields).accepts n = fieldsAccept fields n := by
  have hpresent : n.isAbsent = false := by
    cases n <;> first | rfl | cases h
  simp [node, accepts, hpresent, h]

/-- As many patterns for any present node as there are nodes accept them. -/
theorem eachAccepts_present (ns : List Node) (count : Nat) (h : ∀ n ∈ ns, n.isAbsent = false) :
    eachAccepts (List.replicate count present) ns = (ns.length == count) := by
  -- along both lists, which have to end together
  induction ns generalizing count with
  | nil => cases count <;> rfl
  | cons n ns ih =>
    cases count with
    | zero => rfl
    | succ count =>
      have hpresent : present.accepts n = true := by
        simp [present, accepts, fieldsAccept, h n List.mem_cons_self]
      rw [List.replicate_succ, eachAccepts, hpresent, Bool.true_and,
        ih count fun m hm => h m (List.mem_cons_of_mem n hm), List.length_cons]
      simp

end Pattern

namespace Shape

open Pattern

/-- The pattern of an identifier accepts just those. -/
@[simp] theorem accepts_ident_expr (e : Expr) : ident.accepts (.expr e) = e.ident?.isSome := by
  cases e <;> rfl

/-- The pattern of a list of one identifier accepts just those. -/
theorem accepts_singleIdentArray_expr (e : Expr) :
    singleIdentArray.accepts (.expr e) = e.soleIdent?.isSome := by
  cases e with
  | array items =>
    rcases items with _ | ⟨e, _ | ⟨e', rest⟩⟩
    · rfl
    · cases e <;> rfl
    -- two items are more than the pattern lists
    · have hitems : eachAccepts [ident] (.expr e :: .expr e' :: rest.map .expr) = false := by
        simp [eachAccepts]
      rw [singleIdentArray, accepts_node_of_kind rfl]
      show (eachAccepts [ident] (.expr e :: .expr e' :: rest.map .expr) && true) = _
      rw [hitems]
      cases e <;> rfl
  | _ => rfl

/-- The same of an initial value, which may be missing. -/
theorem accepts_singleIdentArray_optional (init : Option Expr) :
    singleIdentArray.accepts (Node.ofOption .expr init) = (init.bind Expr.soleIdent?).isSome := by
  cases init with
  | none => rfl
  | some e => exact accepts_singleIdentArray_expr e

/-- The pattern of a number of parameters counts them. -/
theorem accepts_arity (count : Nat) (params : List Name) :
    (arity count).accepts (.list (params.map .binding)) = (params.length == count) := by
  -- a parameter is never absent
  have hall : ∀ n ∈ params.map Node.binding, n.isAbsent = false := by
    intro n hn
    obtain ⟨name, _, rfl⟩ := List.mem_map.mp hn
    rfl
  have h := eachAccepts_present _ count hall
  rw [List.length_map] at h
  exact h

/-- A function expression of `count` parameters, where a statement puts one. -/
def value (count : Nat) : Pattern :=
  node .functionExpression [(.params, arity count)]

/-- A function expression is accepted by the number of its parameters. -/
theorem accepts_value_expr (count : Nat) (e : Expr) :
    (value count).accepts (.expr e) = e.function?.any fun f => f.params.length == count := by
  cases e with
  | function name f =>
    rw [value, accepts_node_of_kind rfl]
    show ((arity count).accepts (.list (f.params.map .binding)) && true) = _
    rw [accepts_arity, Bool.and_true]
    rfl
  | _ => rfl

/-- The same of an initial value, which may be missing. -/
theorem accepts_value_optional (count : Nat) (init : Option Expr) :
    (value count).accepts (Node.ofOption .expr init) =
      (init.bind Expr.function?).any fun f => f.params.length == count := by
  cases init with
  | none => rfl
  | some e => exact accepts_value_expr count e

/-- A declarator whose initial value has a shape. -/
theorem accepts_declarators (p : Pattern) (ds : List Declarator) :
    (Pattern.contains [node .variableDeclarator [(.id, ident), (.init, p)]]).accepts
      (.list (ds.map .declarator)) = ds.any fun d => p.accepts (Node.ofOption .expr d.init) := by
  have hdeclarator (d : Declarator) :
      (node .variableDeclarator [(.id, ident), (.init, p)]).accepts (.declarator d) =
        p.accepts (Node.ofOption .expr d.init) := by
    rw [accepts_node_of_kind rfl]
    show (true && (p.accepts (Node.ofOption .expr d.init) && true)) = _
    rw [Bool.true_and, Bool.and_true]
  rw [accepts]
  show (true && ((ds.map Node.declarator).any _ && true)) = _
  rw [Bool.true_and, Bool.and_true, List.any_map]
  exact congrArg (ds.any ·) (funext hdeclarator)

/-- A declaration has the shape of a function if one of its declarators binds one. -/
theorem accepts_function_declare (count : Nat) (d : Declaration) :
    (function count).accepts (.stmt (.declare d)) =
      d.declarators.any fun x => (x.init.bind Expr.function?).any fun f =>
        f.params.length == count := by
  have h : (function count).accepts (.stmt (.declare d)) =
      d.declarators.any fun x => (value count).accepts (Node.ofOption .expr x.init) := by
    rw [← accepts_declarators]
    show (false || (false || ((_ && true) || false))) = _
    rw [Bool.false_or, Bool.false_or, Bool.and_true, Bool.or_false]
    rfl
  rw [h]
  exact congrArg (d.declarators.any ·) (funext fun x => accepts_value_optional count x.init)

/-- A statement that binds a function of `count` parameters has the shape of one. -/
theorem accepts_function {count : Nat} {s : Stmt} {name : Name} {f : Function}
    (h : (name, f) ∈ s.functionsOfArity count) : (function count).accepts (.stmt s) := by
  obtain ⟨hmem, hcount⟩ := List.mem_filter.mp h
  -- the pattern offers one case for each way to bind a function
  obtain _ | @⟨_, id, _⟩ | @⟨d, _, id, _, hx⟩ := Stmt.mem_functions_iff.mp hmem
  · rw [function, accepts, anyAccepts, accepts_node_of_kind rfl]
    show ((arity count).accepts (.list (f.params.map .binding)) && true || false) = true
    rw [accepts_arity, Bool.and_true, Bool.or_false]
    exact hcount
  · show (false || ((true && (true && ((value count).accepts (.expr (.function id f)) && true)) &&
      true) || (false || false))) = true
    rw [accepts_value_expr]
    simpa [Expr.function?] using hcount
  · rw [accepts_function_declare, List.any_eq_true]
    exact ⟨_, hx, hcount⟩

/-- An alias in a declaration: only one with `var` counts. -/
theorem accepts_aliasing_declare (d : Declaration) :
    aliasing.accepts (.stmt (.declare d)) =
      (d.kind == .functionScoped &&
        d.declarators.any fun x => (x.init.bind Expr.soleIdent?).isSome) := by
  -- the kind is compared by its word, and only `var` is spelled so
  have hkind : (text "var").accepts (.text d.kind.text) = (d.kind == .functionScoped) := by
    cases d.kind <;> rfl
  have hdeclarators := accepts_declarators singleIdentArray d.declarators
  simp only [accepts_singleIdentArray_optional] at hdeclarators
  rw [← hkind, ← hdeclarators]
  show ((_ && (_ && true)) || (false || false)) = _
  rw [Bool.or_false, Bool.or_false, Bool.and_true]
  rfl

end Shape

end Descramble
