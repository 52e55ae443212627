import Descramble.Script.Tree

/-!
# Parts of a tree

A part is an expression or a statement; `Part.inner` lists the parts directly inside one, whatever
lies between them (properties, declarators, clauses). A property of parts that holds
`Part.Everywhere` holds of a part, of the parts inside it and so on.

Main statement: `Part.induction`, a fact about all parts follows from the parts inside each.
-/

namespace Descramble

/-- A part of a script. -/
inductive Part where
  | expr (e : Expr)
  | stmt (s : Stmt)

/-- The parts directly inside a function are its statements. -/
def Function.inner (f : Function) : List Part :=
  f.body.map .stmt

def ArrowBody.inner : ArrowBody → List Part
  | .expr e => [.expr e]
  | .block body => body.map .stmt

/-- The parts directly inside an expression, in the order they are written in. -/
def Expr.inner : Expr → List Part
  | .ident _ | .literal _ | .this => []
  | .array items | .sequence items => items.map .expr
  | .object properties => properties.map (.expr ·.value)
  | .function _ definition => definition.inner
  | .arrow _ body => body.inner
  | .call callee args | .construct callee args => .expr callee :: args.map .expr
  | .member target _ => [.expr target]
  | .index target key => [.expr target, .expr key]
  | .assign _ target value => [.expr target, .expr value]
  | .logical _ left right | .binary _ left right => [.expr left, .expr right]
  | .unary _ arg | .update _ _ arg => [.expr arg]
  | .conditional test yes no => [.expr test, .expr yes, .expr no]

def Declaration.inner (d : Declaration) : List Part :=
  (d.declarators.filterMap Declarator.init).map .expr

def ForStart.inner : ForStart → List Part
  | .declare d => d.inner
  | .expr e => [.expr e]

def SwitchCase.inner (c : SwitchCase) : List Part :=
  c.test.toList.map .expr ++ c.body.map .stmt

def CatchClause.inner (c : CatchClause) : List Part :=
  c.body.map .stmt

/-- The parts directly inside a statement, in the order they are written in. -/
def Stmt.inner : Stmt → List Part
  | .expr e | .raise e => [.expr e]
  | .declare d => d.inner
  | .function _ definition => definition.inner
  | .giveBack value => value.toList.map .expr
  | .ifElse test yes no => .expr test :: .stmt yes :: no.toList.map .stmt
  | .block body => body.map .stmt
  | .forLoop start test step body =>
    start.toList.flatMap ForStart.inner ++ test.toList.map .expr ++ step.toList.map .expr ++
      [.stmt body]
  | .whileLoop test body => [.expr test, .stmt body]
  | .switch subject cases => .expr subject :: cases.flatMap SwitchCase.inner
  | .attempt body handler finalizer =>
    body.map .stmt ++ handler.toList.flatMap CatchClause.inner ++
      (finalizer.getD []).map .stmt
  | .breakOut | .continueLoop | .empty => []

namespace Part

/-- The parts directly inside a part. -/
def inner : Part → List Part
  | .expr e => e.inner
  | .stmt s => s.inner

/-- How large a part is as a term. -/
noncomputable def size : Part → Nat
  | .expr e => sizeOf e
  | .stmt s => sizeOf s

end Part

/-! ## Parts are smaller than what they lie in -/

/-- A statement of a list is smaller than the list. -/
theorem size_lt_of_mem_stmts {body : List Stmt} {part : Part} (h : part ∈ body.map Part.stmt) :
    part.size < sizeOf body := by
  obtain ⟨s, hs, rfl⟩ := List.mem_map.mp h
  exact List.sizeOf_lt_of_mem hs

/-- An expression of a list is smaller than the list. -/
theorem size_lt_of_mem_exprs {items : List Expr} {part : Part}
    (h : part ∈ items.map Part.expr) : part.size < sizeOf items := by
  obtain ⟨e, he, rfl⟩ := List.mem_map.mp h
  exact List.sizeOf_lt_of_mem he

/-- A statement of a function is smaller than the function. -/
theorem size_lt_of_mem_function {f : Function} {part : Part} (h : part ∈ f.inner) :
    part.size < sizeOf f := by
  have hlt := size_lt_of_mem_stmts h
  cases f
  simp only [Function.mk.sizeOf_spec] at hlt ⊢
  omega

/-- An initializer is smaller than the declaration. -/
theorem size_lt_of_mem_declaration {d : Declaration} {part : Part} (h : part ∈ d.inner) :
    part.size < sizeOf d := by
  obtain ⟨e, he, rfl⟩ := List.mem_map.mp h
  obtain ⟨⟨name, init⟩, hmem, hinit⟩ := List.mem_filterMap.mp he
  -- it is smaller than its declarator, and that is one of the list
  have hlt := List.sizeOf_lt_of_mem hmem
  subst hinit
  cases d
  simp only [Part.size, Declarator.mk.sizeOf_spec, Option.some.sizeOf_spec,
    Declaration.mk.sizeOf_spec] at hlt ⊢
  omega

/-- The test and the statements of a case are smaller than the case. -/
theorem size_lt_of_mem_clause {c : SwitchCase} {part : Part} (h : part ∈ c.inner) :
    part.size < sizeOf c := by
  obtain ⟨test, body⟩ := c
  -- the test of the case, which may be missing, or one of its statements
  rcases List.mem_append.mp h with h | h
  · cases test with
    | none => simp at h
    | some test =>
      obtain rfl : part = .expr test := by simpa using h
      simp only [Part.size, SwitchCase.mk.sizeOf_spec, Option.some.sizeOf_spec]
      omega
  · have hlt := size_lt_of_mem_stmts h
    simp only [SwitchCase.mk.sizeOf_spec] at hlt ⊢
    omega

/-- The parts inside an expression are smaller than the expression. -/
theorem size_lt_of_mem_expr {e : Expr} {part : Part} (h : part ∈ e.inner) :
    part.size < sizeOf e := by
  cases e with
  | ident _ | literal _ | this => simp [Expr.inner] at h
  | array items | sequence items =>
    have hlt := size_lt_of_mem_exprs h
    simp only [Expr.array.sizeOf_spec, Expr.sequence.sizeOf_spec]
    omega
  | object properties =>
    obtain ⟨⟨key, value⟩, hmem, rfl⟩ := List.mem_map.mp h
    have hlt := List.sizeOf_lt_of_mem hmem
    simp only [Part.size, Property.mk.sizeOf_spec, Expr.object.sizeOf_spec] at hlt ⊢
    omega
  | function _ definition =>
    have hlt := size_lt_of_mem_function h
    simp only [Expr.function.sizeOf_spec]
    omega
  | arrow _ body =>
    cases body with
    | expr e =>
      obtain rfl := List.mem_singleton.mp h
      simp only [Part.size, Expr.arrow.sizeOf_spec, ArrowBody.expr.sizeOf_spec]
      omega
    | block body =>
      have hlt := size_lt_of_mem_stmts h
      simp only [Expr.arrow.sizeOf_spec, ArrowBody.block.sizeOf_spec]
      omega
  -- what is applied, or one of the arguments
  | call callee args | construct callee args =>
    rcases List.mem_cons.mp h with rfl | h
    · simp only [Part.size, Expr.call.sizeOf_spec, Expr.construct.sizeOf_spec]
      omega
    · have hlt := size_lt_of_mem_exprs h
      simp only [Expr.call.sizeOf_spec, Expr.construct.sizeOf_spec]
      omega
  -- an operand that is a field of the expression itself, of which there are at most three
  | member _ _ | index _ _ | assign _ _ _ | logical _ _ _ | binary _ _ _ | unary _ _
  | update _ _ _ | conditional _ _ _ =>
    simp only [Expr.inner, List.mem_cons, List.not_mem_nil, or_false] at h
    rcases h with rfl | rfl | rfl <;>
      simp only [Part.size, Expr.member.sizeOf_spec, Expr.index.sizeOf_spec,
        Expr.assign.sizeOf_spec, Expr.logical.sizeOf_spec, Expr.binary.sizeOf_spec,
        Expr.unary.sizeOf_spec, Expr.update.sizeOf_spec, Expr.conditional.sizeOf_spec] <;>
      omega

/-- The parts inside a statement are smaller than the statement. -/
theorem size_lt_of_mem_stmt {s : Stmt} {part : Part} (h : part ∈ s.inner) :
    part.size < sizeOf s := by
  cases s with
  | breakOut | continueLoop | empty => simp [Stmt.inner] at h
  | expr e | raise e =>
    obtain rfl := List.mem_singleton.mp h
    simp only [Part.size, Stmt.expr.sizeOf_spec, Stmt.raise.sizeOf_spec]
    omega
  | declare d =>
    have hlt := size_lt_of_mem_declaration h
    simp only [Stmt.declare.sizeOf_spec]
    omega
  | function _ definition =>
    have hlt := size_lt_of_mem_function h
    simp only [Stmt.function.sizeOf_spec]
    omega
  | giveBack value =>
    cases value with
    | none => simp [Stmt.inner] at h
    | some e =>
      obtain rfl : part = .expr e := by simpa [Stmt.inner] using h
      simp only [Part.size, Stmt.giveBack.sizeOf_spec, Option.some.sizeOf_spec]
      omega
  | ifElse test yes no =>
    cases no with
    | none =>
      simp only [Stmt.inner, Option.toList_none, List.map_nil, List.mem_cons, List.not_mem_nil,
        or_false] at h
      rcases h with rfl | rfl <;>
        simp only [Part.size, Stmt.ifElse.sizeOf_spec] <;> omega
    | some no =>
      simp only [Stmt.inner, Option.toList_some, List.map_cons, List.map_nil, List.mem_cons,
        List.not_mem_nil, or_false] at h
      rcases h with rfl | rfl | rfl <;>
        simp only [Part.size, Stmt.ifElse.sizeOf_spec, Option.some.sizeOf_spec] <;> omega
  | block body =>
    have hlt := size_lt_of_mem_stmts h
    simp only [Stmt.block.sizeOf_spec]
    omega
  | forLoop start test step body =>
    simp only [Stmt.inner, List.mem_append, List.mem_singleton] at h
    -- the four fields of a loop, of which only the body is always there
    rcases h with ((h | h) | h) | rfl
    · cases start with
      | none => simp at h
      | some start =>
        rw [Option.toList_some, List.flatMap_singleton] at h
        cases start with
        | declare d =>
          have hlt := size_lt_of_mem_declaration h
          simp only [Stmt.forLoop.sizeOf_spec, Option.some.sizeOf_spec,
            ForStart.declare.sizeOf_spec]
          omega
        | expr e =>
          obtain rfl := List.mem_singleton.mp h
          simp only [Part.size, Stmt.forLoop.sizeOf_spec, Option.some.sizeOf_spec,
            ForStart.expr.sizeOf_spec]
          omega
    · cases test with
      | none => simp at h
      | some e =>
        obtain rfl : part = .expr e := by simpa using h
        simp only [Part.size, Stmt.forLoop.sizeOf_spec, Option.some.sizeOf_spec]
        omega
    · cases step with
      | none => simp at h
      | some e =>
        obtain rfl : part = .expr e := by simpa using h
        simp only [Part.size, Stmt.forLoop.sizeOf_spec, Option.some.sizeOf_spec]
        omega
    · simp only [Part.size, Stmt.forLoop.sizeOf_spec]
      omega
  | whileLoop test body =>
    simp only [Stmt.inner, List.mem_cons, List.not_mem_nil, or_false] at h
    rcases h with rfl | rfl <;>
      simp only [Part.size, Stmt.whileLoop.sizeOf_spec] <;> omega
  | switch subject cases =>
    rcases List.mem_cons.mp h with rfl | h
    · simp only [Part.size, Stmt.switch.sizeOf_spec]
      omega
    -- a part of a case, which is one of the list
    · obtain ⟨c, hc, hpart⟩ := List.mem_flatMap.mp h
      have hlt := size_lt_of_mem_clause hpart
      have := List.sizeOf_lt_of_mem hc
      simp only [Stmt.switch.sizeOf_spec]
      omega
  -- the block, the handler or the last part
  | attempt block handler finalizer =>
    simp only [Stmt.inner, List.mem_append] at h
    rcases h with (h | h) | h
    · have hlt := size_lt_of_mem_stmts h
      simp only [Stmt.attempt.sizeOf_spec]
      omega
    · cases handler with
      | none => simp at h
      | some c =>
        rw [Option.toList_some, List.flatMap_singleton] at h
        have hlt := size_lt_of_mem_stmts h
        cases c
        simp only [Stmt.attempt.sizeOf_spec, Option.some.sizeOf_spec,
          CatchClause.mk.sizeOf_spec]
        simp only at hlt
        omega
    · cases finalizer with
      | none => simp at h
      | some body =>
        have hlt := size_lt_of_mem_stmts h
        simp only [Stmt.attempt.sizeOf_spec, Option.some.sizeOf_spec]
        simp only [Option.getD_some] at hlt
        omega

namespace Part

/-- The parts inside a part are smaller, so recursion on them ends. -/
theorem size_lt_of_mem_inner {part other : Part} (h : other ∈ part.inner) :
    other.size < part.size := by
  cases part with
  | expr e => exact size_lt_of_mem_expr h
  | stmt s => exact size_lt_of_mem_stmt h

/-- A fact about all parts follows from the parts inside each. -/
theorem induction {motive : Part → Prop}
    (step : ∀ part, (∀ other ∈ part.inner, motive other) → motive part) (part : Part) :
    motive part :=
  step part fun other _ => induction step other
-- by the size of the part, since recursion on lists of parts is not structural
termination_by part.size
decreasing_by exact size_lt_of_mem_inner (by assumption)

/-- The same for expressions, from the expressions directly inside each. -/
theorem expr_induction {motive : Expr → Prop}
    (step : ∀ e, (∀ other, .expr other ∈ e.inner → motive other) → motive e) (e : Expr) :
    motive e := by
  -- a part is an expression or not, so the induction is over all parts and speaks of some
  have h : ∀ part : Part, ∀ e, part = .expr e → motive e := by
    intro part
    induction part using Part.induction with
    | step part ih =>
      rintro e rfl
      exact step e fun other hmem => ih (.expr other) hmem other rfl
  exact h (.expr e) e rfl

/-- A property of a part, of the parts inside it and so on. -/
inductive Everywhere (P : Part → Prop) : Part → Prop where
  | intro {part : Part} (here : P part) (inside : ∀ other ∈ part.inner, Everywhere P other) :
      Everywhere P part

variable {P Q : Part → Prop} {part : Part}

/-- What holds everywhere holds of the part itself. -/
theorem Everywhere.here (h : Everywhere P part) : P part := by
  cases h with
  | intro here _ => exact here

/-- What holds everywhere holds everywhere in each part inside. -/
theorem Everywhere.inside (h : Everywhere P part) {other : Part} (hmem : other ∈ part.inner) :
    Everywhere P other := by
  cases h with
  | intro _ inside => exact inside other hmem

/-- What follows from a property at every part holds everywhere with it. -/
theorem Everywhere.mono (h : Everywhere P part) (himp : ∀ part, P part → Q part) :
    Everywhere Q part := by
  induction part using Part.induction with
  | step part ih =>
    exact .intro (himp part h.here) fun other hmem => ih other hmem (h.inside hmem)

/-- Checks a property of a part, of the parts inside it and so on. No part may lie deeper than
    `depth`. -/
def checks (P : Part → Prop) [DecidablePred P] : Nat → Part → Bool
  | 0, _ => false
  | depth + 1, part => decide (P part) && part.inner.all (checks P depth)

/-- What has been checked as deep as a part goes holds everywhere. -/
theorem everywhere_of_checks [DecidablePred P] {depth : Nat} (h : checks P depth part = true) :
    Everywhere P part := by
  -- on the depth that is left; at zero nothing has been checked
  induction depth generalizing part with
  | zero => cases h
  | succ depth ih =>
    rw [checks, Bool.and_eq_true, decide_eq_true_iff, List.all_eq_true] at h
    exact .intro h.1 fun other hmem => ih (h.2 other hmem)

end Part

end Descramble
