import Descramble.Proofs.Evaluation.Ending
import Descramble.Proofs.Evaluation.Native

/-!
# Scripts keep a store well-scoped

A script that spares a name keeps every store well-scoped for it, whatever functions it calls: those
are in the store and spare the name too. And a statement ends in no jump but those that its text
leads out of it.

Main statements: `eval_keeps`, `run_keeps` and `enter_keeps`, each for every script; and
`Step.Ends.of_meets`, what a step keeps holds when the step has come to its end.
-/

namespace Descramble

namespace Action

variable {name : Name} {bound : Nat} {c : Context}

/-! ## Expressions -/

/-- A function that is made spares the name if its text does. -/
theorem makeFunction_keeps {own : Option Name} {definition : Function} (hown : name ∉ own)
    (hdef : definition.Spares name) (hc : c.scope.index < bound) :
    (makeFunction c own definition).Keeps name bound fun _ => True := by
  cases own with
  | none => exact .makeObject (by rintro _ ⟨⟩; exact ⟨hdef, hc⟩)
  | some own =>
    have hne : name ≠ own := fun h => hown (h ▸ rfl)
    refine .bind_makeScope hc fun ref hle => ?_
    refine .bind (.makeObject (by rintro _ ⟨⟩; exact ⟨hdef, Nat.lt_succ_self _⟩)) fun f _ => ?_
    exact .bind (.modify fun s hs => hs.leads_bind hne ref f) fun _ _ => .pure trivial

/-- A place that a script writes to which spares the name. -/
theorem setPlace_keeps (v : Value) {place : Place} (hplace : place ≠ .variable name) :
    (setPlace c v place).Keeps name bound fun _ => True := by
  cases place with
  | «variable» other =>
    have hne : name ≠ other := fun h => hplace (h ▸ rfl)
    exact .modify fun s hs => hs.leads_assign hne _ v
  | property target key => exact (setProperty_scopeless _ _ _).keeps

section

variable {es : List Expr} (hes : ∀ e ∈ es, (eval c e).Keeps name bound fun _ => True)

include hes

/-- The values of a list are computed one after the other. -/
theorem evalAll_keeps : (evalAll c es).Keeps name bound fun _ => True := by
  induction es with
  | nil => exact .pure trivial
  | cons e es ih =>
    rw [List.forall_mem_cons] at hes
    exact .bind hes.1 fun _ _ => .bind (ih hes.2) fun _ _ => .pure trivial

/-- The same where only the last value is kept. -/
theorem evalLast_keeps (last : Value) : (evalLast c last es).Keeps name bound fun _ => True := by
  induction es generalizing last with
  | nil => exact .pure trivial
  | cons e es ih =>
    rw [List.forall_mem_cons] at hes
    exact .bind hes.1 fun v _ => ih hes.2 v

end

/-- The values of properties are computed in the order they are written in. -/
theorem evalProperties_keeps {properties : List Property} (made : Bindings)
    (h : ∀ property ∈ properties, (eval c property.value).Keeps name bound fun _ => True) :
    (evalProperties c made properties).Keeps name bound fun _ => True := by
  induction properties generalizing made with
  | nil => exact .pure trivial
  | cons property rest ih =>
    obtain ⟨key, value⟩ := property
    rw [List.forall_mem_cons] at h
    exact .bind h.1 fun v _ => ih _ h.2

/-- The place that an expression names, unless it is the name itself. -/
theorem evalPlace_keeps {e : Expr} (hne : e ≠ .ident name)
    (h : ∀ other, .expr other ∈ e.inner → (eval c other).Keeps name bound fun _ => True) :
    (evalPlace c e).Keeps name bound fun place => place ≠ .variable name := by
  cases e with
  | ident other =>
    refine .pure fun heq => hne ?_
    cases heq
    rfl
  | member object key =>
    exact .bind (h object (by simp [Expr.inner])) fun _ _ => .pure (by simp)
  | index object key =>
    refine .bind (h object (by simp [Expr.inner])) fun _ _ => ?_
    refine .bind (h key (by simp [Expr.inner])) fun _ _ => ?_
    exact .bind (.read _) fun _ _ => .pure (by simp)
  | _ => exact .fail _ _

/-- Evaluating an expression that spares a name keeps a store well-scoped for it. -/
theorem eval_keeps {e : Expr} (he : Part.Everywhere (Part.Spares name) (.expr e))
    (hc : c.scope.index < bound) : (eval c e).Keeps name bound fun _ => True := by
  -- a call of a member evaluates what the member is of, so the induction carries the inner parts
  suffices h : (eval c e).Keeps name bound (fun _ => True) ∧
      ∀ other, .expr other ∈ e.inner → (eval c other).Keeps name bound fun _ => True from h.1
  induction e using Part.expr_induction with
  | step e ih =>
    have hinner : ∀ other, .expr other ∈ e.inner →
        (eval c other).Keeps name bound fun _ => True :=
      fun other hmem => (ih other hmem (he.inside hmem)).1
    refine ⟨?_, hinner⟩
    have hhere : name ∉ e.bound := he.here
    cases e with
    | ident other => exact (getVariable_scopeless c other).keeps
    | literal l => exact .pure trivial
    | this => exact .pure trivial
    | array items =>
      exact .bind (evalAll_keeps fun e h => hinner e (List.mem_map_of_mem h)) fun _ _ => .makeList _
    | object properties =>
      have hvalues := evalProperties_keeps (c := c) .empty fun property h =>
        hinner property.value (List.mem_map_of_mem h)
      exact .bind hvalues fun _ _ => .makePlain
    | function own definition =>
      rw [Expr.bound, List.mem_append, not_or, Option.mem_toList] at hhere
      exact makeFunction_keeps hhere.1 ⟨hhere.2, fun part h => he.inside h⟩ hc
    | arrow params body =>
      exact .makeObject (by
        rintro _ ⟨⟩
        exact ⟨⟨hhere, fun part h => he.inside h⟩, hc⟩)
    | call callee args =>
      have hargs := evalAll_keeps fun e h =>
        hinner e (List.mem_cons_of_mem _ (List.mem_map_of_mem h))
      have hcallee := ih callee (by simp [Expr.inner])
        (he.inside (by simp [Part.inner, Expr.inner]))
      -- a method is called on what it is a member of, so that is evaluated by itself
      cases callee with
      | member object key =>
        refine .bind (hcallee.2 object (by simp [Expr.inner])) fun target _ => ?_
        refine .bind ((getProperty_scopeless _ _).keeps) fun f _ => ?_
        exact .bind hargs fun _ _ => (callValue_scopeless _ _ _ _).keeps
      | index object key =>
        refine .bind (hcallee.2 object (by simp [Expr.inner])) fun target _ => ?_
        refine .bind (hcallee.2 key (by simp [Expr.inner])) fun key _ => ?_
        refine .bind ((getIndex_scopeless _ _).keeps) fun f _ => ?_
        exact .bind hargs fun _ _ => (callValue_scopeless _ _ _ _).keeps
      | _ => exact .bind hcallee.1 fun f _ => .bind hargs fun _ _ => (callValue_scopeless _ _ _ _).keeps
    | construct callee args =>
      have hargs := evalAll_keeps fun e h =>
        hinner e (List.mem_cons_of_mem _ (List.mem_map_of_mem h))
      refine .bind (hinner callee (by simp [Expr.inner])) fun f _ => ?_
      exact .bind hargs fun _ _ => (construct_scopeless _ _).keeps
    | member object key =>
      exact .bind (hinner object (by simp [Expr.inner])) fun _ _ => (getProperty_scopeless _ _).keeps
    | index object key =>
      refine .bind (hinner object (by simp [Expr.inner])) fun _ _ => ?_
      exact .bind (hinner key (by simp [Expr.inner])) fun _ _ => (getIndex_scopeless _ _).keeps
    | assign op target value =>
      -- a target that is the bare name would be one of the names written to
      have hplace := evalPlace_keeps (e := target) (by
        rintro rfl
        exact hhere (by simp [Expr.bound, Expr.ident?]))
        (ih target (by simp [Expr.inner]) (he.inside (by simp [Part.inner, Expr.inner]))).2
      have hvalue := hinner value (by simp [Expr.inner])
      cases op with
      | none =>
        refine .bind hplace fun place hne => .bind hvalue fun v _ => ?_
        exact .bind (setPlace_keeps v hne) fun _ _ => .pure trivial
      | some op =>
        refine .bind hplace fun place hne => .bind ((getPlace_scopeless c place).keeps) fun _ _ => ?_
        refine .bind hvalue fun _ _ => .bind (.read _) fun v _ => ?_
        exact .bind (setPlace_keeps v hne) fun _ _ => .pure trivial
    | logical op left right =>
      refine .bind (hinner left (by simp [Expr.inner])) fun v _ => ?_
      split
      · exact .pure trivial
      · exact hinner right (by simp [Expr.inner])
    | binary op left right =>
      refine .bind (hinner left (by simp [Expr.inner])) fun _ _ => ?_
      exact .bind (hinner right (by simp [Expr.inner])) fun _ _ => (binary_scopeless _ _ _).keeps
    | unary op arg =>
      have harg := hinner arg (by simp [Expr.inner])
      cases op with
      | typeOf =>
        cases arg with
        -- a variable that is not there has a type too, so it is looked up without a failure
        | ident other => exact .bind (.read _) fun _ _ => .pure trivial
        | _ => exact .bind harg fun _ _ => (unary_scopeless _ _).keeps
      | delete =>
        have hplace := fun hne : arg ≠ .ident name => evalPlace_keeps hne
          (ih arg (by simp [Expr.inner]) (he.inside (by simp [Part.inner, Expr.inner]))).2
        -- only properties can be deleted; a variable is left alone
        cases arg with
        | member _ _ | index _ _ =>
          refine .bind (hplace (by simp)) fun place _ => ?_
          exact .bind ((erasePlace_scopeless place).keeps) fun _ _ => .pure trivial
        | _ => exact .pure trivial
      | _ => exact .bind harg fun _ _ => (unary_scopeless _ _).keeps
    | update op before arg =>
      -- again a target, like the left side of an assignment
      have hplace := evalPlace_keeps (e := arg) (by
        rintro rfl
        exact hhere (by simp [Expr.bound, Expr.ident?]))
        (ih arg (by simp [Expr.inner]) (he.inside (by simp [Part.inner, Expr.inner]))).2
      refine .bind hplace fun place hne => .bind ((getPlace_scopeless c place).keeps) fun _ _ => ?_
      refine .bind (.read _) fun old _ => ?_
      exact .bind (setPlace_keeps _ hne) fun _ _ => .pure trivial
    | conditional test yes no =>
      refine .bind (hinner test (by simp [Expr.inner])) fun v _ => ?_
      split
      · exact hinner yes (by simp [Expr.inner])
      · exact hinner no (by simp [Expr.inner])
    | sequence items => exact evalLast_keeps (fun e h => hinner e (List.mem_map_of_mem h)) _

/-! ## Declarations -/

/-- Functions are declared under their names, which are not the one that is spared. -/
theorem declareFunctions_keeps {body : List Stmt}
    (hbody : ∀ s ∈ body, Part.Everywhere (Part.Spares name) (.stmt s))
    (hc : c.scope.index < bound) :
    (declareFunctions c body).Keeps name bound fun _ => True := by
  induction body with
  | nil => exact .pure trivial
  | cons s rest ih =>
    rw [List.forall_mem_cons] at hbody
    have hrest := ih hbody.2
    -- only declarations of functions do anything here; other statements wait for their turn
    cases s with
    | function own definition =>
      have hhere : name ∉ own :: definition.params := hbody.1.here
      rw [List.mem_cons, not_or] at hhere
      refine .bind (.makeObject (by
        rintro _ ⟨⟩
        exact ⟨⟨hhere.2, fun part h => hbody.1.inside h⟩, hc⟩)) fun f _ => ?_
      exact .bind (.modify fun s hs => hs.leads_define hhere.1 c.scope f) fun _ _ => hrest
    | _ => exact hrest

/-- Names are declared that are not the one that is spared. -/
theorem declareNames_keeps {names : List Name} (hnames : name ∉ names) :
    (declareNames c names).Keeps name bound fun _ => True := by
  induction names with
  | nil => exact .pure trivial
  | cons other names ih =>
    rw [List.mem_cons, not_or] at hnames
    exact .bind (.modify fun s hs => hs.leads_declare hnames.1 c.scope) fun _ _ => ih hnames.2

/-- Declarators are run one after the other. -/
theorem runDeclarators_keeps (kind : DeclarationKind) {declarators : List Declarator}
    (h : ∀ d ∈ declarators, name ≠ d.name ∧
      ∀ e ∈ d.init, (eval c e).Keeps name bound fun _ => True) :
    (runDeclarators c kind declarators).Keeps name bound fun _ => True := by
  induction declarators with
  | nil => exact .pure trivial
  | cons d rest ih =>
    obtain ⟨other, init⟩ := d
    rw [List.forall_mem_cons] at h
    have hrest := ih h.2
    obtain ⟨hne, hinit⟩ := h.1
    cases init with
    | none =>
      -- a `var` without a value keeps what the name had when it was hoisted
      cases kind with
      | functionScoped => exact hrest
      | _ =>
        exact .bind (.modify fun s hs => hs.leads_define hne c.scope .undefined) fun _ _ => hrest
    | some e =>
      have hvalue := hinit e rfl
      cases kind with
      | functionScoped =>
        refine .bind hvalue fun v _ => ?_
        exact .bind (.modify fun s hs => hs.leads_assign hne c.scope v) fun _ _ => hrest
      | _ =>
        refine .bind hvalue fun v _ => ?_
        exact .bind (.modify fun s hs => hs.leads_define hne c.scope v) fun _ _ => hrest

/-- A declaration binds its names and no other. -/
theorem runDeclaration_keeps {d : Declaration} (hnames : name ∉ d.names)
    (hinits : ∀ part ∈ d.inner, Part.Everywhere (Part.Spares name) part)
    (hc : c.scope.index < bound) : (runDeclaration c d).Keeps name bound fun _ => True := by
  refine runDeclarators_keeps d.kind fun declarator hmem => ⟨?_, fun e he => ?_⟩
  · rintro rfl
    exact hnames (List.mem_map_of_mem hmem)
  · have hpart : .expr e ∈ d.inner :=
      List.mem_map_of_mem (List.mem_filterMap.mpr ⟨declarator, hmem, he⟩)
    exact eval_keeps (hinits _ hpart) hc

/-- An expression that is missing does nothing. -/
theorem evalOptional_keeps {e : Option Expr}
    (he : ∀ e' ∈ e, Part.Everywhere (Part.Spares name) (.expr e')) (hc : c.scope.index < bound) :
    (evalOptional c e).Keeps name bound fun _ => True := by
  cases e with
  | none => exact .pure trivial
  | some e => exact eval_keeps (he e rfl) hc

/-- What a loop begins with may be missing, a declaration or an expression. -/
theorem runStart_keeps {start : Option ForStart} (hnames : ∀ s ∈ start, name ∉ s.bound)
    (hparts : ∀ s ∈ start, ∀ part ∈ s.inner, Part.Everywhere (Part.Spares name) part)
    (hc : c.scope.index < bound) : (runStart c start).Keeps name bound fun _ => True := by
  cases start with
  | none => exact .pure trivial
  | some start =>
    have hstart := hparts start rfl
    cases start with
    | declare d => exact runDeclaration_keeps (hnames _ rfl) hstart hc
    | expr e =>
      have hvalue := eval_keeps (hstart (.expr e) (by simp [ForStart.inner])) hc
      exact .bind hvalue fun _ _ => .pure trivial

/-- Looking for a case computes the tests, one after the other. -/
theorem findCase_keeps (subject : Value) (place : Nat) {cases : List SwitchCase}
    (h : ∀ clause ∈ cases, ∀ e ∈ clause.test, (eval c e).Keeps name bound fun _ => True) :
    (findCase c subject place cases).Keeps name bound fun _ => True := by
  -- the place of the case counts up along the list
  induction cases generalizing place with
  | nil => exact .pure trivial
  | cons clause rest ih =>
    obtain ⟨test, body⟩ := clause
    rw [List.forall_mem_cons] at h
    cases test with
    | none => exact ih _ h.2
    | some test =>
      refine .bind (h.1 test rfl) fun v _ => ?_
      split
      · exact .pure trivial
      · exact ih _ h.2

/-! ## Statements -/

/-- A list of statements ends in no jump but those that lead out of one of them. -/
theorem runAll_keeps {body : List Stmt}
    (h : ∀ s ∈ body, (run c s).Keeps name bound (Completion.Within s.jumps)) :
    (runAll c body).Keeps name bound (Completion.Within (Stmt.jumpsAll body)) := by
  induction body with
  | nil => exact .pure trivial
  | cons s rest ih =>
    rw [List.forall_mem_cons] at h
    refine .bind h.1 fun completion hwithin => ?_
    -- the first statement that does not end normally decides how the list ends
    split
    · exact (ih h.2).mono fun _ hrest => hrest.mono (by simp [Stmt.jumpsAll])
    · exact .pure (hwithin.mono (by simp [Stmt.jumpsAll]))

section

variable {body : List Stmt} (hbody : ∀ s ∈ body, Part.Everywhere (Part.Spares name) (.stmt s))
  (hrun : ∀ s ∈ body, ∀ (c : Context) (bound : Nat), c.scope.index < bound →
    (run c s).Keeps name bound (Completion.Within s.jumps))

include hbody hrun

/-- The statements of a block, where its functions have been declared. -/
theorem runDeclared_keeps (hc : c.scope.index < bound) :
    (do declareFunctions c body; runAll c body : Action Completion).Keeps name bound
      (Completion.Within (Stmt.jumpsAll body)) :=
  .bind (declareFunctions_keeps hbody hc) fun _ _ =>
    runAll_keeps fun s hs => hrun s hs c bound hc

/-- A block, in a scope of its own. -/
theorem runBlock_keeps (hc : c.scope.index < bound) :
    (do let inner ← makeBlock c
        declareFunctions inner body
        runAll inner body : Action Completion).Keeps name bound
      (Completion.Within (Stmt.jumpsAll body)) :=
  .bind_makeBlock hc fun _ _ => runDeclared_keeps hbody hrun (Nat.lt_succ_self _)

end

/-- A `switch` takes up the jumps out of itself. -/
theorem runCases_keeps (start : Nat) {cases : List SwitchCase}
    (hbodies : ∀ clause ∈ cases, ∀ s ∈ clause.body, Part.Everywhere (Part.Spares name) (.stmt s))
    (hrun : ∀ clause ∈ cases, ∀ s ∈ clause.body,
      (run c s).Keeps name bound (Completion.Within s.jumps)) (hc : c.scope.index < bound) :
    (runCases c start cases).Keeps name bound
      (Completion.Within ((Stmt.jumpsCases cases).filter (· ≠ .breakOut))) := by
  induction cases generalizing start with
  | nil => exact .pure trivial
  | cons clause rest ih =>
    obtain ⟨test, body⟩ := clause
    rw [List.forall_mem_cons] at hbodies hrun
    have hsub : (Stmt.jumpsCases rest).filter (· ≠ .breakOut) ⊆
        (Stmt.jumpsCases (⟨test, body⟩ :: rest)).filter (· ≠ .breakOut) :=
      List.filter_subset _ (by simp [Stmt.jumpsCases])
    have hrest := fun start => (ih start hbodies.2 hrun.2).mono fun _ h => h.mono hsub
    -- the cases before the one that was found are passed over
    cases start with
    | succ start => exact hrest start
    | zero =>
      refine .bind (declareFunctions_keeps hbodies.1 hc) fun _ _ => ?_
      refine .bind (runAll_keeps hrun.1) fun completion hwithin => ?_
      -- a `break` ends the `switch`, any other jump leads out of it
      cases completion with
      | normal => exact hrest 0
      | broke => exact .pure trivial
      | gaveBack v => exact .pure (List.mem_filter.mpr ⟨List.mem_append_left _ hwithin, rfl⟩)
      | continued => exact .pure (List.mem_filter.mpr ⟨List.mem_append_left _ hwithin, rfl⟩)

/-- What comes after the handler of a `try` statement, whether that has run or not. -/
theorem runCatch_keeps {jumps : List Jump} {result : Except Fault Completion}
    {handler : Option CatchClause} (hresult : ∀ completion, result = .ok completion →
      completion.Within jumps)
    (hnames : ∀ clause ∈ handler, name ∉ clause.param)
    (hbody : ∀ clause ∈ handler, ∀ s ∈ clause.body, Part.Everywhere (Part.Spares name) (.stmt s))
    (hrun : ∀ clause ∈ handler, ∀ s ∈ clause.body, ∀ (c : Context) (bound : Nat),
      c.scope.index < bound → (run c s).Keeps name bound (Completion.Within s.jumps))
    (hc : c.scope.index < bound) :
    (runCatch c result handler).Keeps name bound
      (Completion.Within (jumps ++ Stmt.jumpsCatch handler)) := by
  have hold : (resolve result).Keeps name bound
      (Completion.Within (jumps ++ Stmt.jumpsCatch handler)) :=
    .resolve fun completion h => (hresult completion h).mono (by simp)
  cases handler with
  | none => exact hold
  | some clause =>
    obtain ⟨param, body⟩ := clause
    -- the handler runs after a throw only; any other result stays as it is
    rcases result with (thrown | why) | completion
    case error.fatal => exact hold
    case ok => exact hold
    -- the handler has a scope of its own, which may bind what was thrown
    refine .bind_makeBlock hc fun ref _ => ?_
    have hdeclared := runDeclared_keeps (c := { c with scope := ref }) (hbody _ rfl) (hrun _ rfl)
      (Nat.lt_succ_self _)
    have hkept := hdeclared.mono fun _ h =>
      h.mono (show _ ⊆ jumps ++ Stmt.jumpsCatch (some ⟨param, body⟩) by simp [Stmt.jumpsCatch])
    -- a handler without a parameter binds nothing
    cases param with
    | none => exact hkept
    | some param =>
      have hne : name ≠ param := fun h => hnames _ rfl (h ▸ rfl)
      exact .bind (.modify fun s hs => hs.leads_bind hne ref thrown) fun _ _ => hkept

/-- What comes after the last part of a `try` statement, which may replace what there was before. -/
theorem runFinally_keeps {jumps : List Jump} {result : Except Fault Completion}
    {finalizer : Option (List Stmt)} (hresult : ∀ completion, result = .ok completion →
      completion.Within jumps)
    (hbody : ∀ body ∈ finalizer, ∀ s ∈ body, Part.Everywhere (Part.Spares name) (.stmt s))
    (hrun : ∀ body ∈ finalizer, ∀ s ∈ body, ∀ (c : Context) (bound : Nat),
      c.scope.index < bound → (run c s).Keeps name bound (Completion.Within s.jumps))
    (hc : c.scope.index < bound) :
    (runFinally c result finalizer).Keeps name bound
      (Completion.Within (jumps ++ Stmt.jumpsFinally finalizer)) := by
  have hold : (resolve result).Keeps name bound
      (Completion.Within (jumps ++ Stmt.jumpsFinally finalizer)) :=
    .resolve fun completion h => (hresult completion h).mono (by simp)
  cases finalizer with
  | none => exact hold
  | some body =>
    unfold runFinally
    split
    -- where a run comes to nothing, its last parts are left out
    · exact .fault _
    · refine .bind_makeBlock hc fun ref hle => ?_
      have hdeclare := declareFunctions_keeps (c := { c with scope := ref }) (hbody _ rfl)
        (Nat.lt_succ_self ref.index)
      have hall := runAll_keeps fun s hs =>
        hrun _ rfl s hs { c with scope := ref } (ref.index + 1) (Nat.lt_succ_self _)
      refine .bind hdeclare fun _ _ => .bind hall fun completion hwithin => ?_
      -- the last part hides the result before it only if it ends in a jump
      split
      · exact hold.of_le (Nat.le_succ_of_le hle)
      · exact .pure (hwithin.mono (by simp [Stmt.jumpsFinally]))

/-- A statement that spares a name keeps a store well-scoped for it, and ends in no jump but those
    that lead out of it. -/
theorem run_keeps {s : Stmt} (hs : Part.Everywhere (Part.Spares name) (.stmt s))
    (hc : c.scope.index < bound) :
    (run c s).Keeps name bound (Completion.Within s.jumps) := by
  -- statements inside run in scopes made for them, so the induction is for every context
  induction s using Part.stmt_induction generalizing c bound with
  | step s ih =>
    have hinner : ∀ other, .stmt other ∈ s.inner → ∀ (c : Context) (bound : Nat),
        c.scope.index < bound → (run c other).Keeps name bound (Completion.Within other.jumps) :=
      fun other hmem c bound hc => ih other hmem (hs.inside hmem) hc
    have hvalue : ∀ e, .expr e ∈ s.inner → (eval c e).Keeps name bound fun _ => True :=
      fun e hmem => eval_keeps (hs.inside hmem) hc
    have hhere : name ∉ s.bound := hs.here
    cases s with
    | expr e => exact .bind (hvalue e (by simp [Stmt.inner])) fun _ _ => .pure trivial
    | declare d =>
      have hd := runDeclaration_keeps hhere (fun part h => hs.inside h) hc
      exact .bind hd fun _ _ => .pure trivial
    | function own definition => exact .pure trivial
    | giveBack value =>
      have hkeeps := evalOptional_keeps (e := value)
        (fun e h => hs.inside (by simpa [Part.inner, Stmt.inner] using h)) hc
      exact .bind hkeeps fun v _ => .pure (by simp [Completion.Within, Stmt.jumps])
    -- each branch leads out of the statement as it leads out of itself
    | ifElse test yes no =>
      have hyes := hinner yes (by simp [Stmt.inner]) c bound hc
      refine .bind (hvalue test (by simp [Stmt.inner])) fun v _ => ?_
      cases no with
      | none =>
        split
        · exact hyes
        · exact .pure trivial
      | some no =>
        have hno := hinner no (by simp [Stmt.inner]) c bound hc
        split
        · exact hyes.mono fun _ h => h.mono (by simp [Stmt.jumps])
        · exact hno.mono fun _ h => h.mono (by simp [Stmt.jumps])
    | block body =>
      exact runBlock_keeps (fun s h => hs.inside (List.mem_map_of_mem h))
        (fun s h => hinner s (List.mem_map_of_mem h)) hc
    | forLoop start test step body =>
      refine .bind_makeBlock hc fun ref _ => ?_
      have hnames : ∀ s ∈ start, name ∉ s.bound := by
        rintro start ⟨⟩
        exact hhere
      have hstart := runStart_keeps (c := { c with scope := ref }) hnames
        (fun start h part hpart => hs.inside (by
          simp only [Part.inner, Stmt.inner, List.mem_append]
          exact .inl (.inl (.inl (List.mem_flatMap.mpr ⟨start, by simpa using h, hpart⟩)))))
        (Nat.lt_succ_self _)
      -- the loop itself is a request: its turns are taken by whoever answers it
      refine .bind hstart fun _ _ => .request ?_
      exact
        { scope_lt := Nat.lt_succ_self _
          test := fun e h => hs.inside (by simp_all [Part.inner, Stmt.inner])
          step := fun e h => hs.inside (by simp_all [Part.inner, Stmt.inner])
          body := hs.inside (by simp [Part.inner, Stmt.inner]) }
    | whileLoop test body =>
      refine .request ?_
      exact
        { scope_lt := hc
          test := by
            rintro e ⟨⟩
            exact hs.inside (by simp [Part.inner, Stmt.inner])
          step := by simp
          body := hs.inside (by simp [Part.inner, Stmt.inner]) }
    | switch subject cases =>
      have hmem : ∀ clause ∈ cases, ∀ part ∈ clause.inner,
          part ∈ (Stmt.switch subject cases).inner :=
        fun clause h part hpart => List.mem_cons_of_mem _ (List.mem_flatMap.mpr ⟨clause, h, hpart⟩)
      refine .bind (hvalue subject (by simp [Stmt.inner])) fun v _ => ?_
      refine .bind (findCase_keeps v 0 fun clause h e he => hvalue e (hmem clause h _ ?_))
        fun found _ => ?_
      · simp_all [SwitchCase.inner]
      · split
        · exact .pure trivial
        · have hbody : ∀ clause ∈ cases, ∀ s ∈ clause.body,
              .stmt s ∈ (Stmt.switch subject cases).inner := fun clause h s hs =>
            hmem clause h _ (List.mem_append_right _ (List.mem_map_of_mem hs))
          refine .bind_makeBlock hc fun ref _ => ?_
          exact runCases_keeps _ (fun clause h s hmem => hs.inside (hbody clause h s hmem))
            (fun clause h s hmem => hinner s (hbody clause h s hmem) _ _ (Nat.lt_succ_self _))
            (Nat.lt_succ_self _)
    | attempt body handler finalizer =>
      have hblock : ∀ s ∈ body, .stmt s ∈ (Stmt.attempt body handler finalizer).inner :=
        fun s h => by simp [Stmt.inner, h]
      have hcatch : ∀ clause ∈ handler, ∀ s ∈ clause.body,
          .stmt s ∈ (Stmt.attempt body handler finalizer).inner := by
        rintro clause ⟨⟩ s h
        simp [Stmt.inner, CatchClause.inner, h]
      have hfinally : ∀ last ∈ finalizer, ∀ s ∈ last,
          .stmt s ∈ (Stmt.attempt body handler finalizer).inner := by
        rintro last ⟨⟩ s h
        simp [Stmt.inner, h]
      have htry := runBlock_keeps (fun s h => hs.inside (hblock s h))
        (fun s h => hinner s (hblock s h)) hc
      have hparam : ∀ clause ∈ handler, name ∉ clause.param := by
        rintro clause ⟨⟩ hparam
        exact hhere (Option.mem_toList.mpr hparam)
      -- block, handler and last part in turn; each may change how the statement ends
      have htried := htry.handle fun result hresult =>
        runCatch_keeps hresult hparam (fun clause h s hmem => hs.inside (hcatch clause h s hmem))
          (fun clause h s hmem => hinner s (hcatch clause h s hmem)) hc
      exact htried.handle fun result hresult =>
        runFinally_keeps hresult (fun last h s hmem => hs.inside (hfinally last h s hmem))
          (fun last h s hmem => hinner s (hfinally last h s hmem)) hc
    | raise e => exact .bind (hvalue e (by simp [Stmt.inner])) fun v _ => .fault _
    | breakOut | continueLoop => exact .pure (by simp [Completion.Within, Stmt.jumps])
    | empty => exact .pure trivial

/-! ## Functions and loops -/

/-- The statements of a body or a program. -/
theorem runBody_keeps {body : List Stmt}
    (hbody : ∀ s ∈ body, Part.Everywhere (Part.Spares name) (.stmt s))
    (hc : c.scope.index < bound) :
    (runBody c body).Keeps name bound (Completion.Within (Stmt.jumpsAll body)) :=
  .bind (declareNames_keeps (Stmt.not_mem_hoistedAll hbody)) fun _ _ =>
    runDeclared_keeps hbody (fun s hs _ _ hc => run_keeps (hbody s hs) hc) hc

/-- A turn of a loop asks for another, or ends in no jump but those that lead out of the loop. -/
theorem turn_keeps {l : Loop} (hl : l.Fits name bound) :
    (turn l).Keeps name bound fun completion =>
      completion = .continued ∨ completion.Within l.jumps := by
  -- the test, then the body and the step if there is one more turn
  refine .bind (p := fun _ => True) ?_ fun goesOn _ => ?_
  · cases htest : l.test with
    | none => exact .pure trivial
    | some test =>
      exact .bind (eval_keeps (hl.test test htest) hl.scope_lt) fun _ _ => .pure trivial
  · split
    · refine .bind (run_keeps hl.body hl.scope_lt) fun completion hwithin => ?_
      -- a `continue` goes on with the step, a `break` ends the loop, a `return` leads out of it
      cases completion with
      | normal | continued =>
        exact .bind (evalOptional_keeps hl.step hl.scope_lt) fun _ _ => .pure (.inl rfl)
      | broke => exact .pure (.inr trivial)
      | gaveBack v => exact .pure (.inr (List.mem_filter.mpr ⟨hwithin, rfl⟩))
    · exact .pure (.inr trivial)

/-- Entering a function that fits keeps a store well-scoped. A name other than `arguments` is not
    bound by that. -/
theorem enter_keeps (hargs : name ≠ "arguments") {f : Callable} (hf : f.Fits name bound)
    (this : Value) (args : List Value) : (enter f this args).Keeps name bound fun _ => True := by
  cases f with
  | native n => exact .bind ((runNative_scopeless n this args).keeps) fun _ _ => .pure trivial
  | closure definition scope =>
    obtain ⟨⟨hparams, hbody⟩, hscope⟩ := hf
    refine .bind_makeScope hscope fun ref _ => ?_
    refine .bind (.modify fun s hs => hs.leads_bindParams ref hparams args) fun _ _ => ?_
    refine .bind (.makeList args) fun list _ => ?_
    refine .bind (.modify fun s hs => hs.leads_bindIfNew hargs ref list) fun _ _ => ?_
    exact .any (runBody_keeps (fun s h => hbody _ (List.mem_map_of_mem h))
      (Nat.lt_succ_self ref.index))
  | arrow params body scope that =>
    obtain ⟨⟨hparams, hbody⟩, hscope⟩ := hf
    refine .bind_makeScope hscope fun ref _ => ?_
    refine .bind (.modify fun s hs => hs.leads_bindParams ref hparams args) fun _ _ => ?_
    cases body with
    | expr e =>
      have hvalue := eval_keeps (c := ⟨ref, that⟩) (hbody (.expr e) (List.mem_singleton_self _))
        (Nat.lt_succ_self _)
      exact .bind hvalue fun _ _ => .pure trivial
    | block body =>
      exact .any (runBody_keeps (c := ⟨ref, that⟩) (fun s h => hbody _ (List.mem_map_of_mem h))
        (Nat.lt_succ_self ref.index))

end Action

/-! ## What a step keeps -/

/-- What a step keeps holds when it has come to its end: the store is well-scoped, whether it ended
    in a value or in a fault, and a value is as it should be. -/
theorem Step.Ends.of_meets {α : Type} {name : Name} (hargs : name ≠ "arguments") {d d' : Nat}
    {x : Step α} {r : Except Fault α} {s' : Store} (hends : x.Ends d r s' d')
    {first : Store} {post : α → Prop} (h : x.Meets name first post) :
    first.Leads name s' ∧ ∀ a, r = .ok a → post a := by
  -- along the derivation: a call keeps what its function keeps, a loop what each turn keeps
  induction hends generalizing first with
  | done => exact h
  | refused hd hrest ih =>
    obtain ⟨hfirst, hfits, hk⟩ := h
    exact ih (hk _ _ hfirst.wellScoped.leads nofun)
  | @call _ _ _ _ f this args s s' _ k a r hd hcall hrest ihcall ihrest =>
    obtain ⟨hfirst, hfits, hk⟩ := h
    have hentered := ihcall
      (Action.enter_keeps hargs hfits this args s hfirst.wellScoped (Nat.le_refl _))
    exact ihrest (hk a s' hentered.1 fun _ _ => trivial)
  | @again _ _ _ _ l s s' _ k r hturn hrest ihturn ihrest =>
    obtain ⟨hfirst, hfits, hk⟩ := h
    have hturned := ihturn (Action.turn_keeps hfits s hfirst.wellScoped (Nat.le_refl _))
    exact ihrest ⟨hfirst.trans hturned.1, hfits.mono hturned.1.scopes_le,
      fun answer t ht => hk answer t (hturned.1.trans ht)⟩
  | @last _ _ _ _ l s s' _ k a r hturn ha hrest ihturn ihrest =>
    obtain ⟨hfirst, hfits, hk⟩ := h
    have hturned := ihturn (Action.turn_keeps hfits s hfirst.wellScoped (Nat.le_refl _))
    refine ihrest (hk a s' hturned.1 fun completion hcompletion => ?_)
    subst hcompletion
    exact (hturned.2 completion rfl).resolve_left fun heq => ha (heq ▸ rfl)

end Descramble
