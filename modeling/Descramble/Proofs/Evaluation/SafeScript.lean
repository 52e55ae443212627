import Descramble.Evaluation.Machine
import Descramble.Proofs.Evaluation.SafeNative
import Descramble.Proofs.Script.Part

/-!
# Scripts are safe

Every expression and every statement works with what exists, in every context that exists, and so
does every function that is entered and every turn of a loop. There is no condition on the script:
it may write to any property and construct with any function.

Main statements: `eval_safe`, `run_safe`, `enter_safe` and `turn_safe`; and `Step.Ends.of_safe`,
what a safe step comes to exists, in a store that has only grown.
-/

namespace Descramble

/-- What a call prepares for a body of statements: its context, and a store in which the parameters
    are bound. A native function has no such body, nor has an arrow function that gives an
    expression. -/
def Callable.activate (this : Value) (args : List Value) (s : Store) :
    Callable → Option (Context × List Stmt × Store)
  | .native _ => none
  | .closure definition scope =>
    let this := match this with
      | .undefined | .null => .object .global
      | v => v
    let (inner, s) := s.addScope scope
    let (list, s) := (s.bindParams inner definition.params args).addObject (.list args.toArray)
    some (⟨inner, this⟩, definition.body, s.bindIfNew inner "arguments" (.object list))
  | .arrow _ (.expr _) _ _ => none
  | .arrow params (.block body) scope this =>
    let (inner, s) := s.addScope scope
    some (⟨inner, this⟩, body, s.bindParams inner params args)

namespace Action

/-- Whether an action is safe from every store on in which a context exists. -/
def SafeIn {α : Type} (c : Context) (post : Store → α → Prop) (x : Action α) : Prop :=
  ∀ s : Store, s.Hosts c → x.Safe s post

variable {s : Store} {c : Context}

/-! ## Operators and calls -/

section

variable (hs : s.Sound)

include hs

/-- Operators give numbers, texts and flags, and make no object but a prototype. -/
theorem binary_safe (op : BinaryOp) (left right : Value) :
    (binary op left right).Safe s Store.Has := by
  cases op with
  | arithmetic op => exact .read hs (Store.has_arithmetic op left right)
  | comparison op => exact .of_read (.pure hs trivial)
  | hasKey => exact .bind (hasProperty_safe hs _ _) fun _ _ h₁ _ => .pure h₁.sound trivial
  | instanceOf => exact .bind (isInstance_safe hs _ _) fun _ _ h₁ _ => .pure h₁.sound trivial

/-- The same for operators on one operand. -/
theorem unary_safe (op : UnaryOp) (v : Value) : (unary op v).Safe s Store.Has := by
  cases op with
  | not | void | delete => exact .pure hs trivial
  | negate | plus | bitNot | typeOf => exact .of_read (.pure hs trivial)

/-- Properties can be deleted, variables cannot. -/
theorem erasePlace_safe (place : Place) : (erasePlace place).Safe s fun _ _ => True := by
  unfold erasePlace
  split
  · exact .modify (hs.grows_erase _ _)
  · exact .pure hs trivial

/-- A property under a computed key. -/
theorem getIndex_safe (target key : Value) : (getIndex target key).Safe s Store.Has :=
  .of_read (getProperty_safe hs _ _)

/-- Only a function is called, and what else is called gives an error. -/
theorem callValue_safe (callee : Expr) (f : Value) {this : Value} (hthis : s.Has this)
    {args : List Value} (hargs : ∀ v ∈ args, s.Has v) :
    (callValue callee f this args).Safe s Store.Has := by
  refine .of_read ?_
  split
  · exact .call hs f hthis hargs
  · exact .typeError hs _

end

/-! ## Expressions -/

/-- A function that is made exists, with the scope that it was made in. -/
theorem makeFunction_safe (hc : s.Hosts c) (own : Option Name) (definition : Function) :
    (makeFunction c own definition).Safe s Store.Has := by
  cases own with
  | none => exact .makeFunction hc.sound hc.scope_lt
  | some own =>
    refine .bind (.makeScope hc.sound hc.scope_lt) fun ref s₁ h₁ href => ?_
    refine .bind (.makeFunction h₁.sound href) fun f s₂ h₂ hf => ?_
    -- the function sees itself in a scope between its own and the one it was made in
    refine .bind (.modify (h₂.sound.grows_bind ref own hf)) fun _ s₃ h₃ _ => ?_
    exact .pure h₃.sound (hf.grows h₃)

/-- The values of a list exist when all of them have been computed. -/
theorem evalAll_safe {es : List Expr} (hes : ∀ e ∈ es, (eval c e).SafeIn c Store.Has)
    (hc : s.Hosts c) : (evalAll c es).Safe s fun s vs => ∀ v ∈ vs, s.Has v := by
  -- on the expressions that are left, in the store that those before them have led to
  induction es generalizing s with
  | nil => exact .pure hc.sound nofun
  | cons e es ih =>
    rw [List.forall_mem_cons] at hes
    refine .bind (hes.1 s hc) fun v s₁ h₁ hv => ?_
    refine .bind (ih hes.2 (hc.grows h₁)) fun vs s₂ h₂ hvs => .pure h₂.sound ?_
    rw [List.forall_mem_cons]
    exact ⟨hv.grows h₂, hvs⟩

/-- The last value of a list exists. -/
theorem evalLast_safe {es : List Expr} (hes : ∀ e ∈ es, (eval c e).SafeIn c Store.Has)
    (hc : s.Hosts c) {last : Value} (hlast : s.Has last) :
    (evalLast c last es).Safe s Store.Has := by
  induction es generalizing s last with
  | nil => exact .pure hc.sound hlast
  | cons e es ih =>
    rw [List.forall_mem_cons] at hes
    exact .bind (hes.1 s hc) fun v s₁ h₁ hv => ih hes.2 (hc.grows h₁) hv

/-- The properties of an object hold what exists. -/
theorem evalProperties_safe {properties : List Property}
    (hvalues : ∀ property ∈ properties, (eval c property.value).SafeIn c Store.Has)
    (hc : s.Hosts c) {made : Bindings} (hmade : s.HasBindings made) :
    (evalProperties c made properties).Safe s Store.HasBindings := by
  induction properties generalizing s made with
  | nil => exact .pure hc.sound hmade
  | cons property rest ih =>
    obtain ⟨key, value⟩ := property
    rw [List.forall_mem_cons] at hvalues
    refine .bind (hvalues.1 s hc) fun v s₁ h₁ hv => ?_
    exact ih hvalues.2 (hc.grows h₁) ((hmade.grows h₁).insert key.name hv)

/-- A place names an object or a variable, and nothing is asked of it yet. -/
theorem evalPlace_safe {e : Expr}
    (hinner : ∀ other, .expr other ∈ e.inner → (eval c other).SafeIn c Store.Has)
    (hc : s.Hosts c) : (evalPlace c e).Safe s fun _ _ => True := by
  cases e with
  | ident name => exact .pure hc.sound trivial
  | member object key =>
    exact .bind (hinner object (by simp [Expr.inner]) s hc) fun _ _ h₁ _ => .pure h₁.sound trivial
  | index object key =>
    refine .bind (hinner object (by simp [Expr.inner]) s hc) fun _ s₁ h₁ _ => ?_
    refine .bind (hinner key (by simp [Expr.inner]) s₁ (hc.grows h₁)) fun _ s₂ h₂ _ => ?_
    exact .of_read (.pure h₂.sound trivial)
  -- nothing else can be written to
  | _ => exact .fail hc.sound _ _

/-- Evaluating an expression gives a value that exists. -/
theorem eval_safe (e : Expr) : (eval c e).SafeIn c Store.Has := by
  -- a call of a member evaluates what the member is of, so the induction carries the inner parts
  suffices h : (eval c e).SafeIn c Store.Has ∧
      ∀ other, .expr other ∈ e.inner → (eval c other).SafeIn c Store.Has from h.1
  induction e using Part.expr_induction with
  | step e ih =>
    have hinner : ∀ other, .expr other ∈ e.inner → (eval c other).SafeIn c Store.Has :=
      fun other hmem => (ih other hmem).1
    refine ⟨fun s hc => ?_, hinner⟩
    cases e with
    | ident name => exact getVariable_safe hc.sound c name
    | literal l =>
      refine .pure hc.sound ?_
      cases l <;> trivial
    | this => exact .pure hc.sound hc.this
    | array items =>
      have hitems := evalAll_safe (fun e h => hinner e (List.mem_map_of_mem h)) hc
      exact .bind hitems fun vs s₁ h₁ hvs => .makeList h₁.sound hvs
    | object properties =>
      have hvalues : ∀ property ∈ properties, (eval c property.value).SafeIn c Store.Has :=
        fun property h => hinner property.value (List.mem_map_of_mem h)
      have hmade := evalProperties_safe hvalues hc Store.hasBindings_empty
      refine .bind hmade fun made s₁ h₁ hmade => ?_
      exact .makeObject h₁.sound ⟨trivial, hmade⟩ nofun
    | function own definition => exact makeFunction_safe hc own definition
    | arrow params body => exact .makeFunction hc.sound ⟨hc.scope_lt, hc.this⟩
    | call callee args =>
      have hargs : ∀ e ∈ args, (eval c e).SafeIn c Store.Has := fun e h =>
        hinner e (List.mem_cons_of_mem _ (List.mem_map_of_mem h))
      have hcallee := ih callee (by simp [Expr.inner])
      -- a method is called on what it is a member of, so that is evaluated by itself
      cases callee with
      | member object key =>
        refine .bind (hcallee.2 object (by simp [Expr.inner]) s hc) fun target s₁ h₁ htarget => ?_
        refine .bind (getProperty_safe h₁.sound _ _) fun f s₂ h₂ _ => ?_
        have hc₂ := (hc.grows h₁).grows h₂
        refine .bind (evalAll_safe hargs hc₂) fun vs s₃ h₃ hvs => ?_
        exact callValue_safe h₃.sound _ _ (htarget.grows (h₂.trans h₃)) hvs
      | index object key =>
        refine .bind (hcallee.2 object (by simp [Expr.inner]) s hc) fun target s₁ h₁ htarget => ?_
        have hc₁ := hc.grows h₁
        refine .bind (hcallee.2 key (by simp [Expr.inner]) s₁ hc₁) fun key s₂ h₂ _ => ?_
        refine .bind (getIndex_safe h₂.sound _ _) fun f s₃ h₃ _ => ?_
        have hc₃ := (hc₁.grows h₂).grows h₃
        refine .bind (evalAll_safe hargs hc₃) fun vs s₄ h₄ hvs => ?_
        exact callValue_safe h₄.sound _ _ (htarget.grows ((h₂.trans h₃).trans h₄)) hvs
      | _ =>
        refine .bind (hcallee.1 s hc) fun f s₁ h₁ _ => ?_
        refine .bind (evalAll_safe hargs (hc.grows h₁)) fun vs s₂ h₂ hvs => ?_
        have hthis : s₂.Has .undefined := trivial
        exact callValue_safe h₂.sound _ _ hthis hvs
    | construct callee args =>
      have hargs : ∀ e ∈ args, (eval c e).SafeIn c Store.Has := fun e h =>
        hinner e (List.mem_cons_of_mem _ (List.mem_map_of_mem h))
      refine .bind (hinner callee (by simp [Expr.inner]) s hc) fun f s₁ h₁ _ => ?_
      refine .bind (evalAll_safe hargs (hc.grows h₁)) fun vs s₂ h₂ hvs => ?_
      exact construct_safe h₂.sound f hvs
    | member object key =>
      refine .bind (hinner object (by simp [Expr.inner]) s hc) fun _ s₁ h₁ _ => ?_
      exact getProperty_safe h₁.sound _ _
    | index object key =>
      refine .bind (hinner object (by simp [Expr.inner]) s hc) fun _ s₁ h₁ _ => ?_
      refine .bind (hinner key (by simp [Expr.inner]) s₁ (hc.grows h₁)) fun _ s₂ h₂ _ => ?_
      exact getIndex_safe h₂.sound _ _
    | assign op target value =>
      have hplace := evalPlace_safe (ih target (by simp [Expr.inner])).2 hc
      have hvalue := hinner value (by simp [Expr.inner])
      cases op with
      | none =>
        refine .bind hplace fun place s₁ h₁ _ => ?_
        refine .bind (hvalue s₁ (hc.grows h₁)) fun v s₂ h₂ hv => ?_
        refine .bind (setPlace_safe h₂.sound c hv place) fun _ s₃ h₃ _ => ?_
        exact .pure h₃.sound (hv.grows h₃)
      | some op =>
        refine .bind hplace fun place s₁ h₁ _ => ?_
        refine .bind (getPlace_safe h₁.sound c place) fun current s₂ h₂ _ => ?_
        have hc₂ := (hc.grows h₁).grows h₂
        refine .bind (hvalue s₂ hc₂) fun operand s₃ h₃ _ => .of_read ?_
        -- a number or a text, which exists in every store
        have hresult := s₃.has_arithmetic op current operand
        refine .bind (setPlace_safe h₃.sound c hresult place) fun _ s₄ h₄ _ => ?_
        exact .pure h₄.sound (hresult.grows h₄)
    | logical op left right =>
      refine .bind (hinner left (by simp [Expr.inner]) s hc) fun v s₁ h₁ hv => ?_
      split
      · exact .pure h₁.sound hv
      · exact hinner right (by simp [Expr.inner]) s₁ (hc.grows h₁)
    | binary op left right =>
      refine .bind (hinner left (by simp [Expr.inner]) s hc) fun _ s₁ h₁ _ => ?_
      refine .bind (hinner right (by simp [Expr.inner]) s₁ (hc.grows h₁)) fun _ s₂ h₂ _ => ?_
      exact binary_safe h₂.sound _ _ _
    | unary op arg =>
      have hvalue : (do unary op (← eval c arg) : Action Value).Safe s Store.Has :=
        .bind (hinner arg (by simp [Expr.inner]) s hc) fun _ s₁ h₁ _ => unary_safe h₁.sound _ _
      cases op with
      | typeOf =>
        cases arg with
        -- a variable that is not there has a type too, so it is looked up without a failure
        | ident name => exact .of_read (.pure hc.sound trivial)
        | _ => exact hvalue
      | delete =>
        have hplace := evalPlace_safe (ih arg (by simp [Expr.inner])).2 hc
        -- only properties can be deleted; a variable is left alone
        cases arg with
        | member _ _ | index _ _ =>
          refine .bind hplace fun place s₁ h₁ _ => ?_
          exact .bind (erasePlace_safe h₁.sound place) fun _ _ h₂ _ => .pure h₂.sound trivial
        | _ => exact .pure hc.sound trivial
      | _ => exact hvalue
    | update op before arg =>
      have hplace := evalPlace_safe (ih arg (by simp [Expr.inner])).2 hc
      refine .bind hplace fun place s₁ h₁ _ => ?_
      refine .bind (getPlace_safe h₁.sound c place) fun v s₂ h₂ _ => .of_read ?_
      have hnext : s₂.Has (.number (op.next (s₂.numberOf v))) := trivial
      refine .bind (setPlace_safe h₂.sound c hnext place) fun _ s₃ h₃ _ => ?_
      exact .pure h₃.sound trivial
    | conditional test yes no =>
      refine .bind (hinner test (by simp [Expr.inner]) s hc) fun v s₁ h₁ _ => ?_
      split
      · exact hinner yes (by simp [Expr.inner]) s₁ (hc.grows h₁)
      · exact hinner no (by simp [Expr.inner]) s₁ (hc.grows h₁)
    | sequence items =>
      exact evalLast_safe (fun e h => hinner e (List.mem_map_of_mem h)) hc trivial

/-! ## Declarations -/

/-- The functions of a block are declared before it runs. -/
theorem declareFunctions_safe (hc : s.Hosts c) (body : List Stmt) :
    (declareFunctions c body).Safe s fun _ _ => True := by
  induction body generalizing s with
  | nil => exact .pure hc.sound trivial
  | cons stmt rest ih =>
    -- only declarations of functions do anything here; other statements wait for their turn
    cases stmt with
    | function own definition =>
      refine .bind (.makeFunction hc.sound hc.scope_lt) fun f s₁ h₁ hf => ?_
      refine .bind (.modify (h₁.sound.grows_define c.scope own hf)) fun _ s₂ h₂ _ => ?_
      exact ih ((hc.grows h₁).grows h₂)
    | _ => exact ih hc

/-- Names are declared without a value. -/
theorem declareNames_safe (hc : s.Hosts c) (names : List Name) :
    (declareNames c names).Safe s fun _ _ => True := by
  induction names generalizing s with
  | nil => exact .pure hc.sound trivial
  | cons name names ih =>
    refine .bind (.modify (hc.sound.grows_declare c.scope name)) fun _ s₁ h₁ _ => ?_
    exact ih (hc.grows h₁)

/-- Declarators are run one after the other. -/
theorem runDeclarators_safe (kind : DeclarationKind) (declarators : List Declarator) :
    (runDeclarators c kind declarators).SafeIn c fun _ _ => True := by
  intro s hc
  induction declarators generalizing s with
  | nil => exact .pure hc.sound trivial
  | cons d rest ih =>
    obtain ⟨name, init⟩ := d
    cases init with
    | none =>
      -- a `var` without a value keeps what the name had when it was hoisted
      cases kind with
      | functionScoped => exact ih s hc
      | _ =>
        have hdefine : s.Grows (s.define c.scope name .undefined) :=
          hc.sound.grows_define c.scope name trivial
        exact .bind (.modify hdefine) fun _ s₁ h₁ _ => ih s₁ (hc.grows h₁)
    | some e =>
      cases kind with
      | functionScoped =>
        refine .bind (eval_safe e s hc) fun v s₁ h₁ hv => ?_
        refine .bind (.modify (h₁.sound.grows_assign c.scope name hv)) fun _ s₂ h₂ _ => ?_
        exact ih s₂ ((hc.grows h₁).grows h₂)
      | _ =>
        refine .bind (eval_safe e s hc) fun v s₁ h₁ hv => ?_
        refine .bind (.modify (h₁.sound.grows_define c.scope name hv)) fun _ s₂ h₂ _ => ?_
        exact ih s₂ ((hc.grows h₁).grows h₂)

/-- An expression that is missing gives no object. -/
theorem evalOptional_safe (e : Option Expr) : (evalOptional c e).SafeIn c Store.Has := by
  intro s hc
  cases e with
  | none => exact .pure hc.sound trivial
  | some e => exact eval_safe e s hc

/-- What a loop begins with may be missing, a declaration or an expression. -/
theorem runStart_safe (start : Option ForStart) :
    (runStart c start).SafeIn c fun _ _ => True := by
  intro s hc
  rcases start with _ | ⟨d⟩ | ⟨e⟩
  · exact .pure hc.sound trivial
  · exact runDeclarators_safe d.kind d.declarators s hc
  · exact .bind (eval_safe e s hc) fun _ _ h₁ _ => .pure h₁.sound trivial

/-- Looking for a case computes the tests, one after the other. -/
theorem findCase_safe (subject : Value) (place : Nat) (cases : List SwitchCase) :
    (findCase c subject place cases).SafeIn c fun _ _ => True := by
  intro s hc
  -- the place of the case counts up along the list
  induction cases generalizing s place with
  | nil => exact .pure hc.sound trivial
  | cons clause rest ih =>
    obtain ⟨test, body⟩ := clause
    cases test with
    | none => exact ih _ s hc
    | some test =>
      refine .bind (eval_safe test s hc) fun v s₁ h₁ _ => ?_
      split
      · exact .pure h₁.sound trivial
      · exact ih _ s₁ (hc.grows h₁)

/-! ## Statements -/

/-- A list of statements ends in what exists. -/
theorem runAll_safe {body : List Stmt}
    (hrun : ∀ stmt ∈ body, (run c stmt).SafeIn c Store.HasCompletion) :
    (runAll c body).SafeIn c Store.HasCompletion := by
  intro s hc
  induction body generalizing s with
  | nil => exact .pure hc.sound trivial
  | cons stmt rest ih =>
    rw [List.forall_mem_cons] at hrun
    refine .bind (hrun.1 s hc) fun completion s₁ h₁ hcompletion => ?_
    -- the first statement that does not end normally decides how the list ends
    split
    · exact ih hrun.2 s₁ (hc.grows h₁)
    · exact .pure h₁.sound hcompletion

/-- The statements of a block, where its functions have been declared. -/
theorem runDeclared_safe {body : List Stmt}
    (hrun : ∀ stmt ∈ body, (run c stmt).SafeIn c Store.HasCompletion) (hc : s.Hosts c) :
    (do declareFunctions c body; runAll c body : Action Completion).Safe s Store.HasCompletion :=
  .bind (declareFunctions_safe hc body) fun _ s₁ h₁ _ => runAll_safe hrun s₁ (hc.grows h₁)

/-- A block, in a scope of its own. -/
theorem runBlock_safe {body : List Stmt}
    (hrun : ∀ stmt ∈ body, ∀ c, (run c stmt).SafeIn c Store.HasCompletion) (hc : s.Hosts c) :
    (do let inner ← makeBlock c
        declareFunctions inner body
        runAll inner body : Action Completion).Safe s Store.HasCompletion :=
  .bind (.makeBlock hc) fun inner _ _ hinner =>
    runDeclared_safe (fun stmt h => hrun stmt h inner) hinner

/-- The statements of a `switch` from the case that was found. -/
theorem runCases_safe (start : Nat) {cases : List SwitchCase}
    (hrun : ∀ clause ∈ cases, ∀ stmt ∈ clause.body, (run c stmt).SafeIn c Store.HasCompletion) :
    (runCases c start cases).SafeIn c Store.HasCompletion := by
  intro s hc
  induction cases generalizing s start with
  | nil => exact .pure hc.sound trivial
  | cons clause rest ih =>
    obtain ⟨test, body⟩ := clause
    rw [List.forall_mem_cons] at hrun
    -- the cases before the one that was found are passed over
    cases start with
    | succ start => exact ih start hrun.2 s hc
    | zero =>
      refine .bind (declareFunctions_safe hc body) fun _ s₁ h₁ _ => ?_
      have hc₁ := hc.grows h₁
      refine .bind (runAll_safe hrun.1 s₁ hc₁) fun completion s₂ h₂ hcompletion => ?_
      -- a `break` ends the `switch`, any other jump leads out of it
      cases completion with
      | normal => exact ih 0 hrun.2 s₂ (hc₁.grows h₂)
      | broke => exact .pure h₂.sound trivial
      | gaveBack v => exact .pure h₂.sound hcompletion
      | continued => exact .pure h₂.sound trivial

/-- A handler that is given what was thrown ends in what exists. -/
theorem runCatch_safe {result : Except Fault Completion} {handler : Option CatchClause}
    (hresult : s.HasResult Store.HasCompletion result)
    (hrun : ∀ clause ∈ handler, ∀ stmt ∈ clause.body, ∀ c,
      (run c stmt).SafeIn c Store.HasCompletion) (hc : s.Hosts c) :
    (runCatch c result handler).Safe s Store.HasCompletion := by
  cases handler with
  | none => exact .resolve hc.sound hresult
  | some clause =>
    obtain ⟨param, body⟩ := clause
    -- the handler runs after a throw only; any other result stays as it is
    rcases result with (thrown | why) | completion
    case ok | error.fatal => exact .resolve hc.sound hresult
    case error.thrown =>
      have hthrown : s.Has thrown := hresult
      refine .bind (.makeBlock hc) fun inner s₁ h₁ hinner => ?_
      -- a handler without a parameter binds nothing
      cases param with
      | none => exact runDeclared_safe (fun stmt h => hrun _ rfl stmt h inner) hinner
      | some param =>
        have hbind := h₁.sound.grows_bind inner.scope param (hthrown.grows h₁)
        refine .bind (.modify hbind) fun _ s₂ h₂ _ => ?_
        exact runDeclared_safe (fun stmt h => hrun _ rfl stmt h inner) (hinner.grows h₂)

/-- The last part of a `try` statement, which may replace what there was before. -/
theorem runFinally_safe {result : Except Fault Completion} {finalizer : Option (List Stmt)}
    (hresult : s.HasResult Store.HasCompletion result)
    (hrun : ∀ body ∈ finalizer, ∀ stmt ∈ body, ∀ c, (run c stmt).SafeIn c Store.HasCompletion)
    (hc : s.Hosts c) : (runFinally c result finalizer).Safe s Store.HasCompletion := by
  cases finalizer with
  | none => exact .resolve hc.sound hresult
  | some body =>
    unfold runFinally
    -- a run that comes to nothing leaves the last part out
    split
    · exact .fatal hc.sound _
    · refine .bind (.makeBlock hc) fun inner s₁ h₁ hinner => ?_
      refine .bind (declareFunctions_safe hinner body) fun _ s₂ h₂ _ => ?_
      have hall := runAll_safe (fun stmt h => hrun _ rfl stmt h inner) s₂ (hinner.grows h₂)
      refine .bind hall fun completion s₃ h₃ hcompletion => ?_
      -- the last part hides the result before it only if it ends in a jump
      split
      · exact .resolve h₃.sound (hresult.grows ((h₁.trans h₂).trans h₃))
      · exact .pure h₃.sound hcompletion

/-- A statement ends in what exists. -/
theorem run_safe (stmt : Stmt) (c : Context) : (run c stmt).SafeIn c Store.HasCompletion := by
  -- statements inside run in scopes made for them, so the induction is for every context
  induction stmt using Part.stmt_induction generalizing c with
  | step stmt ih =>
    intro s hc
    cases stmt with
    | expr e => exact .bind (eval_safe e s hc) fun _ _ h₁ _ => .pure h₁.sound trivial
    | declare d =>
      exact .bind (runDeclarators_safe d.kind d.declarators s hc) fun _ _ h₁ _ =>
        .pure h₁.sound trivial
    | function own definition => exact .pure hc.sound trivial
    | giveBack value =>
      exact .bind (evalOptional_safe value s hc) fun _ _ h₁ hv => .pure h₁.sound hv
    | ifElse test yes no =>
      refine .bind (eval_safe test s hc) fun v s₁ h₁ _ => ?_
      have hc₁ := hc.grows h₁
      split
      · exact ih yes (by simp [Stmt.inner]) c s₁ hc₁
      · cases no with
        | none => exact .pure h₁.sound trivial
        | some no => exact ih no (by simp [Stmt.inner]) c s₁ hc₁
    | block body => exact runBlock_safe (fun stmt h => ih stmt (List.mem_map_of_mem h)) hc
    | forLoop start test step body =>
      refine .bind (.makeBlock hc) fun inner s₁ h₁ hinner => ?_
      refine .bind (runStart_safe start s₁ hinner) fun _ s₂ h₂ _ => ?_
      -- the loop itself is a request: its turns are taken by whoever answers it
      exact .request h₂.sound (hinner.grows h₂).toHasContext
    | whileLoop test body => exact .request hc.sound hc.toHasContext
    | switch subject cases =>
      have hbodies : ∀ clause ∈ cases, ∀ stmt ∈ clause.body, ∀ c,
          (run c stmt).SafeIn c Store.HasCompletion := fun clause h stmt hmem =>
        ih stmt (List.mem_cons_of_mem _ (List.mem_flatMap.mpr
          ⟨clause, h, List.mem_append_right _ (List.mem_map_of_mem hmem)⟩))
      refine .bind (eval_safe subject s hc) fun v s₁ h₁ _ => ?_
      have hc₁ := hc.grows h₁
      refine .bind (findCase_safe v 0 cases s₁ hc₁) fun found s₂ h₂ _ => ?_
      split
      · exact .pure h₂.sound trivial
      · refine .bind (.makeBlock (hc₁.grows h₂)) fun inner s₃ h₃ hinner => ?_
        exact runCases_safe _ (fun clause h stmt hmem => hbodies clause h stmt hmem inner) s₃ hinner
    | attempt body handler finalizer =>
      have hblock : ∀ stmt ∈ body, ∀ c, (run c stmt).SafeIn c Store.HasCompletion :=
        fun stmt h => ih stmt (by simp [Stmt.inner, h])
      have hcatch : ∀ clause ∈ handler, ∀ stmt ∈ clause.body, ∀ c,
          (run c stmt).SafeIn c Store.HasCompletion := by
        rintro clause ⟨⟩ stmt h
        exact ih stmt (by simp [Stmt.inner, CatchClause.inner, h])
      have hfinally : ∀ last ∈ finalizer, ∀ stmt ∈ last, ∀ c,
          (run c stmt).SafeIn c Store.HasCompletion := by
        rintro last ⟨⟩ stmt h
        exact ih stmt (by simp [Stmt.inner, h])
      -- block, handler and last part in turn; each may change how the statement ends
      refine .handle (p := Store.HasCompletion) ?_ fun result s₁ h₁ hresult =>
        runFinally_safe hresult hfinally (hc.grows h₁)
      exact .handle (runBlock_safe hblock hc) fun result s₁ h₁ hresult =>
        runCatch_safe hresult hcatch (hc.grows h₁)
    | raise e => exact .bind (eval_safe e s hc) fun v s₁ h₁ hv => .raise h₁.sound hv
    | breakOut | continueLoop | empty => exact .pure hc.sound trivial

/-! ## Functions and loops -/

/-- The statements of a body or a program. -/
theorem runBody_safe (body : List Stmt) : (runBody c body).SafeIn c Store.HasCompletion := by
  intro s hc
  refine .bind (declareNames_safe hc (Stmt.hoistedAll body)) fun _ s₁ h₁ _ => ?_
  exact runDeclared_safe (fun stmt _ => run_safe stmt c) (hc.grows h₁)

/-- A turn of a loop works with what exists in the context of the loop. -/
theorem turn_safe (l : Loop) : (turn l).SafeIn l.context Store.HasCompletion := by
  intro s hc
  -- the test, then the body and the step if there is one more turn
  refine .bind (p := fun _ _ => True) ?_ fun goesOn s₁ h₁ _ => ?_
  · cases l.test with
    | none => exact .pure hc.sound trivial
    | some test =>
      exact .bind (eval_safe test s hc) fun _ _ h₁ _ => .pure h₁.sound trivial
  · have hc₁ := hc.grows h₁
    split
    · refine .bind (run_safe l.body l.context s₁ hc₁) fun completion s₂ h₂ hcompletion => ?_
      have hstep := evalOptional_safe l.step s₂ (hc₁.grows h₂)
      cases completion with
      | normal | continued => exact .bind hstep fun _ _ h₃ _ => .pure h₃.sound trivial
      | broke => exact .pure h₂.sound trivial
      | gaveBack v => exact .pure h₂.sound hcompletion
    · exact .pure h₁.sound trivial

section

variable {f : Callable} {this : Value} {args : List Value} {body : List Stmt} {s₀ : Store}

/-- A call runs the body in what it has prepared. -/
theorem enter_of_activate (h : f.activate this args s = some (c, body, s₀)) :
    enter f this args s = runBody c body s₀ := by
  cases f with
  | native n => cases h
  | closure definition scope =>
    cases h
    rfl
  | arrow params arrowBody scope that =>
    cases arrowBody with
    | expr e => cases h
    | block stmts =>
      cases h
      rfl

variable (hs : s.Sound) (hf : s.HasCallable f) (hthis : s.Has this) (hargs : ∀ v ∈ args, s.Has v)

include hs hf hthis hargs

/-- The body of a function runs in a scope that the call has made. -/
theorem hosts_of_activate (h : f.activate this args s = some (c, body, s₀)) :
    s.Grows s₀ ∧ s₀.Hosts c ∧ c.scope = ⟨s.scopes.size⟩ := by
  cases f with
  | native n => cases h
  | closure definition scope =>
    have h₁ := hs.grows_addScope hf
    have h₂ := h₁.sound.grows_bindParams (s.addScope scope).1 definition.params
      (Store.Has.all_grows hargs h₁)
    have hlist := Store.Has.all_grows hargs (h₁.trans h₂)
    have h₃ := h₂.sound.grows_addObject (o := .list args.toArray)
      ⟨fun v hv => hlist v (List.mem_toArray.mp hv), Store.hasBindings_empty⟩ nofun
    have h₄ := h₃.sound.grows_bindIfNew (s.addScope scope).1 "arguments" (Store.has_addObject _ _)
    have hrest := h₂.trans (h₃.trans h₄)
    cases h
    refine ⟨h₁.trans hrest, ⟨⟨?_, ?_⟩, h₄.sound⟩, rfl⟩
    · exact Nat.lt_of_lt_of_le (s.lt_size_addScope scope) hrest.sizeLe.scopes
    -- a function that is called on nothing is called on the global object
    · dsimp only
      split
      · exact h₄.sound.global_lt
      · exact h₄.sound.global_lt
      · exact hthis.grows (h₁.trans hrest)
  | arrow params arrowBody scope that =>
    cases arrowBody with
    | expr e => cases h
    | block stmts =>
      have h₁ := hs.grows_addScope hf.1
      have h₂ := h₁.sound.grows_bindParams (s.addScope scope).1 params
        (Store.Has.all_grows hargs h₁)
      cases h
      have hscope := Nat.lt_of_lt_of_le (s.lt_size_addScope scope) h₂.sizeLe.scopes
      exact ⟨h₁.trans h₂, ⟨⟨hscope, hf.2.grows (h₁.trans h₂)⟩, h₂.sound⟩, rfl⟩

/-- Entering a function that exists, on arguments that exist. -/
theorem enter_safe : (enter f this args).Safe s Store.HasCompletion := by
  cases hactivate : f.activate this args s with
  | some prepared =>
    obtain ⟨c, body, s₀⟩ := prepared
    obtain ⟨hgrows, hc, -⟩ := hosts_of_activate hs hf hthis hargs hactivate
    show Step.Safe Store.HasCompletion s (enter f this args s)
    rw [enter_of_activate hactivate]
    exact (runBody_safe body s₀ hc).of_grows hgrows
  | none =>
    -- no statements: a native function, or an arrow function with an expression for its body
    cases f with
    | native n =>
      exact .bind (runNative_safe hs n hthis hargs) fun _ _ h₁ hv => .pure h₁.sound hv
    | closure definition scope => cases hactivate
    | arrow params arrowBody scope that =>
      cases arrowBody with
      | expr e =>
        refine .bind (.makeScope hs hf.1) fun ref s₁ h₁ href => ?_
        have hparams := h₁.sound.grows_bindParams ref params (Store.Has.all_grows hargs h₁)
        refine .bind (.modify hparams) fun _ s₂ h₂ _ => ?_
        have hc : s₂.Hosts ⟨ref, that⟩ :=
          ⟨⟨Nat.lt_of_lt_of_le href h₂.sizeLe.scopes, hf.2.grows (h₁.trans h₂)⟩, h₂.sound⟩
        exact .bind (eval_safe e s₂ hc) fun _ _ h₃ hv => .pure h₃.sound hv
      | block stmts => cases hactivate

end

end Action

/-! ## What a safe step comes to -/

/-- What a safe step comes to exists, in a store that has only grown. -/
theorem Step.Ends.of_safe {α : Type} {d d' : Nat} {x : Step α} {r : Except Fault α} {s' : Store}
    (hends : x.Ends d r s' d') {first : Store} {post : Store → α → Prop}
    (h : Step.Safe post first x) : first.Grows s' ∧ s'.HasResult post r := by
  -- along the derivation: a call is as safe as its function, a loop as each of its turns
  induction hends generalizing first with
  | done => exact h
  | refused hd hrest ih =>
    obtain ⟨hfirst, -, hk⟩ := h
    have hrefused := hk (.error (.fatal .tooDeep)) _ hfirst.sound.grows trivial
    exact ih (hrefused.of_grows hfirst)
  | call hd hcall hrest ihcall ihrest =>
    obtain ⟨hfirst, ⟨hf, hthis, hargs⟩, hk⟩ := h
    have hentered := ihcall (Action.enter_safe hfirst.sound hf hthis hargs)
    exact ihrest ((hk _ _ hentered.1 hentered.2).of_grows (hfirst.trans hentered.1))
  | again hturn hrest ihturn ihrest =>
    obtain ⟨hfirst, hcontext, hk⟩ := h
    have hturned := ihturn (Action.turn_safe _ _ ⟨hcontext, hfirst.sound⟩)
    exact ihrest ⟨hfirst.trans hturned.1, hcontext.grows hturned.1,
      fun answer t ht => hk answer t (hturned.1.trans ht)⟩
  | last hturn ha hrest ihturn ihrest =>
    obtain ⟨hfirst, hcontext, hk⟩ := h
    have hturned := ihturn (Action.turn_safe _ _ ⟨hcontext, hfirst.sound⟩)
    exact ihrest ((hk _ _ hturned.1 hturned.2).of_grows (hfirst.trans hturned.1))

end Descramble
