import Descramble.Evaluation.Machine
import Descramble.Proofs.Evaluation.Native
import Descramble.Proofs.Script.Part

/-!
# Faults that nothing takes up

A fault that is fatal goes through everything that waits for an answer. Operands, statements and
loops that are in progress end in it; a handler is for what was thrown, and the last part of a `try`
statement is left out. A native function either passes on what its callbacks end in, or takes up the
faults of something that calls nothing.

`Action.Passes` says so of an action: whoever asks for something and is answered with a fatal fault
ends in it at once, without another request and without a change to the store. There is no condition
on the script.

Main statements: `Scopeless.passes`, native functions and access; `eval_passes` and `run_passes`,
expressions and statements; `enter_passes` and `turn_passes`, whatever the machine carries out.
-/

namespace Descramble

/-- Whether a step ends in each fatal fault that it is answered with, now and later on. -/
def Step.Passes {α : Type} : Step α → Prop
  | .done _ _ => True
  | .ask _ _ resume =>
    (∀ why s, resume (.error (.fatal why)) s = .done (.error (.fatal why)) s) ∧
      ∀ answer s, (resume answer s).Passes

/-- What is done after a step has to pass on the faults that the step passes on. -/
theorem Step.Passes.followedBy {α β : Type} {x : Step α} {f : Except Fault α → Store → Step β}
    (hx : x.Passes) (hfatal : ∀ why s, f (.error (.fatal why)) s = .done (.error (.fatal why)) s)
    (hf : ∀ r s, (f r s).Passes) : (x.followedBy f).Passes := by
  induction x with
  | done r s => exact hf r s
  | ask req s resume ih =>
    -- answered with a fatal fault the step ends in it, so what is done after it comes next
    refine ⟨fun why s => ?_, fun answer s => ih answer s (hx.2 answer s)⟩
    show (resume _ s).followedBy f = _
    rw [hx.1 why s]
    exact hfatal why s

/-- Whether an action passes on fatal faults, from every store on. -/
def Action.Passes {α : Type} (x : Action α) : Prop :=
  ∀ s, (x s).Passes

namespace Action

namespace Passes

variable {α β : Type} {x : Action α}

/-! ## Rules -/

/-- A value asks for nothing. -/
theorem pure (a : α) : (pure a : Action α).Passes :=
  fun _ => trivial

/-- A fault asks for nothing either; a fatal one is among those there are. -/
theorem fault (e : Fault) : (fault e : Action α).Passes :=
  fun _ => trivial

/-- Reading the store asks for nothing. -/
theorem read (f : Store → α) : (read f).Passes :=
  fun _ => trivial

/-- Changing the store asks for nothing. -/
theorem modify (f : Store → Store) : (modify f).Passes :=
  fun _ => trivial

/-- Neither does making an object. -/
theorem makeObject (o : Object) : (makeObject o).Passes :=
  fun _ => trivial

/-- Neither does making a scope. -/
theorem makeScope (parent : ScopeRef) : (makeScope parent).Passes :=
  fun _ => trivial

/-- The scope of a block is made like any other. -/
theorem makeBlock (c : Context) : (makeBlock c).Passes :=
  fun _ => trivial

/-- A result that is taken up again, fatal or not. -/
theorem resolve (r : Except Fault α) : (resolve r).Passes := by
  cases r with
  | ok a => exact .pure a
  | error e => exact .fault e

/-- What takes up the faults of an action has to let the fatal ones go. -/
theorem handle {f : Except Fault α → Action β} (hx : x.Passes)
    (hfatal : ∀ why, f (.error (.fatal why)) = Action.fault (.fatal why))
    (hf : ∀ r, (f r).Passes) : (x.handle f).Passes := by
  intro s
  refine (hx s).followedBy (fun why s => ?_) fun r s => hf r s
  rw [hfatal why]
  rfl

/-- Nothing is answered with a fault where nothing is asked for. -/
theorem handle_done {f : Except Fault α → Action β} (hx : ∀ s, ∃ r s', x s = .done r s')
    (hf : ∀ r, (f r).Passes) : (x.handle f).Passes := by
  intro s
  obtain ⟨r, s', hdone⟩ := hx s
  show ((x s).followedBy _).Passes
  rw [hdone]
  exact hf r s'

/-- What comes after an action is skipped where the action ends in a fault. -/
theorem bind {f : α → Action β} (hx : x.Passes) (hf : ∀ a, (f a).Passes) :
    (x >>= f).Passes := by
  rw [bind_eq_handle]
  -- a fault is handed on as it is, whatever it is
  refine handle hx (fun _ => rfl) fun r => ?_
  cases r with
  | ok a => exact hf a
  | error e => exact .fault e

/-- Whoever only asks hands on the answer. -/
theorem request (r : Request) : (request r).Passes :=
  fun _ => ⟨fun _ _ => rfl, fun _ _ => trivial⟩

/-- An error is thrown without asking for anything. -/
theorem fail (kind message : String) : (fail kind message : Action α).Passes :=
  .bind (.makeObject _) fun _ => .fault _

/-- The same for the error whose kind is fixed. -/
theorem typeError (message : String) : (typeError message : Action α).Passes :=
  fail _ message

/-- A call asks for a function to be run, or fails without asking. -/
theorem call (f this : Value) (args : List Value) : (call f this args).Passes := by
  refine .bind (.read _) fun callable => ?_
  -- what cannot be called is told apart only for the message of the error
  cases callable with
  | some callable => exact .bind (.request _) fun _ => .pure _
  | none =>
    cases f with
    | object ref => exact .typeError _
    | _ => exact .bind (.read _) fun _ => .typeError _

end Passes

/-- What is put together from reading, changing and calling takes up no fault, or only those of
    something that calls nothing. -/
theorem Scopeless.passes {α : Type} {x : Action α} (h : x.Scopeless) : x.Passes := by
  induction h with
  | pure a => exact .pure a
  | fault e => exact .fault e
  | read f => exact .read f
  | modify _ => exact .modify _
  | makeObject _ => exact .makeObject _
  | call f this args => exact .call f this args
  | bind _ _ ihx ihf => exact .bind ihx ihf
  | handle _ hdone _ _ ihf => exact .handle_done hdone ihf

variable {c : Context}

/-! ## Expressions -/

/-- Making a function asks for nothing, with a name of its own or without. -/
theorem makeFunction_passes (own : Option Name) (definition : Function) :
    (makeFunction c own definition).Passes := by
  cases own with
  | none => exact .makeObject _
  | some own => exact fun _ => trivial

/-- Writing to a place asks for nothing. -/
theorem setPlace_passes (v : Value) (place : Place) : (setPlace c v place).Passes := by
  cases place with
  | «variable» name => exact .modify _
  | property target key => exact (setProperty_scopeless target key v).passes

section

variable {es : List Expr} (hes : ∀ e ∈ es, (eval c e).Passes)

include hes

/-- The values of a list are computed one after the other. -/
theorem evalAll_passes : (evalAll c es).Passes := by
  -- on the expressions that are left
  induction es with
  | nil => exact .pure _
  | cons e es ih =>
    rw [List.forall_mem_cons] at hes
    exact .bind hes.1 fun _ => .bind (ih hes.2) fun _ => .pure _

/-- The same where only the last value is kept. -/
theorem evalLast_passes (last : Value) : (evalLast c last es).Passes := by
  induction es generalizing last with
  | nil => exact .pure _
  | cons e es ih =>
    rw [List.forall_mem_cons] at hes
    exact .bind hes.1 fun v => ih hes.2 v

end

/-- The values of properties are computed in the order they are written in. -/
theorem evalProperties_passes {properties : List Property}
    (h : ∀ property ∈ properties, (eval c property.value).Passes) (made : Bindings) :
    (evalProperties c made properties).Passes := by
  induction properties generalizing made with
  | nil => exact .pure _
  | cons property rest ih =>
    obtain ⟨key, value⟩ := property
    rw [List.forall_mem_cons] at h
    exact .bind h.1 fun v => ih h.2 _

/-- A place is computed from the object and the key that it names, if it is a property. -/
theorem evalPlace_passes {e : Expr} (h : ∀ other, .expr other ∈ e.inner → (eval c other).Passes) :
    (evalPlace c e).Passes := by
  cases e with
  | ident name => exact .pure _
  | member object key => exact .bind (h object (by simp [Expr.inner])) fun _ => .pure _
  | index object key =>
    refine .bind (h object (by simp [Expr.inner])) fun _ => ?_
    refine .bind (h key (by simp [Expr.inner])) fun _ => ?_
    exact .bind (.read _) fun _ => .pure _
  -- nothing else can be written to
  | _ => exact .fail _ _

/-- An expression takes up no fault of its operands. -/
theorem eval_passes (e : Expr) : (eval c e).Passes := by
  -- a call of a member evaluates what the member is of, so the induction carries the inner parts
  suffices h : (eval c e).Passes ∧ ∀ other, .expr other ∈ e.inner → (eval c other).Passes from h.1
  induction e using Part.expr_induction with
  | step e ih =>
    have hinner : ∀ other, .expr other ∈ e.inner → (eval c other).Passes :=
      fun other hmem => (ih other hmem).1
    refine ⟨?_, hinner⟩
    cases e with
    | ident name => exact (getVariable_scopeless c name).passes
    | literal _ | this => exact .pure _
    | array items =>
      refine .bind (evalAll_passes fun e h => hinner e (List.mem_map_of_mem h)) fun vs => ?_
      exact (Scopeless.makeList vs).passes
    | object properties =>
      have hvalues := evalProperties_passes (c := c) fun property h =>
        hinner property.value (List.mem_map_of_mem h)
      exact .bind (hvalues _) fun _ => .makeObject _
    | function own definition => exact makeFunction_passes own definition
    | arrow params body => exact .makeObject _
    | call callee args =>
      have hargs := evalAll_passes fun e h =>
        hinner e (List.mem_cons_of_mem _ (List.mem_map_of_mem h))
      have hcallee := ih callee (by simp [Expr.inner])
      -- a method is called on what it is a member of, so that is evaluated by itself
      cases callee with
      | member object key =>
        refine .bind (hcallee.2 object (by simp [Expr.inner])) fun target => ?_
        refine .bind (getProperty_scopeless _ _).passes fun f => ?_
        exact .bind hargs fun _ => (callValue_scopeless _ _ _ _).passes
      | index object key =>
        refine .bind (hcallee.2 object (by simp [Expr.inner])) fun target => ?_
        refine .bind (hcallee.2 key (by simp [Expr.inner])) fun key => ?_
        refine .bind (getIndex_scopeless _ _).passes fun f => ?_
        exact .bind hargs fun _ => (callValue_scopeless _ _ _ _).passes
      | _ =>
        refine .bind hcallee.1 fun f => ?_
        exact .bind hargs fun _ => (callValue_scopeless _ _ _ _).passes
    | construct callee args =>
      have hargs := evalAll_passes fun e h =>
        hinner e (List.mem_cons_of_mem _ (List.mem_map_of_mem h))
      refine .bind (hinner callee (by simp [Expr.inner])) fun f => ?_
      exact .bind hargs fun _ => (construct_scopeless _ _).passes
    | member object key =>
      refine .bind (hinner object (by simp [Expr.inner])) fun target => ?_
      exact (getProperty_scopeless _ _).passes
    | index object key =>
      refine .bind (hinner object (by simp [Expr.inner])) fun target => ?_
      refine .bind (hinner key (by simp [Expr.inner])) fun key => ?_
      exact (getIndex_scopeless _ _).passes
    -- with an operation the place is read before the value is computed
    | assign op target value =>
      have hplace := evalPlace_passes (ih target (by simp [Expr.inner])).2
      have hvalue := hinner value (by simp [Expr.inner])
      cases op with
      | none =>
        refine .bind hplace fun place => .bind hvalue fun v => ?_
        exact .bind (setPlace_passes v place) fun _ => .pure _
      | some op =>
        refine .bind hplace fun place => .bind (getPlace_scopeless c place).passes fun _ => ?_
        refine .bind hvalue fun _ => .bind (.read _) fun v => ?_
        exact .bind (setPlace_passes v place) fun _ => .pure _
    -- the right side may be left out
    | logical op left right =>
      refine .bind (hinner left (by simp [Expr.inner])) fun v => ?_
      split
      · exact .pure _
      · exact hinner right (by simp [Expr.inner])
    | binary op left right =>
      refine .bind (hinner left (by simp [Expr.inner])) fun _ => ?_
      refine .bind (hinner right (by simp [Expr.inner])) fun _ => ?_
      exact (binary_scopeless _ _ _).passes
    | unary op arg =>
      have hvalue : (do unary op (← eval c arg) : Action Value).Passes :=
        .bind (hinner arg (by simp [Expr.inner])) fun _ => (unary_scopeless _ _).passes
      cases op with
      | typeOf =>
        cases arg with
        -- a variable that is not there has a type too, so it is looked up without a failure
        | ident name => exact .bind (.read _) fun _ => .pure _
        | _ => exact hvalue
      | delete =>
        have hplace := evalPlace_passes (ih arg (by simp [Expr.inner])).2
        -- only properties can be deleted; a variable is left alone
        cases arg with
        | member _ _ | index _ _ =>
          refine .bind hplace fun place => ?_
          exact .bind (erasePlace_scopeless place).passes fun _ => .pure _
        | _ => exact .pure _
      | _ => exact hvalue
    | update op before arg =>
      have hplace := evalPlace_passes (ih arg (by simp [Expr.inner])).2
      refine .bind hplace fun place => .bind (getPlace_scopeless c place).passes fun _ => ?_
      refine .bind (.read _) fun old => ?_
      exact .bind (setPlace_passes _ place) fun _ => .pure _
    | conditional test yes no =>
      refine .bind (hinner test (by simp [Expr.inner])) fun v => ?_
      split
      · exact hinner yes (by simp [Expr.inner])
      · exact hinner no (by simp [Expr.inner])
    | sequence items => exact evalLast_passes (fun e h => hinner e (List.mem_map_of_mem h)) _

/-! ## Declarations -/

/-- Functions are declared before anything else in their block runs. -/
theorem declareFunctions_passes (body : List Stmt) : (declareFunctions c body).Passes := by
  induction body with
  | nil => exact .pure _
  | cons stmt rest ih =>
    cases stmt with
    | function own definition =>
      exact .bind (.makeObject _) fun f => .bind (.modify _) fun _ => ih
    | _ => exact ih

/-- Names are declared without a value. -/
theorem declareNames_passes (names : List Name) : (declareNames c names).Passes := by
  induction names with
  | nil => exact .pure _
  | cons name names ih => exact .bind (.modify _) fun _ => ih

/-- Declarators are run one after the other. -/
theorem runDeclarators_passes (kind : DeclarationKind) (declarators : List Declarator) :
    (runDeclarators c kind declarators).Passes := by
  induction declarators with
  | nil => exact .pure _
  | cons d rest ih =>
    obtain ⟨name, init⟩ := d
    -- a `var` without a value does nothing, and any other declarator writes once
    cases init with
    | none =>
      cases kind with
      | functionScoped => exact ih
      | _ => exact .bind (.modify _) fun _ => ih
    | some e =>
      cases kind with
      | _ => exact .bind (eval_passes e) fun v => .bind (.modify _) fun _ => ih

/-- An expression that is missing asks for nothing. -/
theorem evalOptional_passes (e : Option Expr) : (evalOptional c e).Passes := by
  cases e with
  | none => exact .pure _
  | some e => exact eval_passes e

/-- What a loop begins with may be missing, a declaration or an expression. -/
theorem runStart_passes (start : Option ForStart) : (runStart c start).Passes := by
  rcases start with _ | ⟨d⟩ | ⟨e⟩
  · exact .pure _
  · exact runDeclarators_passes d.kind d.declarators
  · exact .bind (eval_passes e) fun _ => .pure _

/-- The tests of a `switch` are computed until one is equal to the subject. -/
theorem findCase_passes (subject : Value) (place : Nat) (cases : List SwitchCase) :
    (findCase c subject place cases).Passes := by
  induction cases generalizing place with
  | nil => exact .pure _
  | cons clause rest ih =>
    obtain ⟨test, body⟩ := clause
    cases test with
    -- the case without a test is passed over while the others are looked at
    | none => exact ih _
    | some test =>
      refine .bind (eval_passes test) fun v => ?_
      split
      · exact .pure _
      · exact ih _

/-! ## Statements -/

/-- A handler is not for fatal faults. -/
theorem runCatch_fatal (handler : Option CatchClause) (why : Fatal) :
    runCatch c (.error (.fatal why)) handler = fault (.fatal why) := by
  cases handler with
  | none => rfl
  | some clause =>
    obtain ⟨param, body⟩ := clause
    rfl

/-- The last part is left out where there is a fatal fault already. -/
theorem runFinally_fatal (finalizer : Option (List Stmt)) (why : Fatal) :
    runFinally c (.error (.fatal why)) finalizer = fault (.fatal why) := by
  cases finalizer <;> rfl

section

variable {body : List Stmt}

/-- Statements are run one after the other. -/
theorem runAll_passes (hrun : ∀ stmt ∈ body, (run c stmt).Passes) : (runAll c body).Passes := by
  induction body with
  | nil => exact .pure _
  | cons stmt rest ih =>
    rw [List.forall_mem_cons] at hrun
    refine .bind hrun.1 fun completion => ?_
    -- the first statement that does not end normally decides how the list ends
    split
    · exact ih hrun.2
    · exact .pure _

/-- The same after the functions among them have been declared. -/
theorem runDeclared_passes (hrun : ∀ stmt ∈ body, (run c stmt).Passes) :
    (do declareFunctions c body; runAll c body : Action Completion).Passes :=
  .bind (declareFunctions_passes body) fun _ => runAll_passes hrun

variable (hrun : ∀ stmt ∈ body, ∀ c, (run c stmt).Passes)

include hrun

/-- The same in a scope of their own. -/
theorem runBlock_passes :
    (do let inner ← makeBlock c
        declareFunctions inner body
        runAll inner body : Action Completion).Passes :=
  .bind (.makeBlock c) fun inner => runDeclared_passes fun stmt h => hrun stmt h inner

/-- A handler is run for what was thrown, and hands on any other result. -/
theorem runCatch_passes (param : Option Name) (result : Except Fault Completion) :
    (runCatch c result (some ⟨param, body⟩)).Passes := by
  rcases result with (thrown | why) | completion
  case ok => exact .resolve (.ok completion)
  case error.fatal => exact .resolve (.error (.fatal why))
  case error.thrown =>
    refine .bind (.makeBlock c) fun inner => ?_
    have hdeclared := runDeclared_passes fun stmt h => hrun stmt h inner
    -- a handler may have no parameter
    cases param with
    | none => exact hdeclared
    | some param => exact .bind (.modify _) fun _ => hdeclared

/-- The last part of a `try` statement takes up the result before it. -/
theorem runFinally_passes (result : Except Fault Completion) :
    (runFinally c result (some body)).Passes := by
  unfold runFinally
  -- where a run comes to nothing, its last parts are left out
  split
  · exact .fault _
  · refine .bind (.makeBlock c) fun inner => .bind (declareFunctions_passes body) fun _ => ?_
    refine .bind (runAll_passes fun stmt h => hrun stmt h inner) fun completion => ?_
    -- the last part hides the result before it only if it ends in a jump
    split
    · exact .resolve _
    · exact .pure _

end

/-- The statements of a `switch` are run from the case that was found. -/
theorem runCases_passes (start : Nat) {cases : List SwitchCase}
    (hrun : ∀ clause ∈ cases, ∀ stmt ∈ clause.body, (run c stmt).Passes) :
    (runCases c start cases).Passes := by
  induction cases generalizing start with
  | nil => exact .pure _
  | cons clause rest ih =>
    obtain ⟨test, body⟩ := clause
    rw [List.forall_mem_cons] at hrun
    -- the cases before the one that was found are passed over
    cases start with
    | succ start => exact ih start hrun.2
    | zero =>
      refine .bind (declareFunctions_passes body) fun _ => ?_
      refine .bind (runAll_passes hrun.1) fun completion => ?_
      cases completion with
      | normal => exact ih 0 hrun.2
      | broke | gaveBack _ | continued => exact .pure _

/-- A statement takes up what was thrown in it, and nothing else. -/
theorem run_passes (stmt : Stmt) (c : Context) : (run c stmt).Passes := by
  -- statements inside run in scopes made for them, so the induction is for every context
  induction stmt using Part.stmt_induction generalizing c with
  | step stmt ih =>
    cases stmt with
    | expr e => exact .bind (eval_passes e) fun _ => .pure _
    | declare d => exact .bind (runDeclarators_passes d.kind d.declarators) fun _ => .pure _
    | function own definition => exact .pure _
    | giveBack value => exact .bind (evalOptional_passes value) fun _ => .pure _
    -- at most one of the two statements is run
    | ifElse test yes no =>
      refine .bind (eval_passes test) fun v => ?_
      split
      · exact ih yes (by simp [Stmt.inner]) c
      · cases no with
        | none => exact .pure _
        | some no => exact ih no (by simp [Stmt.inner]) c
    | block body => exact runBlock_passes fun stmt h => ih stmt (List.mem_map_of_mem h)
    | forLoop start test step body =>
      -- the loop itself is asked for, so it runs turn by turn outside this action
      exact .bind (.makeBlock c) fun inner => .bind (runStart_passes start) fun _ => .request _
    | whileLoop test body => exact .request _
    | switch subject cases =>
      have hbodies : ∀ clause ∈ cases, ∀ stmt ∈ clause.body, ∀ c, (run c stmt).Passes :=
        fun clause h stmt hmem => ih stmt (List.mem_cons_of_mem _ (List.mem_flatMap.mpr
          ⟨clause, h, List.mem_append_right _ (List.mem_map_of_mem hmem)⟩))
      refine .bind (eval_passes subject) fun v => .bind (findCase_passes v 0 cases) fun found => ?_
      split
      · exact .pure _
      · refine .bind (.makeBlock c) fun inner => ?_
        exact runCases_passes _ fun clause h stmt hmem => hbodies clause h stmt hmem inner
    | attempt body handler finalizer =>
      have hblock : ∀ stmt ∈ body, ∀ c, (run c stmt).Passes :=
        fun stmt h => ih stmt (by simp [Stmt.inner, h])
      -- neither the handler nor the last part changes a result that is a fatal fault
      refine .handle (.handle (runBlock_passes hblock) (runCatch_fatal handler) fun result => ?_)
        (runFinally_fatal finalizer) fun result => ?_
      · cases handler with
        | none => exact .resolve _
        | some clause =>
          obtain ⟨param, stmts⟩ := clause
          have hcatch : ∀ stmt ∈ stmts, ∀ c, (run c stmt).Passes :=
            fun stmt h => ih stmt (by simp [Stmt.inner, CatchClause.inner, h])
          exact runCatch_passes hcatch param result
      · cases finalizer with
        | none => exact .resolve _
        | some last =>
          have hlast : ∀ stmt ∈ last, ∀ c, (run c stmt).Passes :=
            fun stmt h => ih stmt (by simp [Stmt.inner, h])
          exact runFinally_passes hlast result
    | raise e => exact .bind (eval_passes e) fun v => .fault _
    | breakOut | continueLoop | empty => exact .pure _

/-! ## Functions and loops -/

/-- The body of a function declares its names and functions first. -/
theorem runBody_passes (body : List Stmt) : (runBody c body).Passes :=
  .bind (declareNames_passes _) fun _ => runDeclared_passes fun stmt _ => run_passes stmt c

/-- A turn of a loop ends the loop where its test, body or step ends in a fault. -/
theorem turn_passes (l : Loop) : (turn l).Passes := by
  -- a loop without a test goes on
  refine .bind ?_ fun goesOn => ?_
  · cases l.test with
    | none => exact .pure _
    | some test => exact .bind (eval_passes test) fun _ => .pure _
  · split
    · refine .bind (run_passes l.body l.context) fun completion => ?_
      cases completion with
      | broke | gaveBack _ => exact .pure _
      | normal | continued => exact .bind (evalOptional_passes l.step) fun _ => .pure _
    · exact .pure _

/-- So does every function: what it calls may be refused, and then it has ended. -/
theorem enter_passes (f : Callable) (this : Value) (args : List Value) :
    (enter f this args).Passes := by
  cases f with
  | native n => exact .bind (runNative_scopeless n this args).passes fun _ => .pure _
  -- parameters, and the list of all arguments, are bound in the scope of the call
  | closure definition scope =>
    refine .bind (.makeScope _) fun inner => .bind (.modify _) fun _ => ?_
    exact .bind (.makeObject _) fun list => .bind (.modify _) fun _ => runBody_passes _
  | arrow params body scope this =>
    refine .bind (.makeScope _) fun inner => .bind (.modify _) fun _ => ?_
    cases body with
    | expr e => exact .bind (eval_passes e) fun _ => .pure _
    | block body => exact runBody_passes body

end Action

end Descramble
