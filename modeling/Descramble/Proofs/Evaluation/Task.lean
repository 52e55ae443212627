import Descramble.Proofs.Evaluation.Doing
import Mathlib.Logic.Relation

/-!
# What a function does itself

The body of a function runs in pieces, each of them in a context: statements, declarations, the
cases of a `switch` and the turns of a loop. `Task.Next` leads from a piece to each piece that runs
as a part of it, through blocks, branches, loops, cases, handlers and last parts. It never leads
into another function: the body of that is run by a request.

Main statement: `Task.Next.contains`, a piece that `Next` leads to does run as a part of the other,
in the store in which that comes to it.
-/

namespace Descramble

namespace Action

/-- An action gives a value, from one store to another, at a level of calls. -/
def Gives {α : Type} (d : Nat) (x : Action α) (s : Store) (a : α) (s' : Store) : Prop :=
  (x s).Ends d (.ok a) s' d

/-- What the body of a function starts with. -/
def hoist (c : Context) (body : List Stmt) : Action Unit := do
  declareNames c (Stmt.hoistedAll body)
  declareFunctions c body

/-- What a block starts with: its scope and the functions declared in it. -/
def openBlock (c : Context) (body : List Stmt) : Action Context := do
  let inner ← makeBlock c
  declareFunctions inner body
  return inner

/-- What a handler starts with: a block that may bind what was thrown. -/
def openHandler (c : Context) (clause : CatchClause) (thrown : Value) : Action Context := do
  let inner ← makeBlock c
  match clause.param with
  | some name => modify (·.bind inner.scope name thrown)
  | none => pure ()
  declareFunctions inner clause.body
  return inner

/-- What a `for` loop starts with: its scope and its first part. -/
def openLoop (c : Context) (start : Option ForStart) : Action Context := do
  let inner ← makeBlock c
  runStart inner start
  return inner

end Action

/-! ## Pieces of a body -/

/-- A piece of the body of a function, in the context in which it runs. -/
inductive Task where
  | all (c : Context) (stmts : List Stmt)
  | stmt (c : Context) (stmt : Stmt)
  | declaration (c : Context) (d : Declaration)
  | cases (c : Context) (start : Nat) (cases : List SwitchCase)
  | loop (l : Loop)

namespace Task

/-- The context in which a piece runs. -/
def context : Task → Context
  | .all c _ | .stmt c _ | .declaration c _ | .cases c _ _ => c
  | .loop l => l.context

/-- The names that a piece declares for the whole function. -/
def hoisted : Task → List Name
  | .all _ stmts => Stmt.hoistedAll stmts
  | .stmt _ one => one.hoisted
  | .declaration _ d => d.hoisted
  | .cases _ _ clauses => Stmt.hoistedCases clauses
  | .loop l => l.body.hoisted

/-- One piece comes to run as a part of another, after what runs before it. -/
inductive Next (d : Nat) : Task × Store → Task × Store → Prop
  | first {c : Context} {stmt : Stmt} {rest : List Stmt} {s : Store} :
      Next d (.all c (stmt :: rest), s) (.stmt c stmt, s)
  | rest {c : Context} {stmt : Stmt} {rest : List Stmt} {s s' : Store}
      (h : (Action.run c stmt).Gives d s .normal s') :
      Next d (.all c (stmt :: rest), s) (.all c rest, s')
  | declare {c : Context} {declaration : Declaration} {s : Store} :
      Next d (.stmt c (.declare declaration), s) (.declaration c declaration, s)
  | later {c : Context} {kind : DeclarationKind} {declarator : Declarator}
      {rest : List Declarator} {s s' : Store}
      (h : (Action.runDeclarators c kind [declarator]).Gives d s () s') :
      Next d (.declaration c ⟨kind, declarator :: rest⟩, s) (.declaration c ⟨kind, rest⟩, s')
  | yes {c : Context} {test : Expr} {yes : Stmt} {no : Option Stmt} {v : Value} {s s' : Store}
      (h : (Action.eval c test).Gives d s v s') (hv : Store.truthy v = true) :
      Next d (.stmt c (.ifElse test yes no), s) (.stmt c yes, s')
  | no {c : Context} {test : Expr} {yes no : Stmt} {v : Value} {s s' : Store}
      (h : (Action.eval c test).Gives d s v s') (hv : Store.truthy v = false) :
      Next d (.stmt c (.ifElse test yes (some no)), s) (.stmt c no, s')
  | block {c inner : Context} {stmts : List Stmt} {s s' : Store}
      (h : (Action.openBlock c stmts).Gives d s inner s') :
      Next d (.stmt c (.block stmts), s) (.all inner stmts, s')
  | forStart {c inner : Context} {declaration : Declaration} {test step : Option Expr}
      {stmt : Stmt} {s s' : Store} (h : (Action.makeBlock c).Gives d s inner s') :
      Next d (.stmt c (.forLoop (some (.declare declaration)) test step stmt), s)
        (.declaration inner declaration, s')
  | forLoop {c inner : Context} {start : Option ForStart} {test step : Option Expr} {stmt : Stmt}
      {s s' : Store} (h : (Action.openLoop c start).Gives d s inner s') :
      Next d (.stmt c (.forLoop start test step stmt), s) (.loop ⟨test, step, stmt, inner⟩, s')
  | whileLoop {c : Context} {test : Expr} {stmt : Stmt} {s : Store} :
      Next d (.stmt c (.whileLoop test stmt), s) (.loop ⟨some test, none, stmt, c⟩, s)
  | again {l : Loop} {s s' : Store} (h : (Action.turn l).Gives d s .continued s') :
      Next d (.loop l, s) (.loop l, s')
  | always {l : Loop} {s : Store} (htest : l.test = none) :
      Next d (.loop l, s) (.stmt l.context l.body, s)
  | goesOn {l : Loop} {test : Expr} {v : Value} {s s' : Store} (htest : l.test = some test)
      (h : (Action.eval l.context test).Gives d s v s') (hv : Store.truthy v = true) :
      Next d (.loop l, s) (.stmt l.context l.body, s')
  | switch {c inner : Context} {subject : Expr} {cases : List SwitchCase} {v : Value}
      {found : Option Nat} {start : Nat} {s s₁ s₂ s' : Store}
      (hsubject : (Action.eval c subject).Gives d s v s₁)
      (hfound : (Action.findCase c v 0 cases).Gives d s₁ found s₂)
      (hstart : (found <|> Action.defaultCase? cases) = some start)
      (h : (Action.makeBlock c).Gives d s₂ inner s') :
      Next d (.stmt c (.switch subject cases), s) (.cases inner start cases, s')
  | passedOver {c : Context} {start : Nat} {clause : SwitchCase} {rest : List SwitchCase}
      {s : Store} : Next d (.cases c (start + 1) (clause :: rest), s) (.cases c start rest, s)
  | thisCase {c : Context} {clause : SwitchCase} {rest : List SwitchCase} {s s' : Store}
      (h : (Action.declareFunctions c clause.body).Gives d s () s') :
      Next d (.cases c 0 (clause :: rest), s) (.all c clause.body, s')
  | nextCase {c : Context} {clause : SwitchCase} {rest : List SwitchCase} {s s₁ s' : Store}
      (hdeclare : (Action.declareFunctions c clause.body).Gives d s () s₁)
      (h : (Action.runAll c clause.body).Gives d s₁ .normal s') :
      Next d (.cases c 0 (clause :: rest), s) (.cases c 0 rest, s')
  | attempt {c : Context} {stmts : List Stmt} {handler : Option CatchClause}
      {finalizer : Option (List Stmt)} {s : Store} :
      Next d (.stmt c (.attempt stmts handler finalizer), s) (.stmt c (.block stmts), s)
  | handler {c inner : Context} {stmts : List Stmt} {clause : CatchClause}
      {finalizer : Option (List Stmt)} {thrown : Value} {s s₁ s' : Store}
      (hthrown : (Action.run c (.block stmts) s).Ends d (.error (.thrown thrown)) s₁ d)
      (h : (Action.openHandler c clause thrown).Gives d s₁ inner s') :
      Next d (.stmt c (.attempt stmts (some clause) finalizer), s) (.all inner clause.body, s')
  | finalizer {c : Context} {stmts last : List Stmt} {handler : Option CatchClause}
      {result result' : Except Fault Completion} {s s₁ s' : Store}
      (htry : (Action.run c (.block stmts) s).Ends d result s₁ d)
      (hcatch : (Action.runCatch c result handler s₁).Ends d result' s' d)
      (hresult : ∀ why, result' ≠ .error (.fatal why)) :
      Next d (.stmt c (.attempt stmts handler (some last)), s) (.stmt c (.block last), s')

end Task

/-! ## Parts of a run -/

/-- A step contains another if that begins it, or goes on after its beginning has come to an end, or
    is contained in a turn of a loop that it asks for. What is called is no part of a step. -/
inductive Step.Contains (d : Nat) : {α β : Type} → Step α → Step β → Prop where
  | refl {α : Type} (x : Step α) : Contains d x x
  | start {α β γ : Type} {x : Step α} {f : Except Fault α → Store → Step β} {y : Step γ}
      (h : Contains d x y) : Contains d (x.followedBy f) y
  | after {α β γ : Type} {x : Step α} {f : Except Fault α → Store → Step β} {y : Step γ}
      {r : Except Fault α} {s : Store} (hx : x.Ends d r s d) (h : Contains d (f r s) y) :
      Contains d (x.followedBy f) y
  | turn {α β : Type} {l : Loop} {s : Store} {k : Except Fault Completion → Store → Step α}
      {y : Step β} (h : Contains d (Action.turn l s) y) : Contains d (.ask (.loop l) s k) y
  | again {α β : Type} {l : Loop} {s s' : Store} {k : Except Fault Completion → Store → Step α}
      {y : Step β} (hturn : (Action.turn l).Gives d s .continued s')
      (h : Contains d (.ask (.loop l) s' k) y) : Contains d (.ask (.loop l) s k) y

namespace Step.Contains

variable {α β γ : Type} {d : Nat} {x : Action α} {f : α → Action β} {y : Step γ} {s s' : Store}

/-- What comes first in a sequence is a part of it. -/
theorem bind_start (h : Contains d (x s) y) : Contains d ((x >>= f) s) y :=
  .start h

/-- So is what comes next, after the first action has given a value. -/
theorem bind_after {a : α} (hx : x.Gives d s a s') (h : Contains d (f a s') y) :
    Contains d ((x >>= f) s) y :=
  .after hx h

/-- A part of a part is a part. -/
theorem trans {x : Step α} {y : Step β} {z : Step γ} (h : Contains d x y)
    (h' : Contains d y z) : Contains d x z := by
  -- along the way to the first part, which is the same for the second
  induction h with
  | refl => exact h'
  | start _ ih => exact .start (ih h')
  | after hx _ ih => exact .after hx (ih h')
  | turn _ ih => exact .turn (ih h')
  | again hturn _ ih => exact .again hturn (ih h')

end Step.Contains

/-! ## How pieces run -/

namespace Action

variable {c : Context}

/-- A body runs after its names and functions have been declared. -/
theorem runBody_eq (body : List Stmt) :
    runBody c body = (do hoist c body; runAll c body) := by
  unfold runBody hoist
  rw [bind_assoc]

/-- Declarators run one after the other. -/
theorem runDeclarators_cons (kind : DeclarationKind) (declarator : Declarator)
    (rest : List Declarator) : runDeclarators c kind (declarator :: rest) =
      (do runDeclarators c kind [declarator]; runDeclarators c kind rest) := by
  obtain ⟨name, init⟩ := declarator
  -- without an initial value it depends on the kind whether anything is bound
  cases init with
  | none => cases kind <;> rfl
  | some e =>
    cases kind <;>
    · simp only [runDeclarators, bind_assoc]
      rfl

/-- A block runs in the scope that it opens. -/
theorem run_block (body : List Stmt) :
    run c (.block body) = (do let inner ← openBlock c body; runAll inner body) := by
  simp only [run, openBlock, bind_assoc, pure_bind]

/-- A `for` loop asks for its turns in the scope that it opens. -/
theorem run_forLoop (start : Option ForStart) (test step : Option Expr) (body : Stmt) :
    run c (.forLoop start test step body) =
      (do let inner ← openLoop c start; request (.loop ⟨test, step, body, inner⟩)) := by
  simp only [run, openLoop, bind_assoc, pure_bind]

/-- A handler that is given what was thrown runs in the scope that it opens. -/
theorem runCatch_thrown (clause : CatchClause) (thrown : Value) :
    runCatch c (.error (.thrown thrown)) (some clause) = (do
      let inner ← openHandler c clause thrown
      runAll inner clause.body) := by
  obtain ⟨param, body⟩ := clause
  -- a handler without a parameter binds nothing
  cases param <;> simp only [runCatch, openHandler, bind_assoc, pure_bind]

/-- The last part of a `try` statement runs as a block, unless the run has come to nothing. -/
theorem runFinally_some {result : Except Fault Completion} (body : List Stmt)
    (hresult : ∀ why, result ≠ .error (.fatal why)) :
    runFinally c result (some body) = (do
      match ← run c (.block body) with
      | .normal => resolve result
      | jump => return jump) := by
  have hblock : run c (.block body) = (makeBlock c >>= fun inner =>
      declareFunctions inner body >>= fun _ => runAll inner body) := by
    simp only [run]
  have hlast : runFinally c result (some body) = (do
      let inner ← makeBlock c
      declareFunctions inner body
      match ← runAll inner body with
      | .normal => resolve result
      | jump => return jump) := by
    -- only a run that has come to nothing passes the last part over
    rcases result with (v | why) | completion
    case error.fatal => exact absurd rfl (hresult why)
    all_goals rfl
  rw [hlast, hblock, bind_assoc]
  -- the scope of the block is made first, whatever is done with how its statements end
  refine congrArg (makeBlock c >>= ·) (funext fun inner => ?_)
  exact (bind_assoc _ _ _).symm

/-- Block, handler and last part of a `try` statement are given what comes before them. -/
theorem run_attempt (body : List Stmt) (handler : Option CatchClause)
    (finalizer : Option (List Stmt)) :
    run c (.attempt body handler finalizer) =
      handle (handle (run c (.block body)) fun result => runCatch c result handler)
        fun result => runFinally c result finalizer := by
  simp only [run]

end Action

namespace Task

/-- What a piece ends in. -/
def Result : Task → Type
  | .declaration _ _ => Unit
  | _ => Completion

/-- What running a piece means. -/
def action : (t : Task) → Action t.Result
  | .all c stmts => Action.runAll c stmts
  | .stmt c one => Action.run c one
  | .declaration c d => Action.runDeclaration c d
  | .cases c start clauses => Action.runCases c start clauses
  | .loop l => Action.request (.loop l)

/-- What `Next` leads to runs as a part of the piece before, in the store as it is then. -/
theorem Next.contains {d : Nat} {p q : Task × Store} (h : Next d p q) :
    Step.Contains d (p.1.action p.2) (q.1.action q.2) := by
  -- each way to go on is a way in which the piece before is put together
  cases h with
  | first => exact .bind_start (.refl _)
  | rest hrun => exact .bind_after hrun (.refl _)
  | declare => exact .bind_start (.refl _)
  | @later c kind declarator rest s s' hrun =>
    show Step.Contains d (Action.runDeclarators c kind (declarator :: rest) s) _
    rw [Action.runDeclarators_cons]
    exact .bind_after hrun (.refl _)
  | @yes c test yes no v s s' htest hv =>
    refine .bind_after htest ?_
    rw [if_pos hv]
    exact .refl _
  | @no c test yes no v s s' htest hv =>
    refine .bind_after htest ?_
    rw [if_neg (Bool.eq_false_iff.mp hv)]
    exact .refl _
  | @block c inner stmts s s' hopen =>
    show Step.Contains d (Action.run c (.block stmts) s) _
    rw [Action.run_block]
    exact .bind_after hopen (.refl _)
  | forStart hopen => exact .bind_after hopen (.bind_start (.refl _))
  | @forLoop c inner start test step stmt s s' hopen =>
    show Step.Contains d (Action.run c (.forLoop start test step stmt) s) _
    rw [Action.run_forLoop]
    exact .bind_after hopen (.refl _)
  | whileLoop => exact .refl _
  | again hturn => exact .again hturn (.refl _)
  | @always l s htest =>
    obtain ⟨test, step, body, context⟩ := l
    cases htest
    -- without a test a turn begins with the body
    exact .turn (.bind_after (a := true) .done (.bind_start (.refl _)))
  | @goesOn l test v s s' htest heval hv =>
    obtain ⟨_, step, body, context⟩ := l
    cases htest
    refine .turn ?_
    -- the test is a part of what comes before the body
    simp only [Action.turn, bind_assoc, pure_bind]
    refine .bind_after heval ?_
    rw [if_pos hv]
    exact .bind_start (.refl _)
  | @switch c inner subject cases v found start s s₁ s₂ s' hsubject hfound hstart hopen =>
    refine .bind_after hsubject (.bind_after hfound ?_)
    rw [hstart]
    exact .bind_after hopen (.refl _)
  | passedOver => exact .refl _
  | @thisCase c clause rest s s' hdeclare =>
    obtain ⟨test, stmts⟩ := clause
    exact .bind_after hdeclare (.bind_start (.refl _))
  | @nextCase c clause rest s s₁ s' hdeclare hrun =>
    obtain ⟨test, stmts⟩ := clause
    exact .bind_after hdeclare (.bind_after hrun (.refl _))
  | @attempt c stmts handler finalizer s =>
    show Step.Contains d (Action.run c (.attempt stmts handler finalizer) s) _
    rw [Action.run_attempt]
    exact .start (.start (.refl _))
  | @handler c inner stmts clause finalizer thrown s s₁ s' hthrown hopen =>
    show Step.Contains d (Action.run c (.attempt stmts (some clause) finalizer) s) _
    rw [Action.run_attempt]
    -- the handler begins where the block has ended, and the last part waits for it
    refine .start (.after hthrown ?_)
    show Step.Contains d (Action.runCatch c (.error (.thrown thrown)) (some clause) s₁) _
    rw [Action.runCatch_thrown]
    exact .bind_after hopen (.refl _)
  | @finalizer c stmts last handler result result' s s₁ s' htry hcatch hresult =>
    show Step.Contains d (Action.run c (.attempt stmts handler (some last)) s) _
    rw [Action.run_attempt]
    refine .after (htry.followedBy hcatch) ?_
    show Step.Contains d (Action.runFinally c result' (some last) s') _
    rw [Action.runFinally_some last hresult]
    exact .bind_start (.refl _)

/-- All that a path of pieces leads to runs as a part of the first. -/
theorem contains_of_reaches {d : Nat} {p q : Task × Store}
    (h : Relation.ReflTransGen (Next d) p q) :
    Step.Contains d (p.1.action p.2) (q.1.action q.2) := by
  -- along the path; each piece is a part of the one before
  induction h with
  | refl => exact .refl _
  | tail _ hnext ih => exact ih.trans hnext.contains

end Task

end Descramble
