import Descramble.Proofs.Script.Part
import Descramble.Script.Hoisting

/-!
# Names that a script binds

`Part.bound` are the names that a part binds or writes to, without the parts inside it. A script
spares a name that is nowhere among these, though it may read it. Names of properties do not count.

`Stmt.jumps` are the jumps that lead out of a statement: every loop takes a `break` and a `continue`
in it, every `switch` a `break`, and every function a `return`.

Main statement: `not_mem_hoisted`, a statement that spares a name does not hoist it.
-/

namespace Descramble

/-! ## Bound names -/

def Declaration.names (d : Declaration) : List Name :=
  d.declarators.map Declarator.name

/-- The names that an expression binds or writes to. -/
def Expr.bound : Expr → List Name
  | .function name definition => name.toList ++ definition.params
  | .arrow params _ => params
  | .assign _ target _ => target.ident?.toList
  | .update _ _ target => target.ident?.toList
  | _ => []

def ForStart.bound : ForStart → List Name
  | .declare d => d.names
  | .expr _ => []

/-- The names that a statement binds. -/
def Stmt.bound : Stmt → List Name
  | .declare d => d.names
  | .function name definition => name :: definition.params
  | .forLoop (some start) _ _ _ => start.bound
  | .attempt _ (some clause) _ => clause.param.toList
  | _ => []

namespace Part

/-- The names that a part binds or writes to. -/
def bound : Part → List Name
  | .expr e => e.bound
  | .stmt s => s.bound

/-- Whether a part neither binds a name nor writes to it. -/
def Spares (name : Name) (part : Part) : Prop :=
  name ∉ part.bound

instance (name : Name) : DecidablePred (Part.Spares name) :=
  fun part => inferInstanceAs (Decidable (name ∉ part.bound))

/-- A fact about all statements follows from the statements directly inside each. -/
theorem stmt_induction {motive : Stmt → Prop}
    (step : ∀ s, (∀ other, .stmt other ∈ s.inner → motive other) → motive s) (s : Stmt) :
    motive s := by
  -- a part is a statement or not, so the induction is over all parts and speaks of some
  have h : ∀ part : Part, ∀ s, part = .stmt s → motive s := by
    intro part
    induction part using Part.induction with
    | step part ih =>
      rintro s rfl
      exact step s fun other hmem => ih (.stmt other) hmem other rfl
  exact h (.stmt s) s rfl

end Part

/-- A script that neither binds a name nor writes to it. -/
def Program.Spares (name : Name) (p : Program) : Prop :=
  ∀ s ∈ p.body, Part.Everywhere (Part.Spares name) (.stmt s)

/-- A function that neither binds a name nor writes to it. -/
def Function.Spares (name : Name) (f : Function) : Prop :=
  name ∉ f.params ∧ ∀ part ∈ f.inner, Part.Everywhere (Part.Spares name) part

/-! ## Hoisted names -/

namespace Stmt

/-- Statements hoist what each of them hoists. -/
theorem mem_hoistedAll {name : Name} {body : List Stmt} :
    name ∈ hoistedAll body ↔ ∃ s ∈ body, name ∈ s.hoisted := by
  induction body with
  | nil => simp [hoistedAll]
  | cons s ss ih => simp [hoistedAll, ih]

/-- Cases hoist what the statements of each hoist. -/
theorem mem_hoistedCases {name : Name} {cases : List SwitchCase} :
    name ∈ hoistedCases cases ↔ ∃ clause ∈ cases, name ∈ hoistedAll clause.body := by
  induction cases with
  | nil => simp [hoistedCases]
  | cons clause rest ih =>
    obtain ⟨test, body⟩ := clause
    simp [hoistedCases, ih]

/-- A declaration hoists nothing but its own names, and only a `var` does. -/
theorem hoisted_subset_names {d : Declaration} : d.hoisted ⊆ d.names := by
  unfold Declaration.hoisted
  split
  · exact fun _ h => h
  · simp

variable {name : Name}

/-- A statement that spares a name does not hoist it. -/
theorem not_mem_hoisted {s : Stmt} (h : Part.Everywhere (Part.Spares name) (.stmt s)) :
    name ∉ s.hoisted := by
  induction s using Part.stmt_induction with
  | step s ih =>
    -- a statement hoists what it declares itself and what the statements inside it hoist, and no
    -- more: a function keeps its declarations
    have hinner : ∀ other, .stmt other ∈ s.inner → name ∉ other.hoisted :=
      fun other hmem => ih other hmem (h.inside hmem)
    have hall : ∀ body : List Stmt, (∀ other ∈ body, .stmt other ∈ s.inner) →
        name ∉ hoistedAll body := by
      intro body hbody hmem
      obtain ⟨other, hother, hname⟩ := mem_hoistedAll.mp hmem
      exact hinner other (hbody other hother) hname
    -- what the statement binds itself is known, and what is inside it by the induction
    have hhere : name ∉ s.bound := h.here
    cases s with
    | declare d => exact fun hmem => hhere (hoisted_subset_names hmem)
    | ifElse test yes no =>
      have hyes := hinner yes (by simp [inner])
      cases no with
      | none => exact hyes
      | some no => simp [hoisted, hyes, hinner no (by simp [inner])]
    | block body => exact hall body (by simp [inner])
    | forLoop start test step body =>
      have hbody := hinner body (by simp [inner])
      cases start with
      | none => exact hbody
      | some start =>
        cases start with
        | declare d =>
          have hd : name ∉ d.hoisted := fun hmem => hhere (hoisted_subset_names hmem)
          simp [hoisted, ForStart.hoisted, hd, hbody]
        | expr e => simp [hoisted, ForStart.hoisted, hbody]
    | whileLoop test body => exact hinner body (by simp [inner])
    | switch subject cases =>
      intro hmem
      obtain ⟨clause, hclause, hname⟩ := mem_hoistedCases.mp hmem
      refine hall clause.body (fun other hother => ?_) hname
      exact List.mem_cons_of_mem _ (List.mem_flatMap.mpr
        ⟨clause, hclause, List.mem_append_right _ (List.mem_map_of_mem hother)⟩)
    | attempt body handler finalizer =>
      have hbody := hall body (by simp +contextual [inner])
      -- a handler binds its parameter in its own scope, which hoists nothing
      have hcatch : name ∉ hoistedCatch handler := by
        cases handler with
        | none => simp [hoistedCatch]
        | some clause =>
          obtain ⟨param, body⟩ := clause
          exact hall body (by simp +contextual [inner, CatchClause.inner])
      have hfinally : name ∉ hoistedFinally finalizer := by
        cases finalizer with
        | none => simp [hoistedFinally]
        | some body => exact hall body (by simp +contextual [inner])
      simp [hoisted, hbody, hcatch, hfinally]
    | _ => simp [hoisted]

/-- Statements that spare a name hoist it nowhere. -/
theorem not_mem_hoistedAll {body : List Stmt}
    (h : ∀ s ∈ body, Part.Everywhere (Part.Spares name) (.stmt s)) : name ∉ hoistedAll body := by
  intro hmem
  obtain ⟨s, hs, hname⟩ := mem_hoistedAll.mp hmem
  exact not_mem_hoisted (h s hs) hname

end Stmt

/-! ## Jumps -/

/-- How a statement may lead out of those around it. -/
inductive Jump where
  | giveBack
  | breakOut
  | continueLoop
deriving DecidableEq

namespace Stmt

mutual

/-- The jumps that lead out of a statement. -/
def jumps : Stmt → List Jump
  | .giveBack _ => [.giveBack]
  | .breakOut => [.breakOut]
  | .continueLoop => [.continueLoop]
  | .ifElse _ yes none => yes.jumps
  | .ifElse _ yes (some no) => yes.jumps ++ no.jumps
  | .block body => jumpsAll body
  | .forLoop _ _ _ body => body.jumps.filter (· = .giveBack)
  | .whileLoop _ body => body.jumps.filter (· = .giveBack)
  | .switch _ cases => (jumpsCases cases).filter (· ≠ .breakOut)
  | .attempt body handler finalizer =>
    jumpsAll body ++ jumpsCatch handler ++ jumpsFinally finalizer
  | _ => []

def jumpsAll : List Stmt → List Jump
  | [] => []
  | s :: ss => s.jumps ++ jumpsAll ss

def jumpsCases : List SwitchCase → List Jump
  | [] => []
  | ⟨_, body⟩ :: rest => jumpsAll body ++ jumpsCases rest

def jumpsCatch : Option CatchClause → List Jump
  | none => []
  | some ⟨_, body⟩ => jumpsAll body

def jumpsFinally : Option (List Stmt) → List Jump
  | none => []
  | some body => jumpsAll body

end

/-- Nothing leads out of statements if nothing leads out of any of them. -/
theorem jumpsAll_eq_nil_iff {body : List Stmt} : jumpsAll body = [] ↔ ∀ s ∈ body, s.jumps = [] := by
  induction body with
  | nil => simp [jumpsAll]
  | cons s ss ih => simp [jumpsAll, ih]

end Stmt

end Descramble
