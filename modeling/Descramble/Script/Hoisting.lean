import Descramble.Script.Tree

/-!
# Hoisted names

A `var` declaration anywhere in the body of a function, but not in a function inside it, declares
its names for the whole body.
-/

namespace Descramble

/-- The names that a declaration declares for the whole function. -/
def Declaration.hoisted (d : Declaration) : List Name :=
  if d.kind = .functionScoped then d.declarators.map Declarator.name else []

def ForStart.hoisted : ForStart → List Name
  | .declare d => d.hoisted
  | .expr _ => []

namespace Stmt

mutual

/-- The names that a statement declares for the whole function. -/
def hoisted : Stmt → List Name
  | .declare d => d.hoisted
  | .ifElse _ yes none => yes.hoisted
  | .ifElse _ yes (some no) => yes.hoisted ++ no.hoisted
  | .block body => hoistedAll body
  | .forLoop none _ _ body => body.hoisted
  | .forLoop (some start) _ _ body => start.hoisted ++ body.hoisted
  | .whileLoop _ body => body.hoisted
  | .switch _ cases => hoistedCases cases
  | .attempt body handler finalizer =>
    hoistedAll body ++ hoistedCatch handler ++ hoistedFinally finalizer
  | _ => []

def hoistedAll : List Stmt → List Name
  | [] => []
  | s :: ss => s.hoisted ++ hoistedAll ss

def hoistedCases : List SwitchCase → List Name
  | [] => []
  | ⟨_, body⟩ :: rest => hoistedAll body ++ hoistedCases rest

def hoistedCatch : Option CatchClause → List Name
  | none => []
  | some ⟨_, body⟩ => hoistedAll body

def hoistedFinally : Option (List Stmt) → List Name
  | none => []
  | some body => hoistedAll body

end

end Stmt

end Descramble
