import Descramble.Proofs.Script.Part
import Descramble.Transform.Reduction

/-!
# The module of a script

A script with a module is the module's wrapper around its body. Around another body the wrapper
makes a script whose module has that body, and what holds everywhere in both holds everywhere in it.
A script with a module can always be given another body.

Main statements: `ModuleCall.body_of_ofProgram?`, `ModuleCall.ofProgram?_rewrap`,
`ModuleCall.rewrap?_eq_some` and `ModuleCall.everywhere_rewrap`.
-/

namespace Descramble

/-- What is called to enter a module function. -/
def Entry.callee (entry : Entry) (f : Expr) : Expr :=
  match entry with
  | .direct => f
  | .member name => .member f name
  | .index key => .index f key

/-- What holds everywhere in a callee holds everywhere in the function that is entered by it. -/
theorem Entry.everywhere_of_callee {P : Part → Prop} {entry : Entry} {f : Expr}
    (h : Part.Everywhere P (.expr (entry.callee f))) : Part.Everywhere P (.expr f) := by
  cases entry with
  | direct => exact h
  | member name => exact h.inside (.head _)
  | index key => exact h.inside (.head _)

/-- A function is given by its parameters and its body. -/
theorem Function.eta (f : Function) : (⟨f.params, f.body⟩ : Function) = f := by
  cases f
  rfl

/-- Whether a property says nothing about what is called or accessed and nothing about the body of a
    function, so that it holds of a wrapper whatever is wrapped. -/
structure Part.OfWrapper (P : Part → Prop) : Prop where
  stmt {e e' : Expr} : P (.stmt (.expr e)) → P (.stmt (.expr e'))
  call {f f' : Expr} {args : List Expr} : P (.expr (.call f args)) → P (.expr (.call f' args))
  member {f f' : Expr} {name : Name} :
    P (.expr (.member f name)) → P (.expr (.member f' name))
  index {f f' key : Expr} : P (.expr (.index f key)) → P (.expr (.index f' key))
  function {name : Option Name} {f : Function} {body : List Stmt} :
    P (.expr (.function name f)) → P (.expr (.function name ⟨f.params, body⟩))

namespace ModuleCall

variable {p : Program} {m : ModuleCall}

/-! ## Recognition -/

/-- The module that a statement calls directly. -/
def ofDirectCall? : Stmt → Option ModuleCall
  | .expr (.call (.function name f) args) => some ⟨[], name, f, .direct, args⟩
  | _ => none

/-- After another statement the module must be called directly. -/
theorem ofProgram?_two (first last : Stmt) :
    ofProgram? ⟨[first, last]⟩ =
      (ofDirectCall? last).map fun m => { m with leading := [first] } := by
  unfold ofProgram?
  split
  · rename_i h
    cases h
  · rename_i h
    cases h
  · rename_i h
    cases h
  · rename_i h
    cases h
    rfl
  -- the only pattern with two statements is the last one, so if it fails, the second is no direct
  -- call
  · rename_i hnone
    unfold ofDirectCall?
    split
    · exact absurd rfl (hnone _ _ _ _)
    · rfl

/-- A script of three statements or more has no module. -/
theorem ofProgram?_of_three (first second third : Stmt) (rest : List Stmt) :
    ofProgram? ⟨first :: second :: third :: rest⟩ = none := by
  unfold ofProgram?
  split
  · rename_i h
    cases h
  · rename_i h
    cases h
  · rename_i h
    cases h
  · rename_i h
    cases h
  · rfl

/-- The script's wrapper around another module body. -/
def rewrap (m : ModuleCall) (body : List Stmt) : List Stmt :=
  let f := Expr.function m.name ⟨m.definition.params, body⟩
  let callee := match m.entry with
    | .direct => f
    | .member method => .member f method
    | .index key => .index f key
  m.leading ++ [.expr (.call callee m.args)]

/-- The wrapper calls what its entry makes of the function with the other body. -/
theorem rewrap_eq (m : ModuleCall) (body : List Stmt) :
    m.rewrap body = m.leading ++
      [.expr (.call (m.entry.callee (.function m.name ⟨m.definition.params, body⟩)) m.args)] := by
  unfold rewrap Entry.callee
  rfl

/-- A script is its module's wrapper around the module's body, and around another body the wrapper
    makes a script whose module has that body. -/
theorem of_ofProgram? (h : ofProgram? p = some m) :
    p.body = m.rewrap m.definition.body ∧
      ∀ body, ofProgram? ⟨m.rewrap body⟩ =
        some { m with definition := ⟨m.definition.params, body⟩ } := by
  obtain ⟨statements⟩ := p
  unfold ofProgram? at h
  split at h
  · rename_i name f args hbody
    cases h
    cases f
    exact ⟨hbody, fun body => rfl⟩
  · rename_i name f method args hbody
    cases h
    cases f
    exact ⟨hbody, fun body => rfl⟩
  · rename_i name f key args hbody
    cases h
    cases f
    exact ⟨hbody, fun body => rfl⟩
  · rename_i first name f args hbody
    cases h
    cases f
    exact ⟨hbody, fun body => ofProgram?_two first _⟩
  · cases h

/-- A script with a module is the module's wrapper around the body that the module has. -/
theorem body_of_ofProgram? (h : ofProgram? p = some m) : p.body = m.rewrap m.definition.body :=
  (of_ofProgram? h).1

/-- Around another body the wrapper makes a script whose module has that body. -/
theorem ofProgram?_rewrap (h : ofProgram? p = some m) (body : List Stmt) :
    ofProgram? ⟨m.rewrap body⟩ = some { m with definition := ⟨m.definition.params, body⟩ } :=
  (of_ofProgram? h).2 body

/-- A script with a module can be given another body, in the wrapper that it has. -/
theorem rewrap?_eq_some (h : ofProgram? p = some m) (body : List Stmt) :
    p.rewrap? body = some (m.rewrap body) := by
  obtain ⟨statements⟩ := p
  unfold ofProgram? at h
  -- whatever pattern finds the module, the same pattern puts the body in
  split at h
  case h_1 hbody | h_2 hbody | h_3 hbody | h_4 hbody =>
    cases h
    cases hbody
    rfl
  case h_5 => cases h

/-- The skipped statements are as many as stand before the module. -/
theorem statements_eq_drop (h : ofProgram? p = some m) :
    m.statements = m.definition.body.drop m.leading.length := by
  obtain ⟨statements⟩ := p
  unfold ofProgram? at h
  split at h <;> cases h <;> rfl

/-- A call of a function, alone, has that function as its module. -/
theorem ofProgram?_call (entry : Entry) (name : Option Name) (f : Function) (args : List Expr) :
    ofProgram? ⟨[.expr (.call (entry.callee (.function name f)) args)]⟩ =
      some ⟨[], name, f, entry, args⟩ := by
  cases entry <;> rfl

/-! ## Parts of a script -/

section Everywhere

variable {P : Part → Prop} (h : ofProgram? p = some m)
  (hp : ∀ s ∈ p.body, Part.Everywhere P (.stmt s))
include h hp

/-- What holds everywhere in a script holds everywhere in the call of its module. -/
theorem everywhere_call : Part.Everywhere P
    (.stmt (.expr (.call (m.entry.callee (.function m.name m.definition)) m.args))) := by
  refine hp _ ?_
  rw [body_of_ofProgram? h, rewrap_eq, Function.eta]
  exact List.mem_append_right _ (.head _)

/-- What holds everywhere in a script holds everywhere in the module as an expression. -/
theorem everywhere_function : Part.Everywhere P (.expr (.function m.name m.definition)) :=
  Entry.everywhere_of_callee (((everywhere_call h hp).inside (.head _)).inside (.head _))

/-- What holds everywhere in a script holds everywhere in the statements of its module's body. -/
theorem everywhere_definition : ∀ s ∈ m.definition.body, Part.Everywhere P (.stmt s) :=
  fun _ hs => (everywhere_function h hp).inside (List.mem_map_of_mem hs)

/-- What holds everywhere in a script holds everywhere in the statements that are searched. -/
theorem everywhere_statements : ∀ s ∈ m.statements, Part.Everywhere P (.stmt s) := by
  intro s hs
  refine everywhere_definition h hp s ?_
  unfold statements at hs
  split at hs
  · exact hs
  · exact List.mem_of_mem_drop hs

/-- What holds everywhere in a script holds everywhere in its wrapper around another body, if it
    holds everywhere in that body. -/
theorem everywhere_rewrap (hP : Part.OfWrapper P) {body : List Stmt}
    (hbody : ∀ s ∈ body, Part.Everywhere P (.stmt s)) :
    ∀ s ∈ m.rewrap body, Part.Everywhere P (.stmt s) := by
  have hstmt := everywhere_call h hp
  have hcall := hstmt.inside (.head _)
  have hf : Part.Everywhere P (.expr (.function m.name ⟨m.definition.params, body⟩)) := by
    refine .intro (hP.function (everywhere_function h hp).here) fun part hpart => ?_
    obtain ⟨s, hs, rfl⟩ := List.mem_map.mp hpart
    exact hbody s hs
  -- the key of an access is kept, so what holds in the script holds in it
  have hcallee : Part.Everywhere P
      (.expr (m.entry.callee (.function m.name ⟨m.definition.params, body⟩))) := by
    have hold := hcall.inside (.head _)
    revert hold
    cases m.entry with
    | direct => exact fun _ => hf
    | member name =>
      refine fun hold => .intro (hP.member hold.here) fun part hpart => ?_
      rw [List.mem_singleton.mp hpart]
      exact hf
    | index key =>
      refine fun hold => .intro (hP.index hold.here) fun part hpart => ?_
      rcases List.mem_cons.mp hpart with rfl | hpart
      · exact hf
      · exact hold.inside (.tail _ hpart)
  -- a statement of the wrapper stands before the module, or is its call
  intro s hs
  rw [rewrap_eq] at hs
  rcases List.mem_append.mp hs with hs | hs
  · refine hp s ?_
    rw [body_of_ofProgram? h, rewrap_eq]
    exact List.mem_append_left _ hs
  · rw [List.mem_singleton.mp hs]
    refine .intro (hP.stmt hstmt.here) fun part hpart => ?_
    rw [List.mem_singleton.mp hpart]
    refine .intro (hP.call hcall.here) fun part hpart => ?_
    rcases List.mem_cons.mp hpart with rfl | hpart
    · exact hcallee
    · exact hcall.inside (.tail _ hpart)

end Everywhere

/-! ## Other statements -/

/-- The statements at the start of the module that are left out. -/
def skipped (m : ModuleCall) : List Stmt :=
  if m.leading.isEmpty then [] else m.definition.body.take 1

/-- The script with other statements in its module. -/
def withStatements (m : ModuleCall) (body : List Stmt) : Program :=
  ⟨m.rewrap (m.skipped ++ body)⟩

/-- The statements that are left out and those that are searched make up the body. -/
theorem skipped_append_statements (m : ModuleCall) :
    m.skipped ++ m.statements = m.definition.body := by
  unfold skipped statements
  split
  · rfl
  · exact List.take_append_drop 1 _

/-- With the statements that it has, the script is unchanged. -/
theorem withStatements_statements (h : ofProgram? p = some m) :
    m.withStatements m.statements = p := by
  unfold withStatements
  rw [skipped_append_statements, ← body_of_ofProgram? h]

/-- The module of the script with other statements has them, if there are none where there were
    none. -/
theorem ofProgram?_withStatements (h : ofProgram? p = some m) (body : List Stmt)
    (hbody : m.statements = [] → body = []) :
    ∃ m', ofProgram? (m.withStatements body) = some m' ∧ m'.statements = body ∧
      m'.rewrap = m.rewrap := by
  refine ⟨_, ofProgram?_rewrap h _, ?_, rfl⟩
  unfold statements skipped
  by_cases hleading : m.leading.isEmpty
  · rw [if_pos hleading, if_pos hleading]
    rfl
  · rw [if_neg hleading, if_neg hleading]
    -- only an empty body has no statement to leave out, and then nothing may be put in
    cases hdef : m.definition.body with
    | nil =>
      have hnone : m.statements = [] := by
        unfold statements
        rw [if_neg hleading, hdef]
        rfl
      rw [hbody hnone]
      rfl
    | cons first rest => rfl

end ModuleCall

end Descramble
