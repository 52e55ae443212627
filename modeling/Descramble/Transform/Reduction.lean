import Descramble.Location
import Descramble.Script.Parse
import Descramble.Transform.Candidate

/-!
# Reduction

A player script is reduced to a program that defines its two transforms and little else: stand-ins
for the page, the script's own wrapper around the statements worth keeping, and one assignment per
transform. `Program.reduce` works on trees, `reduceText` on texts.
-/

namespace Descramble

/-- Why a script has no reduction. -/
inductive ReductionError where
  | badSyntax (e : SyntaxError)
  | unknownStructure
  | notFound (t : Transform)
  | ambiguous (t : Transform) (found : List Candidate)
deriving DecidableEq

/-- The message for a text that is no script. -/
def SyntaxError.message (e : SyntaxError) : String :=
  "syntax error " ++ toString e.position ++ " bytes before end of input"

namespace ReductionError

/-- The wrappers of an ambiguous transform as texts. -/
def options (found : List Candidate) : List String :=
  found.map Candidate.toText

def message : ReductionError → String
  | .badSyntax e => e.message
  | .unknownStructure => "unexpected top-level structure"
  | .notFound t => "found 0 " ++ t.name ++ " function possibilities"
  | .ambiguous t found =>
    "found " ++ toString found.length ++ " " ++ t.name ++ " function possibilities: " ++
      commaSeparated (options found)

end ReductionError

/-- The name through which a reduced program hands out its transforms. -/
def resultName : Name :=
  "_result"

/-- The address of the page that a reduced program believes to be on. -/
def pageAddress : String :=
  "https://www.youtube.com/watch?v=yt-dlp-wins"

/-! ## The module -/

/-- How the module function of a script is entered. -/
inductive Entry where
  | direct
  | member (name : Name)
  | index (key : Expr)

/-- A script as a module function in its wrapper: the statements before it, the function, how it is
    entered and with which arguments. -/
structure ModuleCall where
  leading : List Stmt
  name : Option Name
  definition : Function
  entry : Entry
  args : List Expr

namespace ModuleCall

/-- The module of a script: a single call of a function or of a method of one, or a call of a
    function after one other statement. -/
def ofProgram? (p : Program) : Option ModuleCall :=
  match p.body with
  | [.expr (.call (.function name f) args)] => some ⟨[], name, f, .direct, args⟩
  | [.expr (.call (.member (.function name f) method) args)] =>
    some ⟨[], name, f, .member method, args⟩
  | [.expr (.call (.index (.function name f) key) args)] => some ⟨[], name, f, .index key, args⟩
  | [first, .expr (.call (.function name f) args)] => some ⟨[first], name, f, .direct, args⟩
  | _ => none

/-- The statements of the module. After a leading statement the first of them is left out. -/
def statements (m : ModuleCall) : List Stmt :=
  if m.leading.isEmpty then m.definition.body else m.definition.body.drop 1

end ModuleCall

/-- The statements of a script with another body in the function that the last of them calls, or
    calls a method of. -/
def Program.rewrap? (p : Program) (body : List Stmt) : Option (List Stmt) := do
  let last ← p.body.getLast?
  let .expr (.call callee args) := last | none
  let callee ← match callee with
    | .member (.function name f) method => some (.member (.function name ⟨f.params, body⟩) method)
    | .index (.function name f) key => some (.index (.function name ⟨f.params, body⟩) key)
    | .function name f => some (.function name ⟨f.params, body⟩)
    | _ => none
  return p.body.dropLast ++ [.expr (.call callee args)]

/-- Whether a statement of the module is worth keeping: expression statements only if they assign or
    are bare literals. -/
def Stmt.isRetained : Stmt → Bool
  | .expr (.assign _ _ _) | .expr (.literal _) => true
  | .expr _ => false
  | _ => true

/-! ## The result -/

/-- An object literal of named values. -/
def Expr.record (fields : List (Name × Expr)) : Expr :=
  .object (fields.map fun (name, value) => ⟨.word name, value⟩)

/-- A declaration of one variable. -/
def Stmt.define (name : Name) (value : Expr) : Stmt :=
  .declare ⟨.functionScoped, [⟨name, some value⟩]⟩

/-- Stand-ins for what a page provides and a module touches while it loads. -/
def pageStandIns : List Stmt :=
  let location := (Location.ofUrl pageAddress).fields.map fun (name, value) =>
    (name, Expr.text value)
  [.define "XMLHttpRequest" (.record [("prototype", .record [])]),
   .define "window" .this,
   .define "self" .this,
   .expr (.assign none (.member (.ident "window") "location") (.record location)),
   .define "document" (.record []),
   .define "navigator" (.record [])]

/-- The distinct candidates among those found, in the order of their first appearance. -/
def distinctCandidates (found : List Candidate) : List Candidate :=
  found.foldl (fun kept c => if c ∈ kept then kept else kept ++ [c]) []

/-- The one candidate that the statements of a module give for a transform. -/
def soleCandidate (t : Transform) (module : List Stmt) : Except ReductionError Candidate :=
  match distinctCandidates (module.filterMap (Candidate.ofStatement? t)) with
  | [] => .error (.notFound t)
  | [c] => .ok c
  | found => .error (.ambiguous t found)

/-- The assignment that hands out a transform. -/
def handOut (c : Candidate) : Stmt :=
  .expr (.assign none (.member (.ident resultName) c.transform.name) c.wrapper)

/-- The reduced program of a script. -/
def Program.reduce (p : Program) : Except ReductionError Program := do
  let some m := ModuleCall.ofProgram? p | throw .unknownStructure
  let n ← soleCandidate .n m.statements
  let sig ← soleCandidate .sig m.statements
  let body := m.statements.filter Stmt.isRetained ++ [handOut n, handOut sig]
  let some wrapped := p.rewrap? body | throw .unknownStructure
  return ⟨pageStandIns ++ wrapped⟩

/-- The text of the reduced program of a script. -/
def reduceText (text : String) : Except ReductionError String :=
  match Program.parse text with
  | .error e => .error (.badSyntax e)
  | .ok p => p.reduce.map Program.toText

end Descramble
