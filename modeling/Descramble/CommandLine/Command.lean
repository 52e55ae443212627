import Descramble.CommandLine.Failure
import Descramble.CommandLine.Options
import Descramble.Text.Word
import Descramble.Timestamp

/-!
# Commands

There are two commands. One reduces a script, runs it and transforms tokens; the other checks the
scripts of two folders, of which those in the first must work and those in the second must fail. A
command keeps what it has printed when it fails.
-/

namespace Descramble

/-- What a command has printed, and why it failed if it did. -/
structure Report where
  output : String
  failure : Option Failure

namespace Report

def status (r : Report) : Nat :=
  if r.failure.isSome then 1 else 0

/-- What a failed command says about its failure. -/
def errorText (r : Report) : String :=
  match r.failure with
  | some f => "Error: " ++ f.listing ++ "\n"
  | none => ""

end Report

/-- A command that prints, reads files in a monad, and may fail. -/
abbrev Command (m : Type → Type) : Type → Type :=
  ExceptT Failure (StateT String m)

namespace Command

variable {m : Type → Type} [Monad m]

def print (text : String) : Command m Unit :=
  modify (· ++ text)

def printLine (text : String) : Command m Unit :=
  print (text ++ "\n")

/-- What prints nothing, as part of a command. -/
def silently (x : ExceptT Failure m α) : Command m α :=
  ExceptT.mk (StateT.lift x.run)

/-- Runs a command. -/
def report (x : Command m Unit) : m Report := do
  let (result, output) ← x.run.run ""
  match result with
  | .ok _ => return ⟨output, none⟩
  | .error f => return ⟨output, some f⟩

end Command

/-- The text of a file. -/
def Files.text [Monad m] (files : Files m) (path : String) : ExceptT Failure m String := do
  match ← files.read path with
  | .ok text => return text
  | .error e => throw (Problem.file e).nowhere

/-- The names in a folder. -/
def Files.names [Monad m] (files : Files m) (path : String) : ExceptT Failure m (List String) := do
  match ← files.list path with
  | .ok names => return names
  | .error e => throw (Problem.file e).nowhere

/-- The reduced program of a script. -/
def reduceScript (script : String) : Except Failure String :=
  (reduceText script).mapError (·.failure script)

/-- The solution of a reduced program. -/
def solveProgram (program : String) : Except Failure Solution :=
  (Solution.ofText program).mapError (·.failure program)

/-- Transforms a token with a solution. -/
def Solution.transform (s : Solution) (t : Transform) (token : String) :
    Except Failure (String × Solution) :=
  match s.get? t with
  | none => .error (Problem.noTransform t).nowhere
  | some f =>
    match s.apply t f token with
    | (.ok out, s) => .ok (out, s)
    | (.error e, _) => .error (Problem.evaluation e).nowhere

/-! ## Solving -/

namespace Command

variable {m : Type → Type} [Monad m]

/-- Prints the transform of the token that is asked for, if one is. -/
def printTransform (o : Options) (t : Transform) (s : Solution) : Command m Solution := do
  match o.token? t with
  | none => return s
  | some token =>
    let (out, s) ← s.transform t token
    printLine out
    return s

/-- Reads a script and prints what is asked for: its signature timestamp, its reduced program and
    the transforms of tokens. -/
def solve (files : Files m) (o : Options) : Command m Unit := do
  let some path := o.input | throw Problem.noInput.nowhere
  let script ← silently (files.text path)
  if o.timestamp then
    match Timestamp.ofScript? script with
    | some timestamp => printLine timestamp
    | none => throw Problem.noTimestamp.nowhere
  let program ← if o.compiled then pure script else reduceScript script
  if o.emit then print program
  let solution ← solveProgram program
  let solution ← printTransform o .n solution
  let _ ← printTransform o .sig solution

end Command

/-! ## Checking -/

/-- A line of an expectation file: a transform, a token and what it becomes. -/
structure Expectation where
  transform : Transform
  token : String
  expected : String

/-- The expectation that a line states, if it does; blank lines and comments state none. -/
def Expectation.ofLine (line : String) : Except Failure (Option Expectation) :=
  let cs := line.toList
  if cs.isEmpty || cs.head? == some '#' then .ok none
  else
    match (blankSeparated cs).map String.ofList with
    | ["n", token, expected] => .ok (some ⟨.n, token, expected⟩)
    | ["sig", token, expected] => .ok (some ⟨.sig, token, expected⟩)
    | _ => .error ⟨line, .badExpectation⟩

/-- Checks a solution against the lines of an expectation file, one after the other. -/
def Solution.meets (s : Solution) : List String → Except Failure Unit
  | [] => .ok ()
  | line :: lines => do
    match ← Expectation.ofLine line with
    | none => s.meets lines
    | some e =>
      let (actual, s) ← s.transform e.transform e.token
      if actual = e.expected then s.meets lines
      else throw ⟨line, .mismatch e.expected actual⟩

/-- The lines of an expectation file without the blanks around them. -/
def expectationLines (text : String) : List String :=
  (linesOf text.toList).map fun line => String.ofList (trimEnds line)

/-- The names of the scripts among the names in a folder, in order. -/
def scriptNames (names : List String) : List String :=
  (names.filter fun name => name.endsWith ".js" && !name.startsWith ".").mergeSort (· ≤ ·)

/-- The name of the expectation file of a script. -/
def expectationName (script : String) : String :=
  String.ofList (script.toList.take (script.length - 2)) ++ "expect"

/-- A text filled up with blanks on the right. -/
def padded (width : Nat) (text : String) : String :=
  text ++ String.ofList (List.replicate (width - text.length) ' ')

namespace Command

variable {m : Type → Type} [Monad m]

/-- Solves a script and checks the solution against the expectation file beside it. -/
def checkScript (files : Files m) (path : String) : ExceptT Failure m Unit := do
  let script ← files.text path
  let program ← reduceScript script
  let solution ← solveProgram program
  let beside := expectationName path
  if ← files.isPresent beside then
    solution.meets (expectationLines (← files.text beside))

/-- Checks scripts one after the other and prints what `verdict` says about the outcome of each: the
    text to print, and whether the check counts as passed. The paths of those that have not. -/
def checkAll (files : Files m) (verdict : Except Failure Unit → String × Bool) :
    List String → Command m (List String)
  | [] => return []
  | path :: paths => do
    let (text, passed) := verdict (← monadLift (checkScript files path).run)
    printLine (padded 48 path ++ " " ++ text)
    let failed ← checkAll files verdict paths
    return if passed then failed else path :: failed

/-- The paths of the scripts in a folder. -/
def scriptPaths (files : Files m) (folder : String) : Command m (List String) := do
  return (scriptNames (← silently (files.names folder))).map (folder ++ "/" ++ ·)

/-- Scripts that should work pass if they do. -/
def goodVerdict : Except Failure Unit → String × Bool
  | .ok _ => ("PASS", true)
  | .error f => ("!!!! " ++ f.listing, false)

/-- Scripts that should fail pass if they do. -/
def badVerdict : Except Failure Unit → String × Bool
  | .ok _ => ("!!!!", false)
  | .error _ => ("FAIL as expected", true)

/-- Checks the scripts in the two folders of tests. -/
def test (files : Files m) : Command m Unit := do
  let good ← checkAll files goodVerdict (← scriptPaths files "test/compile_good")
  let bad ← checkAll files badVerdict (← scriptPaths files "test/compile_bad")
  let failed := good ++ bad
  if !failed.isEmpty then throw (Problem.testsFailed failed).nowhere

/-- Runs the command that options ask for. -/
def ofOptions (files : Files m) (o : Options) : Command m Unit :=
  if o.test then test files else solve files o

end Command

end Descramble
