import Descramble.CommandLine.Files
import Descramble.Text.Quoted
import Descramble.Text.Line
import Descramble.Transform.Solution

/-!
# Failures

Why a command fails, where in its input, and how that is written. The text of a failure is a nested
listing of its parts, with strings in quotes.
-/

namespace Descramble

/-- What is wrong. -/
inductive Problem where
  | reduction (e : ReductionError)
  | evaluation (e : SolutionError)
  | badScript
  | file (e : FileError)
  | noTransform (t : Transform)
  | noTimestamp
  | badExpectation
  | mismatch (expected actual : String)
  | testsFailed (paths : List String)
  | noInput

/-- A problem and the line of the input that it concerns, blank where it concerns none. -/
structure Failure where
  line : String
  problem : Problem

/-! ## Text -/

def Transform.listing : Transform → String
  | .n => "N"
  | .sig => "Sig"

/-- A named part with its contents in parentheses. -/
def listed (name : String) (contents : List String) : String :=
  name ++ "(" ++ commaSeparated contents ++ ")"

/-- A named part with named contents. -/
def listedFields (name : String) (fields : List (String × String)) : String :=
  let texts := fields.map fun (key, text) => key ++ ": " ++ text
  name ++ " \x7b " ++ commaSeparated texts ++ " \x7d"

def SyntaxError.listing (e : SyntaxError) : String :=
  listedFields "Syntax" [("pos", toString e.position)]

def ReductionError.listing : ReductionError → String
  | .badSyntax e => e.listing
  | .unknownStructure => "StructureNotRecognized"
  | .notFound t => listed "CandidateNotFound" [t.listing]
  | .ambiguous t found =>
    listed "CandidateAmbiguous" [t.listing, Listing.encodeAll (options found)]

def SolutionError.listing : SolutionError → String
  | .badSyntax e => e.listing
  | .thrown description => listed "Thrown" [Listing.encode description]
  | .ended message => listed "Fatal" [Listing.encode message]
  | .notCallable t value => listed "NotCallable" [t.listing, Listing.encode value]
  | .notText t value => listed "NotAString" [t.listing, Listing.encode value]

def Problem.listing : Problem → String
  | .reduction e => listed "Compile" [e.listing]
  | .evaluation e => listed "Evaluation" [e.listing]
  | .badScript => "Parse"
  | .file e => listed "IO" [e.listing]
  | .noTransform t => listed "NoTransform" [t.listing]
  | .noTimestamp => "NoTimestamp"
  | .badExpectation => "BadExpectation"
  | .mismatch expected actual =>
    listedFields "Mismatch"
      [("expected", Listing.encode expected), ("actual", Listing.encode actual)]
  | .testsFailed paths => listed "TestsFailed" [Listing.encodeAll paths]
  | .noInput => "BadFileName"

def Failure.listing (f : Failure) : String :=
  listedFields "ProcessingError" [("line", Listing.encode f.line), ("typ", f.problem.listing)]

/-! ## Places -/

/-- A failure that concerns no line. -/
def Problem.nowhere (p : Problem) : Failure :=
  ⟨"", p⟩

/-- A script that cannot be read, with the number and the text of the line. -/
def SyntaxError.failure (e : SyntaxError) (script : String) : Failure :=
  match lineAt? e.position script.toList with
  | some (number, line) => ⟨toString number ++ " " ++ String.ofList line, .badScript⟩
  | none => ⟨"EOF", .badScript⟩

def ReductionError.failure (e : ReductionError) (script : String) : Failure :=
  match e with
  | .badSyntax e => e.failure script
  | e => (Problem.reduction e).nowhere

def SolutionError.failure (e : SolutionError) (script : String) : Failure :=
  match e with
  | .badSyntax e => e.failure script
  | e => (Problem.evaluation e).nowhere

end Descramble
