import Descramble.Transform.Candidate

/-!
# Options

The command line `[options] [input]`. A long option has two dashes or more in front of its name, and
what stands after an equals sign behind the name is ignored. The short options `-n` and `-s` take a
token, right behind the letter or as the next argument; short options without a value can share a
dash. After `--` every argument is an input. The two options about the log are accepted and change
nothing, since there is no log.
-/

namespace Descramble

/-- What one part of a command line asks for. -/
inductive Setting where
  | test
  | compiled
  | emit
  | timestamp
  | quiet
  | verbose
  | token (t : Transform) (token : String)
  | input (path : String)

/-- Why a command line cannot be understood. -/
inductive UsageError where
  | unknown (argument : String)
  | missingValue (option : String)
  | repeated (option : String)

def UsageError.message : UsageError → String
  | .unknown argument => "unexpected argument " ++ argument
  | .missingValue option => "missing value after " ++ option
  | .repeated option => option ++ " was given more than once"

structure Options where
  test : Bool
  compiled : Bool
  emit : Bool
  timestamp : Bool
  quiet : Bool
  verbosity : Nat
  n : Option String
  sig : Option String
  input : Option String

namespace Options

/-- No option at all. -/
def unset : Options :=
  ⟨false, false, false, false, false, 0, none, none, none⟩

/-- The token to transform. -/
def token? (o : Options) : Transform → Option String
  | .n => o.n
  | .sig => o.sig

end Options

/-- The option that takes a token for a transform. -/
def Transform.option : Transform → String
  | .n => "-n"
  | .sig => "-s"

/-- The option of a setting; an input has none. -/
def Setting.option : Setting → String
  | .test => "--test"
  | .compiled => "--compiled"
  | .emit => "--emit"
  | .timestamp => "--sts"
  | .quiet => "-q"
  | .verbose => "-v"
  | .token t _ => t.option
  | .input path => path

/-- Adds a setting to options that do not have it yet. -/
def Options.add (o : Options) (s : Setting) : Except UsageError Options :=
  let once := fun (present : Bool) (o : Options) =>
    if present then Except.error (UsageError.repeated s.option) else .ok o
  match s with
  | .test => once o.test { o with test := true }
  | .compiled => once o.compiled { o with compiled := true }
  | .emit => once o.emit { o with emit := true }
  | .timestamp => once o.timestamp { o with timestamp := true }
  | .quiet => once o.quiet { o with quiet := true }
  | .verbose => .ok { o with verbosity := o.verbosity + 1 }
  | .token .n token => once o.n.isSome { o with n := some token }
  | .token .sig token => once o.sig.isSome { o with sig := some token }
  | .input path =>
    if o.input.isSome then .error (.unknown path) else .ok { o with input := some path }

namespace Setting

/-- The settings behind one dash, and the transform whose token is the next argument. -/
def ofLetters (argument : String) :
    List Char → Except UsageError (List Setting × Option Transform)
  | [] => .ok ([], none)
  | 'q' :: rest => (ofLetters argument rest).map fun (settings, t) => (.quiet :: settings, t)
  | 'v' :: rest => (ofLetters argument rest).map fun (settings, t) => (.verbose :: settings, t)
  | 'n' :: rest => .ok (withToken .n rest)
  | 's' :: rest => .ok (withToken .sig rest)
  | _ :: _ => .error (.unknown argument)
where
  withToken (t : Transform) (rest : List Char) : List Setting × Option Transform :=
    if rest.isEmpty then ([], some t)
    else ([.token t (String.ofList (rest.dropWhile (· == '=')))], none)

/-- Whether an argument is an option, as opposed to a value. -/
def isOption (argument : String) : Bool :=
  argument.startsWith "-" && argument != "-"

/-- The setting that a long name stands for. -/
def ofName? : String → Option Setting
  | "test" => some .test
  | "compiled" => some .compiled
  | "emit" => some .emit
  | "sts" => some .timestamp
  | _ => none

/-- The setting of a long option, by what stands between its dashes and an equals sign. -/
def long? (argument : String) : Option Setting :=
  ofName? (String.ofList ((argument.toList.dropWhile (· == '-')).takeWhile (· != '=')))

/-- The settings of a command line, where a transform may be waiting for its token. -/
def ofArguments (waiting : Option Transform) : List String → Except UsageError (List Setting)
  | [] =>
    match waiting with
    | some t => .error (.missingValue t.option)
    | none => .ok []
  | argument :: rest =>
    match waiting with
    | some t =>
      if isOption argument then .error (.missingValue t.option)
      else (ofArguments none rest).map (.token t argument :: ·)
    | none =>
      -- behind two dashes nothing is an option
      if argument = "--" then .ok (rest.map .input)
      else if !isOption argument then (ofArguments none rest).map (.input argument :: ·)
      else if argument.startsWith "--" then
        match long? argument with
        | some s => (ofArguments none rest).map (s :: ·)
        | none => .error (.unknown argument)
      else
        match ofLetters argument (argument.toList.drop 1) with
        | .error e => .error e
        | .ok (settings, waiting) => (ofArguments waiting rest).map (settings ++ ·)

end Setting

/-- The options of a command line. -/
def Options.ofArguments (arguments : List String) : Except UsageError Options :=
  match Setting.ofArguments none arguments with
  | .error e => .error e
  | .ok settings => settings.foldlM Options.add Options.unset

end Descramble
