import Descramble.CommandLine.Command

/-!
# The program

Runs a command on the files of the disk. The folders of tests are those that the paths on standard
input lie in, one path a line.

Some things are left out, as no result depends on them: a log, the text that explains the options,
the limits of the native stack and of the memory, and freeing what a script has made.
-/

namespace Descramble

/-- What an error of the system means for a file. -/
def FileError.ofSystem : IO.Error → FileError
  | .noFileOrDirectory _ _ _ => .notFound
  | .permissionDenied _ _ _ => .denied
  | .inappropriateType _ code _ => if code = 21 then .isFolder else .notFolder
  | .invalidArgument _ code _ => if code = 36 then .nameTooLong else .failed
  | .userError _ => .notText
  | _ => .failed

/-- Reading from the disk, with the files of folders as listed. -/
def Files.ofDisk (listing : List String) : Files IO where
  read path := do
    match ← (IO.FS.readFile path).toBaseIO with
    | .ok text => return .ok text
    | .error e => return .error (.ofSystem e)
  list folder := return (FileTree.ofList (listing.map (·, ""))).list folder
  isPresent path := do
    match ← (IO.FS.readFile path).toBaseIO with
    | .ok _ => return true
    | .error e => return FileError.ofSystem e != .notFound

/-- The lines of standard input. -/
partial def inputLines (input : IO.FS.Stream) (lines : List String) : IO (List String) := do
  let line ← input.getLine
  if line.isEmpty then return lines.reverse
  else inputLines input (line.trimAscii.toString :: lines)

end Descramble

open Descramble in
def main (arguments : List String) : IO UInt32 := do
  match Options.ofArguments arguments with
  | .error e =>
    IO.eprintln ("error: " ++ e.message)
    return 1
  | .ok o =>
    let listing ← if o.test then inputLines (← IO.getStdin) [] else pure []
    let report ← (Command.ofOptions (Files.ofDisk listing) o).report
    IO.print report.output
    IO.eprint report.errorText
    return UInt32.ofNat report.status
