/-!
# Files

What the command line needs of a file system, in any monad, and file systems that are held in
memory.
-/

namespace Descramble

/-- Why a file or folder cannot be read. -/
inductive FileError where
  | notFound
  | denied
  | notFolder
  | isFolder
  | nameTooLong
  | notText
  | failed
deriving DecidableEq

/-- The text of a file error in a diagnostic. -/
def FileError.listing : FileError → String
  | .notFound => system 2 "NotFound" "No such file or directory"
  | .denied => system 13 "PermissionDenied" "Permission denied"
  | .notFolder => system 20 "NotADirectory" "Not a directory"
  | .isFolder => system 21 "IsADirectory" "Is a directory"
  | .nameTooLong => system 36 "InvalidFilename" "File name too long"
  | .notText =>
    "Error \x7b kind: InvalidData, message: \"stream did not contain valid UTF-8\" \x7d"
  | .failed => system 5 "Uncategorized" "Input/output error"
where
  system (code : Nat) (kind message : String) : String :=
    "Os \x7b code: " ++ toString code ++ ", kind: " ++ kind ++ ", message: \"" ++ message ++
      "\" \x7d"

/-- A way to read files and folders. -/
structure Files (m : Type → Type) where
  /-- The text of a file. -/
  read : String → m (Except FileError String)
  /-- The names of what a folder holds, in any order. -/
  list : String → m (Except FileError (List String))
  /-- Whether there is a file or a folder. -/
  isPresent : String → m Bool

/-- The names on a path, between slashes. -/
def namesOf (path : String) : List String :=
  path.splitOn "/"

/-- Where a name leads from a place in a tree. -/
def follow (place : List String) (name : String) : List String :=
  if name = "" ∨ name = "." then place
  else if name = ".." then place.dropLast
  else place ++ [name]

/-- The places that names lead through one after the other. -/
def placesAlong (place : List String) : List String → List (List String)
  | [] => []
  | name :: rest => follow place name :: placesAlong (follow place name) rest

/-- Files and folders in memory, each under the names that lead to it. -/
structure FileTree where
  texts : List (List String × String)
  folders : List (List String)

/-- Where a path has led: into a tree, or out of it, where only the folders around it are known. -/
inductive Destination where
  | inside (names : List String)
  | outside

namespace FileTree

def empty : FileTree :=
  ⟨[], []⟩

/-- Puts a text under a path, and folders where the path leads through. -/
def insert (t : FileTree) (path text : String) : FileTree :=
  let places := placesAlong [] (namesOf path)
  ⟨(places.getLast?.getD [], text) :: t.texts, places.dropLast ++ t.folders⟩

/-- Files in memory under paths; of two files in one place the later one stays. -/
def ofList (files : List (String × String)) : FileTree :=
  files.foldl (fun t (path, text) => t.insert path text) empty

/-- The text of a file. -/
def file? (t : FileTree) (names : List String) : Option String :=
  t.texts.lookup names

/-- Whether there is a folder in a place. -/
def isFolder (t : FileTree) (names : List String) : Bool :=
  names.isEmpty || t.folders.contains names

/-- How many bytes a name can have. -/
def maxNameLength : Nat :=
  255

/-- How many bytes a path can have. -/
def maxPathLength : Nat :=
  4095

/-- Goes on from a place by a name. Only a folder leads anywhere. -/
def step (t : FileTree) (place : Destination) (name : String) :
    Except FileError Destination :=
  match place with
  | .outside =>
    if name = "" ∨ name = "." ∨ name = ".." then .ok .outside else .error .notFound
  | .inside names =>
    if (t.file? names).isSome then .error .notFolder
    else if !t.isFolder names then .error .notFound
    else if maxNameLength < name.utf8ByteSize then .error .nameTooLong
    else if name = ".." ∧ names.isEmpty then .ok .outside
    else .ok (.inside (follow names name))

/-- Where a path leads. -/
def find (t : FileTree) (path : String) : Except FileError Destination :=
  if path.isEmpty then .error .notFound
  else if maxPathLength < path.utf8ByteSize then .error .nameTooLong
  else (namesOf path).foldlM t.step (if path.startsWith "/" then .outside else .inside [])

def read (t : FileTree) (path : String) : Except FileError String := do
  match ← t.find path with
  | .outside => throw .isFolder
  | .inside names =>
    match t.file? names with
    | some text => return text
    | none => if t.isFolder names then throw .isFolder else throw .notFound

/-- The names of what lies in a place. -/
def namesIn (t : FileTree) (place : List String) : List String :=
  let others := t.texts.map Prod.fst ++ t.folders
  (others.filter (·.dropLast == place)).filterMap List.getLast? |>.eraseDups

def list (t : FileTree) (path : String) : Except FileError (List String) := do
  match ← t.find path with
  | .outside => throw .denied
  | .inside names =>
    if (t.file? names).isSome then throw .notFolder
    else if t.isFolder names then return t.namesIn names
    else throw .notFound

def isPresent (t : FileTree) (path : String) : Bool :=
  match t.find path with
  | .ok (.inside names) => (t.file? names).isSome || t.isFolder names
  | .ok .outside => true
  | .error _ => false

/-- Reading from memory. -/
def files (t : FileTree) : Files Id :=
  ⟨fun path => t.read path, fun path => t.list path, fun path => t.isPresent path⟩

end FileTree

end Descramble
