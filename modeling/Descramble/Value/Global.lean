import Descramble.Value.Property

/-!
# The store of a fresh run

A run starts with the global object, which holds the ready-made functions and a few constants, and
the empty root scope.
-/

namespace Descramble.Store

/-- Makes native functions and puts them into an object under names. -/
def addNatives (s : Store) (ref : ObjectRef) : List (Name × Native) → Store
  | [] => s
  | (name, n) :: rest =>
    let (f, s) := s.addObject (.function (.native n))
    (s.setOwn ref name (.object f)).addNatives ref rest

/-- Makes an object with native functions in it and puts it into the global object. -/
def addNamespace (s : Store) (name : Name) (o : Object) (members : List (Name × Native)) : Store :=
  let (ref, s) := s.addObject o
  (s.addNatives ref members).setOwn .global name (.object ref)

def mathMembers : List (Name × Native) :=
  [("floor", .math .floor), ("abs", .math .abs), ("min", .math .min), ("max", .math .max),
   ("pow", .math .pow), ("round", .math .round), ("ceil", .math .ceil)]

def globalFunctions : List (Name × Native) :=
  [("parseInt", .parseInt), ("isNaN", .isNaN), ("decodeURIComponent", .decodeComponent),
   ("encodeURIComponent", .encodeComponent)]

/-- The store that holds only an empty global object and the root scope. -/
def empty : Store :=
  ⟨#[.plain], #[⟨.empty, none⟩]⟩

/-- The store of a fresh run. -/
def initial : Store :=
  let s := empty
  let s := s.addNamespace "String" (.function (.native .textOf)) [("fromCharCode", .fromCharCode)]
  let s := s.addNamespace "Math" .plain mathMembers
  let s := s.addNamespace "Array" .plain [("isArray", .isArray)]
  let s := s.addNatives .global globalFunctions
  let s := s.setOwn .global "undefined" .undefined
  let s := s.setOwn .global "NaN" (.number .nan)
  s.setOwn .global "Infinity" (.number (.infinite false))

end Descramble.Store
