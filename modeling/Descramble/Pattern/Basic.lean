import Descramble.Pattern.Node

/-!
# Patterns

A pattern describes the shape of a node by the fields it names and leaves the others free. The
pattern of `x = [y]`, for instance, is an expression statement whose expression is an assignment
with the operator `=`, an identifier on the left, and on the right an array whose elements are a
sequence of one identifier; it accepts `a = [b]`, but neither `a = [b, c]` nor `a += [b]`.
-/

namespace Descramble

inductive Pattern where
  /-- A present node, of the given kind if there is one, whose named fields are accepted. -/
  | exact (kind : Option NodeKind) (fields : List (NodeField × Pattern))
  /-- A primitive with this value. -/
  | literal (value : Literal)
  /-- Accepted by one of the patterns. -/
  | anyOf (options : List Pattern)
  /-- A present node that has a child for every pattern; one child can serve several. -/
  | contains (required : List Pattern)
  /-- A list of the same length, accepted item by item. -/
  | sequence (items : List Pattern)
  | wildcard

namespace Pattern

mutual

/-- Whether a node has the shape that a pattern describes. -/
def accepts : Pattern → Node → Bool
  | .wildcard, _ => true
  | .literal value, n => n.equalsLiteral value
  | .anyOf options, n => anyAccepts options n
  | .contains required, n => !n.isAbsent && eachFound required n.children
  | .sequence patterns, n =>
    match n.items? with
    | some items => eachAccepts patterns items
    | none => false
  | .exact kind fields, n =>
    !n.isAbsent && (kind.isNone || n.kind? == kind) && fieldsAccept fields n

def anyAccepts : List Pattern → Node → Bool
  | [], _ => false
  | p :: ps, n => p.accepts n || anyAccepts ps n

def eachFound : List Pattern → List Node → Bool
  | [], _ => true
  | p :: ps, ns => ns.any (fun n => p.accepts n) && eachFound ps ns

def eachAccepts : List Pattern → List Node → Bool
  | [], [] => true
  | p :: ps, n :: ns => p.accepts n && eachAccepts ps ns
  | _, _ => false

def fieldsAccept : List (NodeField × Pattern) → Node → Bool
  | [], _ => true
  | (f, p) :: rest, n => p.accepts (n.field f) && fieldsAccept rest n

end

/-- A node of a kind, with patterns for some of its fields. -/
def node (kind : NodeKind) (fields : List (NodeField × Pattern)) : Pattern :=
  .exact (some kind) fields

/-- Any node of a kind. -/
def ofKind (kind : NodeKind) : Pattern :=
  node kind []

/-- Any node that is not absent. -/
def present : Pattern :=
  .exact none []

def text (s : String) : Pattern :=
  .literal (.text s)

def flag (b : Bool) : Pattern :=
  .literal (.flag b)

end Pattern

end Descramble
