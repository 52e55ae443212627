import Descramble.Proofs.Script.WellFormed

/-!
# Trees that their text spells

Three constructs have a text that reads as something else: a number that is too large for binary64
is written as a name, `new` takes the first arguments after an access for its own, and an arrow
function takes an empty object at the start of its body for an empty block. `Part.Faithful` says
that a part is none of these.
-/

namespace Descramble

/-- Whether a key is not a number that is too large. -/
def PropertyKey.isFinite : PropertyKey → Bool
  | .number n => n.isFinite
  | _ => true

namespace Expr

/-- Whether what an expression accesses, by names and keys only, is a call in the end. -/
def accessesCall : Expr → Bool
  | .call _ _ => true
  | .member target _ | .index target _ => target.accessesCall
  | _ => false

/-- Whether the text of an expression is read as the expression, given that the texts of its parts
    are. -/
def Faithful : Expr → Prop
  | .literal (.number n) => n.isFinite
  | .object properties => ∀ property ∈ properties, property.key.isFinite
  | .construct callee _ => callee.isCall ∨ callee.accessesCall = false
  | .arrow _ (.expr body) =>
    body.isObject ∨ ¬ "\x7b\x7d".toList <+: (Printer.arrowBody 0 (.expr body)).toList
  | _ => True

instance : DecidablePred Faithful
  | .literal (.number n) => inferInstanceAs (Decidable (n.isFinite = true))
  | .object properties =>
    inferInstanceAs (Decidable (∀ property ∈ properties, property.key.isFinite = true))
  | .construct callee _ =>
    inferInstanceAs (Decidable (callee.isCall = true ∨ callee.accessesCall = false))
  | .arrow _ (.expr body) => inferInstanceAs (Decidable
    (body.isObject = true ∨
      ¬ "\x7b\x7d".toList <+: (Printer.arrowBody 0 (.expr body)).toList))
  | .literal (.text _) | .literal (.flag _) | .literal .null | .ident _ | .this | .array _
  | .function _ _ | .arrow _ (.block _) | .call _ _ | .member _ _ | .index _ _ | .assign _ _ _
  | .logical _ _ _ | .binary _ _ _ | .unary _ _ | .update _ _ _ | .conditional _ _ _
  | .sequence _ => .isTrue trivial

end Expr

/-- Whether the text of a part is read as the part, given that the texts of its parts are. -/
def Part.Faithful : Part → Prop
  | .expr e => e.Faithful
  | .stmt _ => True

instance : DecidablePred Part.Faithful
  | .expr e => inferInstanceAs (Decidable e.Faithful)
  | .stmt _ => .isTrue trivial

/-- Whether a program is none of those whose text reads as something else. -/
def Program.Faithful (p : Program) : Prop :=
  ∀ s ∈ p.body, Part.Everywhere Part.Faithful (.stmt s)

end Descramble
