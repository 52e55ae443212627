import Descramble.Script.Reader.Statement

/-!
# Parsing

The productions are tied together by counting down: each part of a text is read with a smaller count
than the whole, and the length of the text is count enough, since every part that starts further on
has at least one character less. `Program.parse` and `Expr.parse` read a whole text.
-/

namespace Descramble

namespace Reader

mutual

/-- Reads an expression without a comma at its top. -/
def assignment : Nat → Reader Expr
  | 0, s => .error ⟨s, false⟩
  | n + 1, s =>
    Production.assignment ⟨n, assignment n, unary n, construct n, statement n⟩ s

/-- Reads an operand with its unary operators. -/
def unary : Nat → Reader Expr
  | 0, s => .error ⟨s, false⟩
  | n + 1, s => Production.unary ⟨n, assignment n, unary n, construct n, statement n⟩ s

/-- Reads a `new` expression. -/
def construct : Nat → Reader Expr
  | 0, s => .error ⟨s, false⟩
  | n + 1, s => Production.construct ⟨n, assignment n, unary n, construct n, statement n⟩ s

/-- Reads a statement. -/
def statement : Nat → Reader Stmt
  | 0, s => .error ⟨s, false⟩
  | n + 1, s => Production.statement ⟨n, assignment n, unary n, construct n, statement n⟩ s

end

/-- The readers for parts of a text shorter than `n`. -/
def nested (n : Nat) : Nested :=
  ⟨n, assignment n, unary n, construct n, statement n⟩

/-- Reads a whole expression of a text shorter than `n`. -/
def expr (n : Nat) : Reader Expr :=
  Production.commaJoined (nested n) (assignment n)

end Reader

/-- A text that is no script. `position` counts the bytes from the place of the error to the end. -/
structure SyntaxError where
  position : Nat
deriving DecidableEq

/-- The length of a text in UTF-8 bytes. -/
def utf8Length (cs : List Char) : Nat :=
  cs.foldl (fun n c => n + c.utf8Size) 0

/-- What a reader makes of a whole text, with a gap allowed in front. -/
def readWhole {α : Type} (reader : Nat → Reader α) (text : String) : Except SyntaxError α :=
  let s := text.toList
  match (do Reader.gap; reader (s.length + 1) : Reader α) s with
  | .ok (a, []) => .ok a
  | .ok (_, rest) => .error ⟨utf8Length rest⟩
  | .error e => .error ⟨utf8Length e.rest⟩

/-- The program that a text spells. -/
def Program.parse (text : String) : Except SyntaxError Program :=
  readWhole (fun n => do return ⟨← Reader.many (Reader.statement n) n⟩) text

/-- The expression that a text spells. -/
def Expr.parse (text : String) : Except SyntaxError Expr :=
  readWhole Reader.expr text

end Descramble
