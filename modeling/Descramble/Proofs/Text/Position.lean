import Descramble.Text.Line

/-!
# Positions and lines

A position that is the length of an end of a text cuts the text in two. It lies on one of the lines
of the text, or the last line is over.

Main statements: `beforePosition_utf8Length`, the text before such a position is what stands before
the end, and `lineAt?_of_lt`, the line of a position is one of the lines of the text.
-/

namespace Descramble

/-- An empty text has no bytes. -/
theorem utf8Length_nil : utf8Length [] = 0 :=
  rfl

/-- Counting bytes may begin at any number. -/
private theorem foldl_utf8Size (start : Nat) (cs : List Char) :
    cs.foldl (fun n c => n + c.utf8Size) start = start + utf8Length cs := by
  induction cs generalizing start with
  | nil => rfl
  | cons c cs ih =>
    simp only [utf8Length, List.foldl_cons]
    rw [ih, ih (0 + c.utf8Size)]
    omega

/-- The first character adds its bytes. -/
theorem utf8Length_cons (c : Char) (cs : List Char) :
    utf8Length (c :: cs) = c.utf8Size + utf8Length cs := by
  show cs.foldl (fun n c => n + c.utf8Size) (0 + c.utf8Size) = _
  rw [foldl_utf8Size, Nat.zero_add]

/-- The bytes of two texts add up. -/
theorem utf8Length_append (before after : List Char) :
    utf8Length (before ++ after) = utf8Length before + utf8Length after := by
  induction before with
  | nil => rw [List.nil_append, utf8Length_nil, Nat.zero_add]
  | cons c cs ih => rw [List.cons_append, utf8Length_cons, utf8Length_cons, ih, Nat.add_assoc]

/-- Characters that fit into exactly so many bytes leave no room for another. -/
theorem takeBytes_utf8Length (before after : List Char) :
    takeBytes (utf8Length before) (before ++ after) = before := by
  induction before with
  | nil =>
    cases after with
    | nil => rfl
    | cons c cs =>
      have hpos := c.utf8Size_pos
      simp only [utf8Length_nil, List.nil_append, takeBytes, if_neg (show ¬c.utf8Size ≤ 0 by omega)]
  | cons c cs ih =>
    have hrest : c.utf8Size + utf8Length cs - c.utf8Size = utf8Length cs := by omega
    rw [utf8Length_cons, List.cons_append, takeBytes, if_pos (Nat.le_add_right _ _), hrest, ih]

/-- The position of an end of a text lies between characters, and before it stands the rest. -/
theorem beforePosition_utf8Length (before after : List Char) :
    beforePosition (utf8Length after) (before ++ after) = before := by
  -- the position counts from the end, so the bytes before it are those of the rest
  have hlength : utf8Length (before ++ after) - utf8Length after = utf8Length before := by
    rw [utf8Length_append]
    omega
  rw [beforePosition, hlength, takeBytes_utf8Length]

/-- Where the text before a position has fewer lines than the whole, the position lies on a line. -/
theorem lineAt?_of_lt {position : Nat} {cs : List Char}
    (h : (linesOf (beforePosition position cs)).length < (linesOf cs).length) :
    ∃ line ∈ linesOf cs, lineAt? position cs =
      some (max (linesOf (beforePosition position cs)).length 1, line) := by
  have hlt : (linesOf (beforePosition position cs)).length - 1 < (linesOf cs).length := by omega
  refine ⟨(linesOf cs)[(linesOf (beforePosition position cs)).length - 1],
    List.getElem_mem hlt, ?_⟩
  simp only [lineAt?, if_pos h, List.getElem?_eq_getElem hlt, Option.map_some]

end Descramble
