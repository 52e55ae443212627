/-!
# Words and blanks

An identifier word starts with an ASCII letter, `_` or `$` and goes on with these and ASCII digits.
The reserved words cannot name a variable. Between words there are blanks, the characters with the
Unicode property `White_Space`.
-/

namespace Descramble

/-! ## Words -/

/-- Whether a character can begin a word. -/
def isWordStart (c : Char) : Bool :=
  c.isAlpha || c == '_' || c == '$'

/-- Whether a character can continue a word. -/
def isWordChar (c : Char) : Bool :=
  isWordStart c || c.isDigit

/-- The words that cannot name a variable. -/
def reservedWords : List String :=
  ["break", "case", "catch", "const", "continue", "default", "delete", "do", "else",
   "false", "finally", "for", "function", "if", "in", "instanceof", "let", "new",
   "null", "return", "switch", "this", "throw", "true", "try", "typeof", "var",
   "void", "while"]

def isReserved (word : String) : Bool :=
  reservedWords.contains word

/-! ## Blanks -/

/-- Whether a character has the Unicode property `White_Space`. -/
def isBlank (c : Char) : Bool :=
  let n := c.toNat
  (9 ≤ n && n ≤ 13) || n == 0x20 || n == 0x85 || n == 0xA0 || n == 0x1680 ||
    (0x2000 ≤ n && n ≤ 0x200A) || n == 0x2028 || n == 0x2029 || n == 0x202F || n == 0x205F ||
    n == 0x3000

/-- Cuts blanks off the front. -/
def trimFront (cs : List Char) : List Char :=
  cs.dropWhile isBlank

/-- Cuts blanks off both ends. -/
def trimEnds (cs : List Char) : List Char :=
  ((trimFront cs).reverse.dropWhile isBlank).reverse

/-- The maximal runs of characters that are not blank. -/
def blankSeparated (cs : List Char) : List (List Char) :=
  (cs.splitOnP isBlank).filter (!·.isEmpty)

/-- No character that ASCII prints is blank. -/
theorem not_isBlank_of_print {c : Char} (h : 0x21 ≤ c.toNat ∧ c.toNat ≤ 0x7E) :
    isBlank c = false := by
  simp only [isBlank, Bool.or_eq_false_iff, Bool.and_eq_false_iff, decide_eq_false_iff_not,
    beq_eq_false_iff_ne]
  omega

/-- The blanks at the front are cut off up to the first other character. -/
theorem trimFront_append {blanks cs : List Char} (hblanks : ∀ c ∈ blanks, isBlank c)
    (hcs : ∀ c ∈ cs.head?, isBlank c = false) : trimFront (blanks ++ cs) = cs := by
  unfold trimFront
  rw [List.dropWhile_append_of_pos hblanks]
  -- what follows the blanks is empty or begins with another character
  cases cs with
  | nil => rfl
  | cons c cs =>
    apply List.dropWhile_cons_of_neg
    simp [hcs c rfl]

/-- Nothing is cut off a text without blanks. -/
theorem trimEnds_of_solid {cs : List Char} (h : ∀ c ∈ cs, isBlank c = false) :
    trimEnds cs = cs := by
  have hsolid {ds : List Char} (hds : ∀ c ∈ ds, c ∈ cs) : trimFront ds = ds :=
    show trimFront ([] ++ ds) = ds from
      trimFront_append nofun fun c hc => h c (hds c (List.mem_of_mem_head? hc))
  -- nothing is cut off the front, and nothing off the front of the text turned around
  unfold trimEnds
  rw [hsolid fun _ hc => hc]
  exact (congrArg _ (hsolid fun _ hc => List.mem_reverse.mp hc)).trans (List.reverse_reverse cs)

end Descramble
