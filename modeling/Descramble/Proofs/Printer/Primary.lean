import Descramble.Proofs.Printer.Level
import Descramble.Proofs.Text.Quoted

/-!
# Expressions that no operator can split

Which of its readers takes a primary expression is settled by the first character of the text, and
where that begins a word, by the word.

Main statements: `primary_word`, `primary_function`, `primary_fails`.
-/

namespace Descramble.Reader

variable {N : Nested} {s r r' : List Char} {c : Char} {e : Expr}

/-! ## What does not begin with a character -/

/-- A number begins with a digit or a point. -/
theorem number_fails (hdigit : c.isDigit = false) (hpoint : c ≠ '.') (s : List Char) :
    Fails number (c :: s) := by
  have hzero : c ≠ '0' := by
    rintro rfl
    cases hdigit
  -- as a hexadecimal numeral, and as a decimal one
  refine .orElse ?_ ?_
  · unfold Fails hexNumber
    split
    · rename_i heq
      exact absurd (List.cons.inj heq).1 hzero
    · exact ⟨_, rfl⟩
  · have hread : Decimal.read? (c :: s) = none := by
      have htake : (c :: s).takeWhile Char.isDigit = [] :=
        List.takeWhile_cons_of_neg (by rw [hdigit]; decide)
      have hdrop : (c :: s).dropWhile Char.isDigit = c :: s :=
        List.dropWhile_cons_of_neg (by rw [hdigit]; decide)
      have hfraction : Decimal.readFraction (c :: s) = ([], c :: s) :=
        Decimal.readFraction_of_none fun d hd => by
          cases hd
          exact hpoint
      simp only [Decimal.read?, htake, hdrop, hfraction, List.isEmpty_nil, Bool.and_self, if_true]
    refine ⟨c :: s, ?_⟩
    unfold decimalNumber
    rw [hread]

/-- A string begins with a quote. -/
theorem string_fails (hdouble : c ≠ '"') (hsingle : c ≠ '\'') (s : List Char) :
    Fails string (c :: s) := by
  refine ⟨c :: s, ?_⟩
  simp only [string, hdouble, hsingle, or_self, if_false]

/-- A text that begins with no character of words begins with no word. -/
theorem leadingWord_cons_of_not (hc : isWordChar c = false) (s : List Char) :
    leadingWord (c :: s) = [] :=
  List.takeWhile_cons_of_neg (by rw [hc]; decide)

/-- No word begins with a character that is not part of one. -/
theorem keyword_fails_of_char {word : String} (hword : ∀ c ∈ word.toList, isWordChar c)
    (hne : word.toList ≠ []) (hc : isWordChar c = false) (s : List Char) :
    Fails (keyword word) (c :: s) :=
  keyword_fails hword (by rw [leadingWord_cons_of_not hc]; exact hne.symm)

/-- A word begins with a letter or one of two marks. -/
theorem anyWord_fails (hc : isWordStart c = false) (s : List Char) :
    Fails anyWord (c :: s) := by
  refine ⟨c :: s, ?_⟩
  simp only [anyWord, hc, Bool.false_eq_true, if_false]

/-- A name is a word that is not reserved, so it is not read where no word is. -/
theorem Fails.ident (h : Fails anyWord s) : Fails ident s := by
  -- the word is read first, and then looked up among the reserved ones
  obtain ⟨place, h⟩ := h
  refine ⟨place, ?_⟩
  unfold Reader.ident
  rw [h]

/-- A name begins with a character that words begin with. -/
theorem ident_fails (hc : isWordStart c = false) (s : List Char) : Fails ident (c :: s) :=
  (anyWord_fails hc s).ident

/-- A character that is neither part of a word nor the start of a number or a string. -/
def IsMark (c : Char) : Prop :=
  isWordChar c = false ∧ c ≠ '.' ∧ c ≠ '"' ∧ c ≠ '\''

/-- A mark begins no word. -/
theorem IsMark.isWordStart (h : IsMark c) : isWordStart c = false :=
  (Bool.or_eq_false_iff.mp h.1).1

/-- A mark is no digit. -/
theorem IsMark.isDigit (h : IsMark c) : c.isDigit = false :=
  (Bool.or_eq_false_iff.mp h.1).2

/-- At a mark only brackets of the three kinds are left to read, and names. -/
theorem primary_mark (h : IsMark c) (s : List Char) :
    Production.primary N (c :: s) =
      (Production.arrayLiteral N <|> Production.objectLiteral N <|> Production.parenthesized N <|>
        (do return .ident (← ident))) (c :: s) := by
  have hkeyword {word : String} (hword : ∀ c ∈ word.toList, isWordChar c)
      (hne : word.toList ≠ []) : Fails (keyword word) (c :: s) :=
    keyword_fails_of_char hword hne h.1 s
  have hfunction : Fails (Production.functionExpression N) (c :: s) :=
    (hkeyword (by decide) (by decide)).bind _
  -- the readers of numbers, strings and words fail one after the other
  unfold Production.primary
  rw [orElse_of_fails ((number_fails h.isDigit h.2.1 s).bind _),
    orElse_of_fails ((string_fails h.2.2.1 h.2.2.2 s).bind _),
    orElse_of_fails ((hkeyword (by decide) (by decide)).bind _),
    orElse_of_fails ((hkeyword (by decide) (by decide)).bind _),
    orElse_of_fails ((hkeyword (by decide) (by decide)).bind _),
    orElse_of_fails ((hkeyword (by decide) (by decide)).bind _), orElse_of_fails hfunction]

/-- A bracket begins an array literal. -/
theorem primary_bracket (s : List Char) (h : Production.arrayLiteral N ('[' :: s) = .ok (e, r)) :
    Production.primary N ('[' :: s) = .ok (e, r) := by
  rw [primary_mark (by unfold IsMark; decide)]
  exact orElse_of_ok h

/-- A brace begins an object literal. -/
theorem primary_brace (s : List Char)
    (h : Production.objectLiteral N ('\x7b' :: s) = .ok (e, r)) :
    Production.primary N ('\x7b' :: s) = .ok (e, r) := by
  have hbracket : Fails (Production.arrayLiteral N) ('\x7b' :: s) := (symbol_fails rfl).bind _
  rw [primary_mark (by unfold IsMark; decide), orElse_of_fails hbracket]
  exact orElse_of_ok h

/-- A parenthesis encloses a whole expression. -/
theorem primary_parenthesis (s : List Char)
    (h : Production.parenthesized N ('(' :: s) = .ok (e, r)) :
    Production.primary N ('(' :: s) = .ok (e, r) := by
  have hbracket : Fails (Production.arrayLiteral N) ('(' :: s) := (symbol_fails rfl).bind _
  have hbrace : Fails (Production.objectLiteral N) ('(' :: s) := (symbol_fails rfl).bind _
  rw [primary_mark (by unfold IsMark; decide), orElse_of_fails hbracket, orElse_of_fails hbrace]
  exact orElse_of_ok h

/-- A mark that no primary expression begins with. -/
theorem primary_fails (h : IsMark c) (hbracket : c ≠ '[') (hbrace : c ≠ '\x7b')
    (hparenthesis : c ≠ '(') (s : List Char) : Fails (Production.primary N) (c :: s) := by
  have hsymbol (mark : String) {t : Char} (ht : mark.toList = [t]) (hne : c ≠ t) :
      Fails (symbol mark) (c :: s) :=
    symbol_fails (by rw [ht]; exact if_neg hne.symm)
  -- of the readers that are left, each has a mark of its own
  refine Fails.of_eq (primary_mark h s) ?_
  exact .orElse ((hsymbol "[" rfl hbracket).bind _) <|
    .orElse ((hsymbol "\x7b" rfl hbrace).bind _) <|
    .orElse ((hsymbol "(" rfl hparenthesis).bind _) <|
    (ident_fails h.isWordStart s).bind _

/-- The empty text is no expression. -/
theorem primary_fails_nil : Fails (Production.primary N) [] :=
  .orElse ⟨_, rfl⟩ <| .orElse ⟨_, rfl⟩ <| .orElse ⟨_, rfl⟩ <| .orElse ⟨_, rfl⟩ <|
    .orElse ⟨_, rfl⟩ <| .orElse ⟨_, rfl⟩ <| .orElse ⟨_, rfl⟩ <| .orElse ⟨_, rfl⟩ <|
    .orElse ⟨_, rfl⟩ <| .orElse ⟨_, rfl⟩ ⟨_, rfl⟩

/-! ## Words -/

/-- The words are made of ASCII letters, digits and two marks. -/
theorem isWordStart_range (h : isWordStart c) : (65 ≤ c.toNat ∧ c.toNat ≤ 90) ∨
    (97 ≤ c.toNat ∧ c.toNat ≤ 122) ∨ c = '_' ∨ c = '$' := by
  have hchar : (decide (65 ≤ c.val ∧ c.val ≤ 90) ||
      (decide (97 ≤ c.val) && decide (c.val ≤ 122)) || c == '_' || c == '$') = true := h
  simp only [Bool.or_eq_true, Bool.and_eq_true, decide_eq_true_eq, beq_iff_eq,
    UInt32.le_iff_toNat_le, or_assoc] at hchar
  exact hchar

/-- What a word begins with is no digit. -/
theorem isDigit_of_isWordStart (h : isWordStart c) : c.isDigit = false := by
  refine Bool.eq_false_iff.mpr fun hdigit => ?_
  have hge : 48 ≤ c.toNat := (Char.isDigit_iff_toNat.mp hdigit).1
  have hle : c.toNat ≤ 57 := (Char.isDigit_iff_toNat.mp hdigit).2
  -- the codes of letters and of the two marks lie outside those of digits
  rcases isWordStart_range h with h | h | rfl | rfl
  · omega
  · omega
  · exact absurd hle (by decide)
  · exact absurd hge (by decide)

/-- A character that can begin a word begins nothing else. -/
theorem ne_of_isWordStart {d : Char} (h : isWordStart c) (hd : isWordStart d = false) : d ≠ c := by
  rintro rfl
  rw [h] at hd
  cases hd

/-- A text that begins with a word is read by the readers of words alone. -/
theorem primary_of_word (h : isWordStart c) (s : List Char) :
    Production.primary N (c :: s) =
      ((do keyword "true"; return .literal (.flag true)) <|>
        (do keyword "false"; return .literal (.flag false)) <|>
        (do keyword "null"; return .literal .null) <|>
        (do keyword "this"; return .this) <|>
        Production.functionExpression N <|> Production.arrayLiteral N <|>
        Production.objectLiteral N <|> Production.parenthesized N <|>
        (do return .ident (← ident))) (c :: s) := by
  -- neither a number nor a string begins like a word
  unfold Production.primary
  rw [orElse_of_fails ((number_fails (isDigit_of_isWordStart h)
      (ne_of_isWordStart h (by decide)).symm s).bind _),
    orElse_of_fails ((string_fails (ne_of_isWordStart h (by decide)).symm
      (ne_of_isWordStart h (by decide)).symm s).bind _)]

/-- A mark is not read from a text that begins with a word. -/
theorem symbol_fails_of_word {mark : String} {t : Char} (ht : mark.toList = [t])
    (hstart : isWordStart t = false) (h : isWordStart c) (s : List Char) :
    Fails (symbol mark) (c :: s) :=
  symbol_fails (by rw [ht]; exact if_neg (ne_of_isWordStart h hstart))

/-- A name is not taken for a word with a fixed meaning. -/
theorem keyword_fails_of_name {name : Name} {word : String} (h : IsName name)
    (hword : ∀ c ∈ word.toList, isWordChar c) (hreserved : isReserved word)
    (hr : ∀ c ∈ r.head?, isWordChar c = false) : Fails (keyword word) (name.toList ++ r) :=
  keyword_fails hword (by rw [(leadingWord_append h.1.all hr).1]; exact h.ne_keyword hreserved)

/-- A word with a fixed meaning is not taken for another one. -/
theorem keyword_fails_of_keyword {word other : String} (hother : ∀ c ∈ other.toList, isWordChar c)
    (hword : ∀ c ∈ word.toList, isWordChar c) (hne : other.toList ≠ word.toList)
    (hr : ∀ c ∈ r.head?, isWordChar c = false) : Fails (keyword word) (other.toList ++ r) :=
  keyword_fails hword (by rw [(leadingWord_append hother hr).1]; exact hne)

/-- A name is read as a name. -/
theorem primary_ident {name : Name} (hname : IsName name) (h : Follows r r') :
    Production.primary N (name.toList ++ r) = .ok (.ident name, r') := by
  have hkeyword {word : String} (hword : ∀ c ∈ word.toList, isWordChar c)
      (hreserved : isReserved word) : Fails (keyword word) (name.toList ++ r) :=
    keyword_fails_of_name hname hword hreserved h.wordEnd
  have hread := ident_text hname h
  obtain ⟨⟨c, cs, hcs, hc, hall⟩, _⟩ := id hname
  rw [hcs, List.cons_append] at hkeyword hread ⊢
  have hfunction : Fails (Production.functionExpression N) (c :: (cs ++ r)) :=
    (hkeyword (by decide) (by decide)).bind _
  have harray : Fails (Production.arrayLiteral N) (c :: (cs ++ r)) :=
    (symbol_fails_of_word rfl (by decide) hc _).bind _
  have hobject : Fails (Production.objectLiteral N) (c :: (cs ++ r)) :=
    (symbol_fails_of_word rfl (by decide) hc _).bind _
  have hparenthesis : Fails (Production.parenthesized N) (c :: (cs ++ r)) :=
    (symbol_fails_of_word rfl (by decide) hc _).bind _
  -- a name is no word with a fixed meaning, so every reader but the last one fails
  rw [primary_of_word hc, orElse_of_fails ((hkeyword (by decide) (by decide)).bind _),
    orElse_of_fails ((hkeyword (by decide) (by decide)).bind _),
    orElse_of_fails ((hkeyword (by decide) (by decide)).bind _),
    orElse_of_fails ((hkeyword (by decide) (by decide)).bind _), orElse_of_fails hfunction,
    orElse_of_fails harray, orElse_of_fails hobject, orElse_of_fails hparenthesis]
  exact bind_of_ok hread

end Descramble.Reader
