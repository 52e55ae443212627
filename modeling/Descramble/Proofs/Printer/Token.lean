import Descramble.Proofs.Number.Text
import Descramble.Proofs.Reader.Token
import Descramble.Script.Printer

/-!
# Tokens are read back

A token that was written is read as what it was written for, whatever comes after it, as long as the
token does not go on there. The texts are lists of characters, since that is what readers read.

Main statements: `ident_text`, `number_text`, `string_text`, `keyword_fails`.
-/

namespace Descramble.Reader

variable {r r' s : List Char}

/-- What comes after a token: no word goes on in `r`, and `r'` is `r` without the gap at its
    front. -/
structure Follows (r r' : List Char) : Prop where
  gap : skipGap r = .ok r'
  wordEnd : ∀ c ∈ r.head?, isWordChar c = false

/-- A gap that can be skipped is read. -/
theorem gap_text (h : skipGap r = .ok r') : gap r = .ok ((), r') := by
  unfold gap
  rw [h]

/-- A word ends before a character that no word goes on with. -/
theorem wordEnd_text (h : ∀ c ∈ r.head?, isWordChar c = false) : wordEnd r = .ok ((), r) := by
  unfold wordEnd
  split
  · rw [if_neg (by rw [h _ rfl]; decide)]
  · rfl

/-- A mark ends before a character that makes no longer mark of it. -/
theorem notBefore_text {cs : List Char} (h : ∀ c ∈ r.head?, c ∉ cs) :
    notBefore cs r = .ok ((), r) := by
  unfold notBefore
  split
  · rw [if_neg (by rw [List.contains_iff_mem]; exact h _ rfl)]
  · rfl

/-- A token is read from a text that begins with it. -/
theorem exactly_text (token : String) (r : List Char) :
    exactly token (token.toList ++ r) = .ok ((), r) := by
  unfold exactly
  rw [afterStart?_eq_some_iff.mpr rfl]

/-- A mark is read with the gap behind it. -/
theorem symbol_text (mark : String) (h : skipGap r = .ok r') :
    symbol mark (mark.toList ++ r) = .ok ((), r') :=
  (bind_of_ok (exactly_text mark r)).trans (gap_text h)

/-- The same for a mark that might have gone on as a longer one. -/
theorem operator_text (mark : String) {longer : List Char} (hlonger : ∀ c ∈ r.head?, c ∉ longer)
    (h : skipGap r = .ok r') : operator mark longer (mark.toList ++ r) = .ok ((), r') :=
  (bind_of_ok (exactly_text mark r)).trans
    ((bind_of_ok (notBefore_text hlonger)).trans (gap_text h))

/-- A word with a fixed meaning is read where no word goes on. -/
theorem keyword_text (word : String) (h : Follows r r') :
    keyword word (word.toList ++ r) = .ok ((), r') :=
  (bind_of_ok (exactly_text word r)).trans
    ((bind_of_ok (wordEnd_text h.wordEnd)).trans (gap_text h.gap))

/-- The word that a text begins with; empty where it begins with something else. -/
def leadingWord (s : List Char) : List Char :=
  s.takeWhile isWordChar

/-- The word that a text begins with ends where the text goes on with something else. -/
theorem leadingWord_append {w : List Char} (hw : ∀ c ∈ w, isWordChar c)
    (h : ∀ c ∈ r.head?, isWordChar c = false) :
    leadingWord (w ++ r) = w ∧ (w ++ r).dropWhile isWordChar = r := by
  unfold leadingWord
  rw [List.takeWhile_append_of_pos hw, List.dropWhile_append_of_pos hw]
  -- what follows is empty or begins with a character that no word has
  cases r with
  | nil => exact ⟨List.append_nil _, rfl⟩
  | cons c r =>
    have hc := h c rfl
    rw [List.takeWhile_cons_of_neg (by rw [hc]; decide),
      List.dropWhile_cons_of_neg (by rw [hc]; decide)]
    exact ⟨List.append_nil _, rfl⟩

/-- A token is read, or the text does not begin with it. -/
theorem exactly_fails_or (token : String) (s : List Char) :
    Fails (exactly token) s ∨ ∃ rest, s = token.toList ++ rest := by
  unfold Fails exactly
  cases h : afterStart? token.toList s with
  | none => exact .inl ⟨s, rfl⟩
  | some rest => exact .inr ⟨rest, afterStart?_eq_some_iff.mp h⟩

/-- A word goes on, or it ends. -/
theorem wordEnd_fails_or (s : List Char) :
    Fails wordEnd s ∨ ∀ c ∈ s.head?, isWordChar c = false := by
  -- a word ends at the end of the text, too
  cases s with
  | nil => exact .inr fun _ h => by cases h
  | cons c s =>
    cases hc : isWordChar c with
    | true => exact .inl ⟨c :: s, if_pos hc⟩
    | false =>
      refine .inr fun c' hc' => ?_
      cases hc'
      exact hc

/-- A word with a fixed meaning is not read from a text that begins with another word. -/
theorem keyword_fails {word : String} (hword : ∀ c ∈ word.toList, isWordChar c)
    (h : leadingWord s ≠ word.toList) : Fails (keyword word) s := by
  -- with the characters of the word in front, either the word goes on or it is the leading one
  rcases exactly_fails_or word s with hfails | ⟨rest, rfl⟩
  · exact hfails.bind _
  rcases wordEnd_fails_or rest with hfails | hend
  · exact .of_ok (exactly_text word rest) (hfails.bind _)
  · exact absurd (leadingWord_append hword hend).1 h

/-- A token is not read from a text that begins with another character. -/
theorem exactly_fails {token : String} {c t : Char} {ts : List Char}
    (ht : token.toList = t :: ts) (h : t ≠ c) (s : List Char) : Fails (exactly token) (c :: s) := by
  -- were the token in front, it would begin with that character
  rcases exactly_fails_or token (c :: s) with hfails | ⟨rest, heq⟩
  · exact hfails
  · rw [ht, List.cons_append, List.cons.injEq] at heq
    exact absurd heq.1.symm h

/-- Where a token is not read, the error is at the beginning of the text. -/
theorem exactly_error {token : String} (h : afterStart? token.toList s = none) :
    exactly token s = .error ⟨s, false⟩ := by
  unfold exactly
  rw [h]

/-- A mark is not read from a text that does not begin with it. -/
theorem symbol_fails {mark : String} (h : afterStart? mark.toList s = none) :
    Fails (symbol mark) s :=
  Fails.bind ⟨s, exactly_error h⟩ _

/-- The same for a mark that might have gone on as a longer one. -/
theorem operator_fails {mark : String} {longer : List Char}
    (h : afterStart? mark.toList s = none) : Fails (operator mark longer) s :=
  Fails.bind ⟨s, exactly_error h⟩ _

/-! ## Words -/

/-- A word is read as far as it goes. -/
theorem anyWord_cons {c : Char} (hc : isWordStart c) (cs : List Char) :
    anyWord (c :: cs) =
      (do gap; return String.ofList (c :: cs.takeWhile isWordChar) : Reader Name)
        (cs.dropWhile isWordChar) :=
  if_pos hc

/-- A word that was written is read, also where it is reserved. -/
theorem anyWord_text {name : Name} (hname : IsWord name) (h : Follows r r') :
    anyWord (name.toList ++ r) = .ok (name, r') := by
  obtain ⟨c, cs, hcs, hc, hall⟩ := hname
  -- the characters after the first are taken up to the end of the word
  obtain ⟨htake, hdrop⟩ := leadingWord_append (w := cs) (List.all_eq_true.mp hall) h.wordEnd
  unfold leadingWord at htake
  rw [hcs, List.cons_append, anyWord_cons hc, htake, hdrop, bind_of_ok (gap_text h.gap), ← hcs,
    String.ofList_toList]
  rfl

/-- A name that was written is read. -/
theorem ident_text {name : Name} (hname : IsName name) (h : Follows r r') :
    ident (name.toList ++ r) = .ok (name, r') := by
  unfold ident
  rw [anyWord_text hname.1 h]
  simp only [hname.2, Bool.false_eq_true, if_false]

/-! ## Numbers -/

/-- A text whose second character is not an `x` is no hexadecimal numeral. -/
theorem hexNumber_fails (h : ∀ c x body, s = c :: x :: body → x ≠ 'x' ∧ x ≠ 'X') :
    Fails hexNumber s := by
  unfold Fails hexNumber
  -- a zero and a mark, or something else altogether
  split
  · rename_i x body
    obtain ⟨hx, hX⟩ := h _ _ _ rfl
    simp only [hx, hX, or_self, false_and, if_false]
    exact ⟨_, rfl⟩
  · exact ⟨_, rfl⟩

/-- What ends a word is no digit and none of the letters in numerals. -/
theorem not_isWordChar_of_isDigit {c : Char} (h : isWordChar c = false) :
    c.isDigit = false ∧ c ≠ 'e' ∧ c ≠ 'E' ∧ c ≠ 'x' ∧ c ≠ 'X' := by
  refine ⟨?_, ?_, ?_, ?_, ?_⟩
  · exact (Bool.or_eq_false_iff.mp h).2
  -- each of the letters is a character of words
  all_goals
    rintro rfl
    cases h

/-- A decimal numeral is read as the number nearest to what it denotes. -/
theorem decimalNumber_text {text : List Char} {v : ℚ} (htext : IsDecimalText text v)
    (h : Follows r r') (hpoint : ∀ c ∈ r.head?, c ≠ '.') :
    decimalNumber (text ++ r) = .ok (.nearest false v, r') := by
  -- what follows can be no part of the numeral
  have hends : EndsNumeral r := fun c hc => by
    obtain ⟨hdigit, he, hE, _⟩ := not_isWordChar_of_isDigit (h.wordEnd c hc)
    exact ⟨hdigit, hpoint c hc, he, hE⟩
  obtain ⟨d, hd, rfl⟩ := Decimal.read?_append htext hends
  unfold decimalNumber
  rw [hd]
  dsimp only
  rw [bind_of_ok (wordEnd_text h.wordEnd), bind_of_ok (gap_text h.gap), d.toNumber_eq_nearest]
  rfl

/-- A number is read from its text, unless a point follows. -/
theorem number_text {m : Magnitude} (h : Follows r r') (hpoint : ∀ c ∈ r.head?, c ≠ '.') :
    number ((Number.finite false m).toText.toList ++ r) = .ok (.finite false m, r') := by
  have hhex : Fails hexNumber ((Number.finite false m).toText.toList ++ r) := by
    have hrest (c : Char) (hc : c ∈ r.head?) : c ≠ 'x' ∧ c ≠ 'X' := by
      obtain ⟨_, _, _, hx⟩ := not_isWordChar_of_isDigit (h.wordEnd c hc)
      exact hx
    -- the second character is one of the decimal text, or the first behind it; neither is an `x`
    obtain ⟨t, ts, hts, _, hx⟩ := Number.toText_eq_cons m
    refine hexNumber_fails fun c x body heq => ?_
    rw [hts] at heq
    obtain ⟨_, hxs⟩ := List.cons.inj heq
    cases ts with
    | nil => exact hrest x (by rw [show r = x :: body from hxs]; rfl)
    | cons t' ts' =>
      obtain ⟨rfl, _⟩ := List.cons.inj hxs
      exact hx t' List.mem_cons_self
  obtain ⟨v, htext, hv⟩ := Number.isDecimalText_toText m
  unfold number
  rw [orElse_of_fails hhex, decimalNumber_text htext h hpoint, hv]

end Descramble.Reader
