import Descramble.Proofs.Reader.Alike

/-!
# Tokens are read off the front

Every token reader leaves an end of the text, and fails at a place inside it. Words that are read
are words, and numbers can be written as numerals.

Main statements: `skipGap_suffix`, `alike_keyword`, `alike_ident`, `alike_number`, `alike_string`.
-/

namespace Descramble

/-- A text without the token at its front is an end of it. -/
theorem afterStart?_suffix {token s rest : List Char} (h : afterStart? token s = some rest) :
    rest <:+ s ∧ rest.length + token.length = s.length := by
  obtain rfl := afterStart?_eq_some_iff.mp h
  exact ⟨List.suffix_append _ _, by rw [List.length_append]; omega⟩

/-- An end of a text is one of the text with two characters more in front. -/
theorem suffix_cons_cons {a b : Char} {s rest : List Char} (h : rest <:+ s) :
    rest <:+ a :: b :: s :=
  h.trans ((List.suffix_cons b s).trans (List.suffix_cons a (b :: s)))

namespace Reader

/-! ## Gaps -/

/-- A blank belongs to the gap it begins. -/
theorem skipGap_blank {c : Char} (hc : isBlank c) (s : List Char) :
    skipGap (c :: s) = skipGap s := by
  have hslash : c ≠ '/' := by
    rintro rfl
    cases hc
  rw [skipGap.eq_def]
  -- the two kinds of comments begin with a slash, which is no blank
  split
  · rename_i heq
    cases heq
  · rename_i heq
    exact absurd (List.cons.inj heq).1 hslash
  · rename_i heq
    exact absurd (List.cons.inj heq).1 hslash
  · rename_i heq
    obtain ⟨rfl, rfl⟩ := List.cons.inj heq
    rw [if_pos hc]

/-- There is no gap before a character that is neither blank nor a slash. -/
theorem skipGap_solid {c : Char} (hblank : isBlank c = false) (hslash : c ≠ '/') (s : List Char) :
    skipGap (c :: s) = .ok (c :: s) := by
  rw [skipGap.eq_def]
  -- neither kind of comment, and no blank
  split
  · rename_i heq
    cases heq
  · rename_i heq
    exact absurd (List.cons.inj heq).1 hslash
  · rename_i heq
    exact absurd (List.cons.inj heq).1 hslash
  · rename_i heq
    obtain ⟨rfl, rfl⟩ := List.cons.inj heq
    rw [if_neg (by rw [hblank]; decide)]

-- a gap, a line comment and a block comment go on into one another, so what each of them leaves is
-- shown of the three together, by the recursion of the readers
mutual

/-- What comes after a gap is an end of the text. -/
theorem skipGap_suffix {s rest : List Char} : skipGap s = .ok rest → rest <:+ s := by
  intro h
  unfold skipGap at h
  split at h
  · cases h
    exact List.suffix_refl _
  · exact suffix_cons_cons (skipLine_suffix h)
  · exact suffix_cons_cons (skipBlock_suffix h)
  · split at h
    · exact (skipGap_suffix h).trans (List.suffix_cons _ _)
    · cases h
      exact List.suffix_refl _

/-- What comes after a line comment and the gap behind it is an end of the text. -/
theorem skipLine_suffix {s rest : List Char} : skipLine s = .ok rest → rest <:+ s := by
  intro h
  unfold skipLine at h
  split at h
  · cases h
    exact List.suffix_refl _
  · split at h
    · exact (skipGap_suffix h).trans (List.suffix_cons _ _)
    · exact (skipLine_suffix h).trans (List.suffix_cons _ _)

/-- What comes after a block comment and the gap behind it is an end of the text. -/
theorem skipBlock_suffix {start s rest : List Char} :
    skipBlock start s = .ok rest → rest <:+ s := by
  intro h
  unfold skipBlock at h
  split at h
  · cases h
  · exact suffix_cons_cons (skipGap_suffix h)
  · exact (skipBlock_suffix h).trans (List.suffix_cons _ _)

end

mutual

/-- The error of a gap lies in the text. -/
theorem skipGap_error {s : List Char} {e : ReadError} : skipGap s = .error e → e.rest <:+ s := by
  intro h
  unfold skipGap at h
  split at h
  · cases h
  · exact suffix_cons_cons (skipLine_error h)
  -- a comment that is left open is an error where it begins
  · rcases skipBlock_error h with h | h
    · exact h ▸ List.suffix_refl _
    · exact suffix_cons_cons h
  · split at h
    · exact (skipGap_error h).trans (List.suffix_cons _ _)
    · cases h

/-- The error of a line comment lies behind it, in the gap that it goes on into. -/
theorem skipLine_error {s : List Char} {e : ReadError} :
    skipLine s = .error e → e.rest <:+ s := by
  intro h
  unfold skipLine at h
  split at h
  · cases h
  · split at h
    · exact (skipGap_error h).trans (List.suffix_cons _ _)
    · exact (skipLine_error h).trans (List.suffix_cons _ _)

/-- The error of an open block comment lies at its start, any other one further on. -/
theorem skipBlock_error {start s : List Char} {e : ReadError} :
    skipBlock start s = .error e → e.rest = start ∨ e.rest <:+ s := by
  intro h
  unfold skipBlock at h
  split at h
  · cases h
    exact .inl rfl
  · exact .inr (suffix_cons_cons (skipGap_error h))
  · exact (skipBlock_error h).imp id fun h => h.trans (List.suffix_cons _ _)

end

/-- A gap that was read was skipped. -/
theorem skipGap_of_gap {s rest : List Char} {u : Unit} (h : gap s = .ok (u, rest)) :
    skipGap s = .ok rest := by
  unfold gap at h
  cases hs : skipGap s with
  | error e => rw [hs] at h; cases h
  | ok r =>
    rw [hs] at h
    cases h
    rfl

/-- The error of reading a gap is that of skipping it. -/
theorem gap_error {s : List Char} {e : ReadError} (h : gap s = .error e) : e.rest <:+ s := by
  unfold gap at h
  -- reading a gap is skipping it
  cases hs : skipGap s with
  | ok r => rw [hs] at h; cases h
  | error e' =>
    rw [hs] at h
    cases h
    exact skipGap_error hs

variable {L : Nat}

/-- A gap may be empty. -/
theorem alike_gap : Alike L 0 (fun _ => True) gap gap where
  same _ _ := rfl
  reads s a rest _ h := by
    have hsuffix := skipGap_suffix (skipGap_of_gap h)
    exact ⟨hsuffix, hsuffix.length_le, trivial⟩
  fails s e _ h := gap_error h

/-! ## Marks and words with a fixed meaning -/

/-- A token takes as many characters as it has. -/
theorem alike_exactly (token : String) :
    Alike L token.toList.length (fun _ => True) (exactly token) (exactly token) where
  same _ _ := rfl
  reads s a rest _ h := by
    -- what is left after the token is what it found
    unfold exactly at h
    split at h
    · cases h
      obtain ⟨hsuffix, hlen⟩ := afterStart?_suffix (by assumption)
      exact ⟨hsuffix, by omega, trivial⟩
    · cases h
  fails s e _ h := by
    unfold exactly at h
    split at h
    · cases h
    · cases h
      exact List.suffix_refl _

/-- A reader that only looks at what comes next takes nothing, and fails where it looks. -/
theorem alike_of_looks {p : Reader Unit}
    (h : ∀ s, p s = .ok ((), s) ∨ p s = .error ⟨s, false⟩) : Alike L 0 (fun _ => True) p p where
  same _ _ := rfl
  reads s a rest _ hp := by
    -- where it succeeds it leaves the text as it is
    rcases h s with h | h
    · rw [h] at hp
      cases hp
      exact ⟨List.suffix_refl _, Nat.le_refl _, trivial⟩
    · rw [h] at hp
      cases hp
  fails s e _ hp := by
    rcases h s with h | h
    · rw [h] at hp
      cases hp
    · rw [h] at hp
      cases hp
      exact List.suffix_refl _

/-- The end of a word takes nothing. -/
theorem alike_wordEnd : Alike L 0 (fun _ => True) wordEnd wordEnd := by
  refine alike_of_looks fun s => ?_
  unfold wordEnd
  split
  · split
    · exact .inr rfl
    · exact .inl rfl
  · exact .inl rfl

/-- Looking for a longer mark takes nothing. -/
theorem alike_notBefore (cs : List Char) :
    Alike L 0 (fun _ => True) (notBefore cs) (notBefore cs) := by
  refine alike_of_looks fun s => ?_
  unfold notBefore
  split
  · split
    · exact .inr rfl
    · exact .inl rfl
  · exact .inl rfl

/-- A token of at least one character, with something after it that need not shorten the text. -/
theorem alike_exactly_bind {token : String} {q : Reader Unit} (hne : 0 < token.toList.length)
    (hq : ∀ L, Alike L 0 (fun _ => True) q q) :
    Alike L 1 (fun _ => True) (do exactly token; q) (do exactly token; q) :=
  ((alike_exactly token).bind fun _ _ => hq _).weaken (Nat.le_refl _) hne fun _ => id

/-- A mark with the gap behind it takes at least one character. -/
theorem alike_symbol (mark : String) (hne : 0 < mark.toList.length) :
    Alike L 1 (fun _ => True) (symbol mark) (symbol mark) :=
  alike_exactly_bind hne fun _ => alike_gap

/-- So does a mark that must not go on as a longer one. -/
theorem alike_operator (mark : String) (longer : List Char) (hne : 0 < mark.toList.length) :
    Alike L 1 (fun _ => True) (operator mark longer) (operator mark longer) :=
  alike_exactly_bind hne fun _ => (alike_notBefore longer).andThen fun _ _ => alike_gap

/-- So does a word with a fixed meaning. -/
theorem alike_keyword (word : String) (hne : 0 < word.toList.length) :
    Alike L 1 (fun _ => True) (keyword word) (keyword word) :=
  alike_exactly_bind hne fun _ => alike_wordEnd.andThen fun _ _ => alike_gap

/-! ## Words -/

/-- What comes after the reader of a gap that ends with a given value. -/
theorem gap_value {α : Type} {v a : α} {s rest : List Char}
    (h : (do gap; return v : Reader α) s = .ok (a, rest)) : a = v ∧ skipGap s = .ok rest := by
  obtain ⟨_, mid, hgap, hv⟩ := bind_eq_ok h
  cases hv
  exact ⟨rfl, skipGap_of_gap hgap⟩

/-- Where a gap comes before a value, the error is that of the gap. -/
theorem gap_value_error {α : Type} {v : α} {s : List Char} {e : ReadError}
    (h : (do gap; return v : Reader α) s = .error e) : e.rest <:+ s := by
  rw [bind_apply] at h
  cases hs : gap s with
  | ok r => rw [hs] at h; cases h
  | error e' =>
    rw [hs] at h
    cases h
    exact gap_error hs

/-- A word that is read is a word. -/
theorem alike_anyWord : Alike L 1 IsWord anyWord anyWord where
  same _ _ := rfl
  reads s name rest hs h := by
    unfold anyWord at h
    split at h
    · rename_i c cs
      split at h
      · rename_i hc
        obtain ⟨rfl, hgap⟩ := gap_value h
        have hsuffix := (skipGap_suffix hgap).trans (List.dropWhile_suffix _)
        -- the word is its first character and all the characters of words after it
        refine ⟨hsuffix.trans (List.suffix_cons _ _), ?_, c, cs.takeWhile isWordChar, ?_, hc, ?_⟩
        · have := hsuffix.length_le
          rw [List.length_cons]
          omega
        · rw [String.toList_ofList]
        · exact List.all_takeWhile
      · cases h
    · cases h
  fails s e _ h := by
    unfold anyWord at h
    split at h
    · split at h
      · exact (gap_value_error h).trans ((List.dropWhile_suffix _).trans (List.suffix_cons _ _))
      · cases h
        exact List.suffix_refl _
    · cases h
      exact List.suffix_refl _

/-- A name that is read is a word that is not reserved. -/
theorem alike_ident : Alike L 1 IsName ident ident where
  same _ _ := rfl
  reads s name rest hs h := by
    unfold ident at h
    -- a name is read as a word first
    cases hword : anyWord s with
    | error e => rw [hword] at h; cases h
    | ok r =>
      rw [hword] at h
      dsimp only at h
      -- a reserved word is refused where it begins
      split at h
      · cases h
      · rename_i hres
        cases h
        obtain ⟨hsuffix, hlen, hname⟩ := alike_anyWord.reads s _ _ hs hword
        exact ⟨hsuffix, hlen, hname, Bool.eq_false_iff.mpr hres⟩
  fails s e hs h := by
    unfold ident at h
    cases hword : anyWord s with
    | error e' =>
      rw [hword] at h
      cases h
      exact alike_anyWord.fails s _ hs hword
    | ok r =>
      rw [hword] at h
      dsimp only at h
      split at h
      · cases h
        exact List.suffix_refl _
      · cases h

/-! ## Numbers and strings -/

end Reader

/-- What comes after digits of a base is an end of the text. -/
theorem digitRun_suffix (base : Nat) (cs : List Char) : (digitRun base cs).2 <:+ cs := by
  -- along the digits
  induction cs with
  | nil => exact List.suffix_refl _
  | cons c cs ih =>
    unfold digitRun
    cases digitIn? base c with
    | none => exact List.suffix_refl _
    | some d => exact ih.trans (List.suffix_cons _ _)

namespace Decimal

/-- What comes after an exponent is an end of the text, also where there is none. -/
theorem readExponent_suffix (cs : List Char) : (readExponent cs).2 <:+ cs := by
  unfold readExponent
  split
  · split
    -- with a sign or without, and with digits behind it or without
    · dsimp only
      split <;> split <;>
        first
        | exact List.suffix_refl _
        | exact (List.dropWhile_suffix _).trans (List.suffix_cons _ _)
        | exact suffix_cons_cons (List.dropWhile_suffix _)
    · exact List.suffix_refl _
  · exact List.suffix_refl _

/-- What comes after a fraction is an end of the text, also where there is none. -/
theorem readFraction_suffix (cs : List Char) : (readFraction cs).2 <:+ cs := by
  unfold readFraction
  -- a point and the digits behind it, or nothing
  split
  · exact (List.dropWhile_suffix _).trans (List.suffix_cons _ _)
  · exact List.suffix_refl _

/-- Where there are fraction digits, the point before them is gone. -/
theorem length_readFraction_lt {cs : List Char} (h : (readFraction cs).1 ≠ []) :
    (readFraction cs).2.length < cs.length := by
  revert h
  unfold readFraction
  -- without a point there are no fraction digits
  split
  · exact fun _ => Nat.lt_succ_of_le (List.dropWhile_suffix _).length_le
  · exact fun h => absurd rfl h

/-- Reading a numeral takes at least one character. -/
theorem read?_suffix {cs rest : List Char} {d : Decimal} (h : read? cs = some (d, rest)) :
    rest <:+ cs ∧ rest.length + 1 ≤ cs.length := by
  unfold read? at h
  dsimp only at h
  have hsplit := congrArg List.length (List.takeWhile_append_dropWhile (p := Char.isDigit) (l := cs))
  have hfraction := readFraction_suffix (cs.dropWhile Char.isDigit)
  have hexponent := readExponent_suffix (readFraction (cs.dropWhile Char.isDigit)).2
  rw [List.length_append] at hsplit
  split at h
  · cases h
  · rename_i hdigits
    obtain ⟨_, rfl⟩ := Prod.mk.inj (Option.some.inj h)
    refine ⟨hexponent.trans (hfraction.trans (List.dropWhile_suffix _)), ?_⟩
    have := hexponent.length_le
    have := hfraction.length_le
    -- a numeral has digits before its point or behind it
    cases hwhole : cs.takeWhile Char.isDigit with
    | cons c whole =>
      rw [hwhole, List.length_cons] at hsplit
      omega
    | nil =>
      rw [hwhole, List.length_nil] at hsplit
      rw [hwhole, List.isEmpty_nil, Bool.true_and, List.isEmpty_iff] at hdigits
      have := length_readFraction_lt hdigits
      omega

end Decimal

namespace Number

/-- A number without a sign can be written as a numeral. -/
theorem isNumeral_ofRatio (num den : Nat) : (ofRatio false num den).IsNumeral := by
  unfold ofRatio
  split <;> rfl

end Number

/-- A decimal without a sign is read as a numeral. -/
theorem Decimal.isNumeral_toNumber (d : Decimal) : (d.toNumber false).IsNumeral := by
  unfold toNumber
  -- too large, too small and in between, each without a sign
  split
  · exact Number.isNumeral_ofRatio _ _
  split
  · rfl
  split
  · exact Number.isNumeral_ofRatio _ _
  split <;> exact Number.isNumeral_ofRatio _ _

namespace Reader

variable {L : Nat}

/-- A number ends where no word goes on. -/
theorem alike_numberEnd : Alike L 0 (fun _ => True) (do wordEnd; gap) (do wordEnd; gap) :=
  alike_wordEnd.andThen fun _ _ => alike_gap

/-- A hexadecimal numeral takes at least its mark, and is a numeral. -/
theorem alike_hexNumber : Alike L 1 Number.IsNumeral hexNumber hexNumber where
  same _ _ := rfl
  reads s n rest hs h := by
    unfold hexNumber at h
    split at h
    · rename_i x body
      dsimp only at h
      have hrun := digitRun_suffix 16 body
      split at h
      · split at h
        · rename_i hend
          -- the number ends behind its digits, and there are digits
          obtain ⟨hsuffix, hlen, _⟩ :=
            alike_numberEnd.reads _ _ _ (Nat.lt_succ_self _) hend
          split at h
          · cases h
            have := hrun.length_le
            refine ⟨suffix_cons_cons (hsuffix.trans hrun), ?_, Number.isNumeral_ofRatio _ _⟩
            simp only [List.length_cons]
            omega
          · cases h
        · cases h
      · cases h
    · cases h
  fails s e hs h := by
    unfold hexNumber at h
    split at h
    · rename_i x body
      dsimp only at h
      split at h
      · split at h
        · split at h
          · cases h
          · cases h
            exact List.suffix_refl _
        · rename_i hend
          cases h
          have hsuffix := alike_numberEnd.fails _ _ (Nat.lt_succ_self _) hend
          exact suffix_cons_cons (hsuffix.trans (digitRun_suffix 16 body))
      · cases h
        exact List.suffix_refl _
    · cases h
      exact List.suffix_refl _

/-- A decimal numeral takes at least one character, and is a numeral. -/
theorem alike_decimalNumber : Alike L 1 Number.IsNumeral decimalNumber decimalNumber where
  same _ _ := rfl
  reads s n rest hs h := by
    unfold decimalNumber at h
    split at h
    · rename_i d mid hread
      obtain ⟨hmid, hlen⟩ := Decimal.read?_suffix hread
      have halike : Alike L 0 Number.IsNumeral
          (do wordEnd; gap; return d.toNumber false) (do wordEnd; gap; return d.toNumber false) :=
        alike_wordEnd.andThen fun _ _ => alike_gap.andThen fun _ _ =>
          Alike.pure d.isNumeral_toNumber
      obtain ⟨hrest, hlen', hn⟩ := halike.reads mid n rest (by omega) h
      exact ⟨hrest.trans hmid, by omega, hn⟩
    · cases h
  fails s e hs h := by
    unfold decimalNumber at h
    split at h
    · rename_i d mid hread
      obtain ⟨hmid, hlen⟩ := Decimal.read?_suffix hread
      have halike : Alike L 0 (fun _ => True)
          (do wordEnd; gap; return d.toNumber false) (do wordEnd; gap; return d.toNumber false) :=
        alike_wordEnd.andThen fun _ _ => alike_gap.andThen fun _ _ => Alike.pure trivial
      exact (halike.fails mid e (by omega) h).trans hmid
    · cases h
      exact List.suffix_refl _

/-- A number is a hexadecimal or a decimal numeral. -/
theorem alike_number : Alike L 1 Number.IsNumeral number number :=
  alike_hexNumber.orElse alike_decimalNumber

/-- What comes after a fixed count of hexadecimal digits is an end of the text. -/
theorem hexDigits?_suffix {count : Nat} {s rest : List Char} {n : Nat}
    (h : hexDigits? count s = some (n, rest)) : rest <:+ s := by
  unfold hexDigits? at h
  obtain ⟨ds, _, h⟩ := Option.bind_eq_some_iff.mp h
  split at h
  · cases h
    exact List.drop_suffix _ _
  · cases h

/-- What comes after a character written by its code is an end of the text. -/
theorem unicodeEscape?_suffix {s rest : List Char} {c : Char}
    (h : unicodeEscape? s = some (c, rest)) : rest <:+ s := by
  unfold unicodeEscape? at h
  split at h
  · rename_i body
    have hrun := digitRun_suffix 16 body
    split at h
    · rename_i hbody
      rw [hbody] at hrun
      dsimp only at h
      split at h
      · cases h
        exact ((List.suffix_cons _ _).trans hrun).trans (List.suffix_cons _ _)
      · cases h
    · cases h
  · -- what follows the first escape is looked at for a second one, the other half of a pair; where
    -- there is none, nothing more is taken
    obtain ⟨⟨high, mid⟩, hhigh, h⟩ := Option.bind_eq_some_iff.mp h
    have hmid := hexDigits?_suffix hhigh
    dsimp only at h
    split at h
    · split at h
      · rename_i body
        split at h
        · rename_i hlow
          split at h
          · obtain ⟨_, rfl⟩ := Prod.mk.inj (Option.some.inj h)
            exact (suffix_cons_cons (hexDigits?_suffix hlow)).trans hmid
          · cases h
            exact hmid
        · cases h
          exact hmid
      · cases h
        exact hmid
    · cases h
      exact hmid

/-- What comes after an escape is an end of the text. -/
theorem escape?_suffix {s rest : List Char} {c : Option Char}
    (h : escape? s = some (c, rest)) : rest <:+ s := by
  unfold escape? at h
  split at h
  -- most escapes are one character; two spell a code, and nothing is none
  case h_1 => cases h
  case h_9 =>
    obtain ⟨⟨code, mid⟩, hcode, h⟩ := Option.bind_eq_some_iff.mp h
    cases h
    exact (hexDigits?_suffix hcode).trans (List.suffix_cons _ _)
  case h_10 =>
    obtain ⟨⟨c, mid⟩, hc, h⟩ := Option.bind_eq_some_iff.mp h
    cases h
    exact (unicodeEscape?_suffix hc).trans (List.suffix_cons _ _)
  all_goals
    cases h
    exact List.suffix_cons _ _

/-- What comes after the body of a string is an end of the text. -/
theorem stringBody_suffix {start : List Char} {quote : Char} {bound : Nat}
    {done s rest : List Char} {value : String}
    (h : stringBody start quote bound done s = .ok (value, rest)) : rest <:+ s := by
  -- on the bound, one character or escape at a time
  induction bound generalizing done s with
  | zero => cases h
  | succ bound ih =>
    cases s with
    | nil => cases h
    | cons c s =>
      unfold stringBody at h
      split at h
      · cases h
        exact List.suffix_cons _ _
      split at h
      · split at h
        · exact (ih h).trans ((escape?_suffix (by assumption)).trans (List.suffix_cons _ _))
        · exact (ih h).trans ((escape?_suffix (by assumption)).trans (List.suffix_cons _ _))
        · cases h
      split at h
      · cases h
      · exact (ih h).trans (List.suffix_cons _ _)

/-- The error of a string lies at its start or inside it. -/
theorem stringBody_error {start : List Char} {quote : Char} {bound : Nat} {done s : List Char}
    {e : ReadError} (h : stringBody start quote bound done s = .error e) :
    e.rest = start ∨ e.rest <:+ s := by
  -- as for what is left: a string that is not closed is an error where it begins
  induction bound generalizing done s with
  | zero =>
    cases h
    exact .inl rfl
  | succ bound ih =>
    cases s with
    | nil =>
      cases h
      exact .inl rfl
    | cons c s =>
      unfold stringBody at h
      split at h
      · cases h
      split at h
      · split at h
        · exact (ih h).imp id fun h =>
            h.trans ((escape?_suffix (by assumption)).trans (List.suffix_cons _ _))
        · exact (ih h).imp id fun h =>
            h.trans ((escape?_suffix (by assumption)).trans (List.suffix_cons _ _))
        · cases h
          exact .inl rfl
      split at h
      · cases h
        exact .inr (List.suffix_refl _)
      · exact (ih h).imp id fun h => h.trans (List.suffix_cons _ _)

/-- A string takes at least its quote. -/
theorem alike_string : Alike L 1 (fun _ => True) string string where
  same _ _ := rfl
  reads s value rest hs h := by
    unfold string at h
    split at h
    · rename_i quote body
      split at h
      · split at h
        · rename_i hbody
          have hsuffix := (skipGap_suffix (gap_value h).2).trans (stringBody_suffix hbody)
          have := hsuffix.length_le
          refine ⟨hsuffix.trans (List.suffix_cons _ _), ?_, trivial⟩
          rw [List.length_cons]
          omega
        · cases h
      · cases h
    · cases h
  fails s e hs h := by
    unfold string at h
    split at h
    · rename_i quote body
      split at h
      · split at h
        · rename_i hbody
          exact (gap_value_error h).trans
            ((stringBody_suffix hbody).trans (List.suffix_cons _ _))
        · rename_i hbody
          cases h
          rcases stringBody_error hbody with h | h
          · exact h ▸ List.suffix_refl _
          · exact h.trans (List.suffix_cons _ _)
      · cases h
        exact List.suffix_refl _
    · cases h
      exact List.suffix_refl _

end Reader

end Descramble
