import Descramble.Proofs.Number.Numeral
import Descramble.Proofs.Text.Digits
import Descramble.Value.Conversion

/-!
# Texts that stand for a number

Between blanks a text stands for a number if nothing is left of it, if it is infinity with an
optional sign, hexadecimal digits after `0x`, or a decimal numeral with an optional sign; the number
is then the one nearest to what it denotes.

Two kinds of hexadecimal texts are taken otherwise: a plus sign after the mark is passed over, and
from 64 bits on the digits stand for nothing. Apart from these, the texts that stand for a number
are exactly those of the grammar, and they stand for the number that it gives.

Main statement: `textToNumber_grammar`.
-/

namespace Descramble

variable {t body ds sign : List Char} {mark : Char} {negative : Bool} {n : Nat} {v : ℚ}

/-- A text between blanks that stands for a number. -/
inductive IsNumberText : List Char → Number → Prop
  | blank : IsNumberText [] .zero
  | infinity {sign : List Char} {negative : Bool} (hsign : IsSign sign negative) :
      IsNumberText (sign ++ "Infinity".toList) (.infinite negative)
  | hex {mark : Char} {ds : List Char} {n : Nat} (hmark : mark = 'x' ∨ mark = 'X') (hne : ds ≠ [])
      (hds : IsHex n ds) : IsNumberText ('0' :: mark :: ds) (.nearest false n)
  | decimal {sign body : List Char} {negative : Bool} {v : ℚ} (hsign : IsSign sign negative)
      (hbody : IsDecimalText body v) : IsNumberText (sign ++ body) (.nearest negative v)

/-- A hexadecimal text that is not taken for what it stands for, and what it is taken for: a number
    despite the plus sign, or none from 64 bits on. -/
inductive HexMisread : List Char → Number → Prop
  | plus {mark : Char} {ds : List Char} {n : Nat} (hmark : mark = 'x' ∨ mark = 'X') (hne : ds ≠ [])
      (hds : IsHex n ds) (hn : n < 2 ^ 64) :
      HexMisread ('0' :: mark :: '+' :: ds) (.nearest false n)
  | large {mark : Char} {ds : List Char} {n : Nat} (hmark : mark = 'x' ∨ mark = 'X') (hne : ds ≠ [])
      (hds : IsHex n ds) (hn : 2 ^ 64 ≤ n) : HexMisread ('0' :: mark :: ds) .nan

/-! ## Hexadecimal texts -/

/-- The number that hexadecimal digits are read as: none from 64 bits on. -/
def hexReading (n : Nat) : Number :=
  if n < 2 ^ 64 then .nearest false n else .nan

/-- The number that a whole text of hexadecimal digits is read as. -/
def hexDigitsToNumber (cs : List Char) : Number :=
  let (ds, rest) := digitRun 16 cs
  if ds.isEmpty || !rest.isEmpty then .nan else hexReading (ofDigitValues 16 ds)

/-- A plus sign after the mark is passed over. -/
theorem hexTextToNumber_plus (cs : List Char) :
    hexTextToNumber ('+' :: cs) = hexDigitsToNumber cs := by
  unfold hexDigitsToNumber hexReading
  simp only [Number.nearest_natCast]
  rfl

/-- Without one, the digits are read from where they are. -/
theorem hexTextToNumber_of_ne (h : ∀ rest, t ≠ '+' :: rest) :
    hexTextToNumber t = hexDigitsToNumber t := by
  unfold hexTextToNumber
  split
  · rename_i rest
    exact absurd rfl (h rest)
  · unfold hexDigitsToNumber hexReading
    simp only [Number.nearest_natCast]

/-- Hexadecimal digits do not begin with a plus sign. -/
theorem ne_plus_of_isHex (hne : ds ≠ []) (h : IsHex n ds) (rest : List Char) : ds ≠ '+' :: rest := by
  rintro rfl
  obtain ⟨values, hvalues, -⟩ := isHex_iff.mp h
  obtain ⟨d, -, hd, -⟩ := mapM_digitIn?_cons_eq_some_iff.mp hvalues
  cases hd

/-- Hexadecimal digits are read as the number that they spell, where it has at most 64 bits. -/
theorem hexDigitsToNumber_of_isHex (hne : ds ≠ []) (h : IsHex n ds) :
    hexDigitsToNumber ds = hexReading n := by
  obtain ⟨values, hvalues, rfl⟩ := isHex_iff.mp h
  have hrun : digitRun 16 (ds ++ []) = (values, []) := digitRun_append hvalues nofun
  -- there is a digit, and nothing is left behind the last one
  have hempty : values.isEmpty = false := by
    rw [List.isEmpty_eq_false_iff, ← List.length_pos_iff, length_of_mapM_digitIn? hvalues]
    exact List.length_pos_iff.mpr hne
  rw [List.append_nil] at hrun
  simp only [hexDigitsToNumber, hrun, hempty, List.isEmpty_nil, Bool.not_true, Bool.or_self,
    Bool.false_eq_true, if_false]

/-- Nothing but hexadecimal digits is read as a number. -/
theorem isHex_of_hexDigitsToNumber (h : hexDigitsToNumber t ≠ .nan) :
    t ≠ [] ∧ ∃ n, IsHex n t ∧ n < 2 ^ 64 := by
  obtain ⟨digits, ht, hdigits⟩ := exists_digits_of_digitRun 16 t
  have hlength := length_of_mapM_digitIn? hdigits
  unfold hexDigitsToNumber at h
  dsimp only at h
  -- no digits at all, or something behind them, give no number
  split at h
  · exact absurd rfl h
  rename_i hcond
  simp only [Bool.or_eq_true, Bool.not_eq_true', not_or, Bool.not_eq_false,
    List.isEmpty_iff] at hcond
  obtain ⟨hne, hrest⟩ := hcond
  rw [hrest, List.append_nil] at ht
  subst ht
  refine ⟨?_, _, isHex_iff.mpr ⟨_, hdigits, rfl⟩, ?_⟩
  · rintro rfl
    exact hne (List.length_eq_zero_iff.mp hlength)
  · unfold hexReading at h
    split at h
    · assumption
    · exact absurd rfl h

/-! ## Decimal texts -/

/-- A sign is split off, and the whole rest has to be a numeral. -/
theorem decimalTextToNumber_eq (cs : List Char) :
    decimalTextToNumber cs =
      match Decimal.read? (splitSign cs).2 with
      | some (d, []) => d.toNumber (splitSign cs).1
      | _ => .nan :=
  rfl

/-- A numeral is read as the number nearest to its value, with the sign before it. -/
theorem decimalTextToNumber_append (hsign : IsSign sign negative) (hbody : IsDecimalText body v) :
    decimalTextToNumber (sign ++ body) = .nearest negative v := by
  -- a numeral begins with a digit or a point, so the sign ends before it
  have hsplit : splitSign (sign ++ body) = (negative, body) := by
    apply splitSign_append hsign
    obtain ⟨c, cs, rfl, hc⟩ := hbody.eq_cons
    intro d hd
    obtain rfl := Option.some.inj hd
    rcases hc with hc | rfl
    · exact not_sign_of_isDigit hc
    · decide
  obtain ⟨d, hd, rfl⟩ := Decimal.read?_append hbody endsNumeral_nil
  rw [List.append_nil] at hd
  rw [decimalTextToNumber_eq, hsplit]
  simp only [hd, d.toNumber_eq_nearest]

/-- Nothing but a numeral with an optional sign is read as a number. -/
theorem exists_isDecimalText_of_decimalTextToNumber (h : decimalTextToNumber t ≠ .nan) :
    ∃ sign body negative v, t = sign ++ body ∧ IsSign sign negative ∧ IsDecimalText body v := by
  rw [decimalTextToNumber_eq] at h
  obtain ⟨sign, hsign, ht⟩ := exists_sign t
  split at h
  · rename_i d hread
    obtain ⟨body, hbody, htext⟩ := Decimal.isDecimalText_of_read? hread
    rw [List.append_nil] at hbody
    exact ⟨sign, body, _, _, by rw [← hbody, ← ht], hsign, htext⟩
  · exact absurd rfl h

/-! ## The kinds of texts -/

variable {s : String}

/-- Blanks stand for zero. -/
theorem textToNumber_of_nil (h : trimEnds s.toList = []) : textToNumber s = .zero := by
  unfold textToNumber
  rw [h]

/-- Behind the mark the text is read in hexadecimal. -/
theorem textToNumber_of_hexMark (hmark : mark = 'x' ∨ mark = 'X')
    (h : trimEnds s.toList = '0' :: mark :: t) : textToNumber s = hexTextToNumber t := by
  unfold textToNumber
  rw [h]
  rcases hmark with rfl | rfl <;> rfl

/-- Infinity is read with any sign. -/
theorem textToNumber_of_infinity (hsign : IsSign sign negative)
    (h : trimEnds s.toList = sign ++ "Infinity".toList) : textToNumber s = .infinite negative := by
  unfold textToNumber
  rw [h]
  cases hsign <;> rfl

/-- Any other text is read as a decimal numeral. -/
theorem textToNumber_of_plain (hne : trimEnds s.toList ≠ [])
    (hmark : ∀ mark rest, trimEnds s.toList = '0' :: mark :: rest → mark ≠ 'x' ∧ mark ≠ 'X')
    (hinfinity : ∀ sign negative, IsSign sign negative →
      trimEnds s.toList ≠ sign ++ "Infinity".toList) :
    textToNumber s = decimalTextToNumber (trimEnds s.toList) := by
  unfold textToNumber
  -- along the kinds of texts as they are tried
  split
  · rename_i heq
    exact absurd heq hne
  · rename_i rest heq
    exact absurd rfl (hmark _ _ heq).1
  · rename_i rest heq
    exact absurd rfl (hmark _ _ heq).2
  · have hnone := hinfinity _ _ .none
    have hplus := hinfinity _ _ .plus
    have hminus := hinfinity _ _ .minus
    rw [if_neg, if_neg]
    · exact hminus
    · exact not_or.mpr ⟨hnone, hplus⟩

/-! ## The grammar -/

variable {n : Number}

/-- A text of the grammar never stands for `NaN`. -/
theorem IsNumberText.ne_nan (h : IsNumberText t n) : n ≠ .nan := by
  cases h with
  | blank => exact nofun
  | infinity hsign => exact nofun
  | hex hmark hne hds => exact Number.ofRatio_ne_nan _ _
  | decimal hsign hbody => exact Number.ofRatio_ne_nan _ _

/-- A numeral with a sign is taken neither for hexadecimal digits nor for infinity. -/
theorem textToNumber_of_decimal (hsign : IsSign sign negative) (hbody : IsDecimalText body v)
    (h : trimEnds s.toList = sign ++ body) : textToNumber s = .nearest negative v := by
  -- a numeral has digits, points, exponents and signs only
  have hmem (c : Char) (hc : c ∈ sign ++ body) :
      c.isDigit ∨ c = '.' ∨ c = 'e' ∨ c = 'E' ∨ c = '-' ∨ c = '+' := by
    rcases List.mem_append.mp hc with hc | hc
    · exact .inr (.inr (.inr (.inr (hsign.mem hc))))
    · exact hbody.mem hc
  rw [textToNumber_of_plain, h, decimalTextToNumber_append hsign hbody]
  · obtain ⟨c, cs, rfl, -⟩ := hbody.eq_cons
    rw [h]
    exact List.append_ne_nil_of_right_ne_nil _ (List.cons_ne_nil _ _)
  · -- neither an `x` nor an `I` occurs in a numeral
    intro mark rest heq
    have hmark := hmem mark (by rw [← h, heq]; simp)
    constructor <;> rintro rfl <;> exact absurd hmark (by decide)
  · intro sign' negative' _ heq
    have hletter := hmem 'I' (by rw [← h, heq]; simp)
    exact absurd hletter (by decide)

/-- What is left of a text stands for a number, and the text is taken for that number, unless its
    hexadecimal digits are too many. -/
theorem textToNumber_of_isNumberText (hmisread : ∀ n, ¬ HexMisread (trimEnds s.toList) n)
    (h : IsNumberText (trimEnds s.toList) n) : textToNumber s = n := by
  -- along the grammar
  generalize ht : trimEnds s.toList = t at h
  cases h with
  | blank => exact textToNumber_of_nil ht
  | infinity hsign => exact textToNumber_of_infinity hsign ht
  | decimal hsign hbody => exact textToNumber_of_decimal hsign hbody ht
  | @hex mark ds k hmark hne hds =>
    have hbound : k < 2 ^ 64 := by
      apply Nat.lt_of_not_le
      intro hle
      rw [ht] at hmisread
      exact hmisread _ (.large hmark hne hds hle)
    rw [textToNumber_of_hexMark hmark ht, hexTextToNumber_of_ne (ne_plus_of_isHex hne hds),
      hexDigitsToNumber_of_isHex hne hds, hexReading, if_pos hbound]

/-- A misread text is taken for what is said there. -/
theorem textToNumber_of_hexMisread (h : HexMisread (trimEnds s.toList) n) : textToNumber s = n := by
  generalize ht : trimEnds s.toList = t at h
  cases h with
  | plus hmark hne hds hn =>
    rw [textToNumber_of_hexMark hmark ht, hexTextToNumber_plus, hexDigitsToNumber_of_isHex hne hds,
      hexReading, if_pos hn]
  | large hmark hne hds hn =>
    rw [textToNumber_of_hexMark hmark ht, hexTextToNumber_of_ne (ne_plus_of_isHex hne hds),
      hexDigitsToNumber_of_isHex hne hds, hexReading, if_neg (Nat.not_lt.mpr hn)]

/-- After the mark only hexadecimal digits are taken for a number, with a plus sign before them or
    none. -/
theorem isNumberText_of_hexMark (hmark : mark = 'x' ∨ mark = 'X') (h : hexTextToNumber t ≠ .nan)
    (hmisread : ∀ n, ¬ HexMisread ('0' :: mark :: t) n) : ∃ n, IsNumberText ('0' :: mark :: t) n := by
  by_cases hplus : ∃ ds, t = '+' :: ds
  · obtain ⟨ds, rfl⟩ := hplus
    rw [hexTextToNumber_plus] at h
    obtain ⟨hne, k, hds, hk⟩ := isHex_of_hexDigitsToNumber h
    exact absurd (.plus hmark hne hds hk) (hmisread _)
  · rw [hexTextToNumber_of_ne fun rest heq => hplus ⟨rest, heq⟩] at h
    obtain ⟨hne, k, hds, -⟩ := isHex_of_hexDigitsToNumber h
    exact ⟨_, .hex hmark hne hds⟩

/-- A text that is taken for a number and not misread is one of the grammar. -/
theorem isNumberText_of_textToNumber (hmisread : ∀ n, ¬ HexMisread (trimEnds s.toList) n)
    (h : textToNumber s ≠ .nan) : ∃ n, IsNumberText (trimEnds s.toList) n := by
  -- by the kind of the text: nothing, hexadecimal, infinity, or a decimal numeral
  by_cases hnil : trimEnds s.toList = []
  · rw [hnil]
    exact ⟨_, .blank⟩
  by_cases hhex : ∃ mark rest, trimEnds s.toList = '0' :: mark :: rest ∧ (mark = 'x' ∨ mark = 'X')
  · obtain ⟨mark, rest, ht, hmark⟩ := hhex
    rw [textToNumber_of_hexMark hmark ht] at h
    rw [ht] at hmisread ⊢
    exact isNumberText_of_hexMark hmark h hmisread
  by_cases hinfinity : ∃ sign negative, IsSign sign negative ∧
      trimEnds s.toList = sign ++ "Infinity".toList
  · obtain ⟨sign, negative, hsign, ht⟩ := hinfinity
    rw [ht]
    exact ⟨_, .infinity hsign⟩
  rw [textToNumber_of_plain hnil
    (fun mark rest ht => not_or.mp fun hmark => hhex ⟨mark, rest, ht, hmark⟩)
    (fun sign negative hsign ht => hinfinity ⟨sign, negative, hsign, ht⟩)] at h
  obtain ⟨sign, body, negative, v, ht, hsign, hbody⟩ :=
    exists_isDecimalText_of_decimalTextToNumber h
  rw [ht]
  exact ⟨_, .decimal hsign hbody⟩

/-- Only hexadecimal digits make a number with the mark before them. -/
theorem isHex_of_isNumberText (hmark : mark = 'x' ∨ mark = 'X')
    (h : IsNumberText ('0' :: mark :: t) n) : ∃ k, IsHex k t := by
  generalize ht : '0' :: mark :: t = text at h
  cases h with
  | blank => cases ht
  | infinity hsign => cases hsign <;> cases ht
  | hex hmark' hne hds =>
    obtain ⟨-, rfl⟩ := List.cons.inj (List.cons.inj ht).2
    exact ⟨_, hds⟩
  | @decimal sign body _ _ hsign hbody =>
    -- the mark is a letter that no numeral has
    have hmem : mark ∈ sign ++ body := by
      rw [← ht]
      simp
    rcases List.mem_append.mp hmem with hc | hc
    · rcases hmark with rfl | rfl <;> exact absurd (hsign.mem hc) (by decide)
    · rcases hmark with rfl | rfl <;> exact absurd (hbody.mem hc) (by decide)

/-- The texts that stand for a number are those of the grammar, and stand for the number that it
    gives, exactly if the text is no misread hexadecimal text; a misread one is taken as said
    there. -/
theorem textToNumber_grammar (s : String) :
    (∀ n, HexMisread (trimEnds s.toList) n → textToNumber s = n) ∧
    (((textToNumber s ≠ .nan ↔ ∃ n, IsNumberText (trimEnds s.toList) n) ∧
        ∀ n, IsNumberText (trimEnds s.toList) n → textToNumber s = n) ↔
      ∀ n, ¬ HexMisread (trimEnds s.toList) n) := by
  refine ⟨fun n => textToNumber_of_hexMisread, ?_, ?_⟩
  · rintro ⟨haccepts, hvalue⟩ n hmisread
    have hread := textToNumber_of_hexMisread hmisread
    generalize trimEnds s.toList = t at hmisread haccepts hvalue
    cases hmisread with
    | plus hmark hne hds hn =>
      -- it is taken for a number, but a plus sign is no hexadecimal digit
      obtain ⟨m, hm⟩ := haccepts.mp (hread ▸ Number.ofRatio_ne_nan _ _)
      obtain ⟨k, hk⟩ := isHex_of_isNumberText hmark hm
      exact ne_plus_of_isHex (List.cons_ne_nil _ _) hk _ rfl
    | large hmark hne hds hn =>
      -- it stands for a number, but is taken for none
      have hnumber := hvalue _ (.hex hmark hne hds)
      exact Number.ofRatio_ne_nan _ _ (hnumber.symm.trans hread)
  -- a text that is not misread is taken as the grammar says
  · intro hmisread
    refine ⟨⟨isNumberText_of_textToNumber hmisread, ?_⟩,
      fun n => textToNumber_of_isNumberText hmisread⟩
    rintro ⟨n, hn⟩
    rw [textToNumber_of_isNumberText hmisread hn]
    exact hn.ne_nan

/-- A numeral with a sign and an exponent, between blanks. -/
theorem textToNumber_grammar_signed :
    trimEnds " -1.5e3 ".toList = "-1.5e3".toList ∧
      (∀ n, ¬ HexMisread (trimEnds " -1.5e3 ".toList) n) ∧
      textToNumber " -1.5e3 " = .nearest true 1500 := by
  have htrim : trimEnds " -1.5e3 ".toList = "-1.5e3".toList := by decide
  have hplain (n : Number) : ¬ HexMisread (trimEnds " -1.5e3 ".toList) n := by
    rw [htrim]
    rintro (_ | _)
  have hmantissa : IsMantissa "1.5".toList (1 + 5 / 10) := by
    have hfraction : IsMantissa (['1'] ++ '.' :: ['5']) _ :=
      .fraction (.inl (List.cons_ne_nil '1' [])) (by simp) (by simp)
    simpa [Nat.ofDigitChars] using hfraction
  have hexponent : IsExponent ('e' :: ([] ++ ['3'])) 3 :=
    .marked (.inl rfl) .none (List.cons_ne_nil '3' []) (by simp)
  have hnumber : IsNumberText "-1.5e3".toList (.nearest true ((1 + 5 / 10) * 10 ^ (3 : Int))) :=
    .decimal .minus (.parts hmantissa hexponent)
  have hvalue : ((1 + 5 / 10) * 10 ^ (3 : Int) : ℚ) = 1500 := by norm_num
  rw [hvalue, ← htrim] at hnumber
  exact ⟨htrim, hplain, ((textToNumber_grammar " -1.5e3 ").2.mpr hplain).2 _ hnumber⟩

/-- A plus sign after the mark makes no difference, and `2 ^ 64` in hexadecimal is no number. -/
theorem textToNumber_hexadecimal :
    textToNumber "0x+5" = .ofNat 5 ∧ (∀ n, ¬ IsNumberText (trimEnds "0x+5".toList) n) ∧
      textToNumber "0x10000000000000000" = .nan ∧
      IsNumberText (trimEnds "0x10000000000000000".toList) (.nearest false (2 ^ 64)) := by
  have htrim : trimEnds "0x+5".toList = "0x+5".toList := by decide
  have htrim' : trimEnds "0x10000000000000000".toList = "0x10000000000000000".toList := by decide
  refine ⟨by decide +kernel, ?_, by decide +kernel, ?_⟩
  · intro n h
    rw [htrim] at h
    obtain ⟨k, hk⟩ := isHex_of_isNumberText (.inl rfl) h
    exact ne_plus_of_isHex (List.cons_ne_nil _ _) hk _ rfl
  · rw [htrim']
    have hhex : IsHex (2 ^ 64) "10000000000000000".toList := isHex_iff.mpr ⟨_, rfl, by decide⟩
    exact_mod_cast IsNumberText.hex (.inl rfl) (by decide) hhex

end Descramble
