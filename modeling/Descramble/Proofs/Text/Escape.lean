import Descramble.Proofs.Text.Quoted

/-!
# Escapes by code

A string may be written with the code of each of its characters in place of the character: the
UTF-16 code units, four hexadecimal digits each, or the scalar value in braces, with as many digits
as one likes. Such a literal is read as the string, between quotes of either kind.

A high surrogate alone stands for the replacement character, so the reader has to look past it for
the low one before it can tell what the escape is. A pair is therefore read in one step, and both
kinds of escape are texts that spell one character.

Main statement: `string_literals`.
-/

namespace Descramble.Reader

variable {code unit high low : Nat} {digits highs lows tail text : List Char} {quote c : Char}

/-- The UTF-16 code units of a character: itself, or beyond `0xFFFF` a pair of surrogates. -/
def codeUnits (c : Char) : List Nat :=
  if c.toNat < 0x10000 then [c.toNat]
  else [0xD800 + (c.toNat - 0x10000) / 0x400, 0xDC00 + (c.toNat - 0x10000) % 0x400]

/-- The escape of a code unit by its four hexadecimal digits. -/
def IsUnitEscape (unit : Nat) (text : List Char) : Prop :=
  ∃ digits, text = '\\' :: 'u' :: digits ∧ digits.length = 4 ∧ IsHex unit digits

/-- The escapes of the code units of a character, one after the other. -/
def IsUnitEscapes (c : Char) (text : List Char) : Prop :=
  SpelledBy IsUnitEscape (codeUnits c) text

/-- The escape of a character by the hexadecimal digits of its scalar value in braces. -/
def IsBraceEscape (c : Char) (text : List Char) : Prop :=
  ∃ digits, text = '\\' :: 'u' :: '\x7b' :: (digits ++ ['\x7d']) ∧ digits ≠ [] ∧
    IsHex c.toNat digits

/-! ## Reading what follows the mark -/

/-- Hexadecimal digits do not start with a brace. -/
theorem ne_brace_of_isHex {body : List Char} (hne : digits ≠ []) (hhex : IsHex unit digits) :
    digits ++ tail ≠ '\x7b' :: body := by
  intro heq
  obtain ⟨d, digits, rfl⟩ := List.exists_cons_of_ne_nil hne
  obtain ⟨ds, hds, -⟩ := isHex_iff.mp hhex
  obtain ⟨d', -, hd, -⟩ := mapM_digitIn?_cons_eq_some_iff.mp hds
  obtain rfl : d = '\x7b' := (List.cons.inj heq).1
  cases hd

/-- Four digits of a code unit that is no high surrogate are taken for themselves. -/
theorem unicodeEscape?_unit (hlength : digits.length = 4) (hhex : IsHex unit digits)
    (hunit : unit < 0xD800 ∨ 0xDC00 ≤ unit) :
    unicodeEscape? (digits ++ tail) = some (scalarOf unit, tail) := by
  have hne : digits ≠ [] := List.ne_nil_of_length_pos (by omega)
  unfold unicodeEscape?
  split
  · rename_i heq
    exact absurd heq (ne_brace_of_isHex hne hhex)
  · -- no high surrogate, so what comes after the digits is not looked at
    rw [hexDigits?_append hlength hhex, Option.bind_eq_bind, Option.bind_some]
    exact if_neg (by omega)

/-- A high surrogate and a low one are taken together. -/
theorem unicodeEscape?_pair (hlength : highs.length = 4) (hhex : IsHex high highs)
    (hlength' : lows.length = 4) (hhex' : IsHex low lows)
    (hhigh : 0xD800 ≤ high ∧ high < 0xDC00) (hlow : 0xDC00 ≤ low ∧ low < 0xE000) :
    unicodeEscape? (highs ++ '\\' :: 'u' :: (lows ++ tail)) =
      some (scalarOf (0x10000 + (high - 0xD800) * 0x400 + (low - 0xDC00)), tail) := by
  have hne : highs ≠ [] := List.ne_nil_of_length_pos (by omega)
  unfold unicodeEscape?
  split
  · rename_i heq
    exact absurd heq (ne_brace_of_isHex hne hhex)
  · rw [hexDigits?_append hlength hhex, Option.bind_eq_bind, Option.bind_some]
    -- the low surrogate is seen because an escape of four digits comes next
    simp only [hexDigits?_append hlength' hhex', if_pos hhigh, if_pos hlow]

/-- Digits in braces are taken for the scalar value that they write. -/
theorem unicodeEscape?_brace (hne : digits ≠ []) (hhex : IsHex code digits)
    (hcode : code ≤ 0x10FFFF) :
    unicodeEscape? ('\x7b' :: (digits ++ '\x7d' :: tail)) = some (scalarOf code, tail) := by
  obtain ⟨ds, hds, hvalue⟩ := isHex_iff.mp hhex
  have hlength := length_of_mapM_digitIn? hds
  -- the digits end at the brace, which is none
  have hbrace : ∀ c ∈ ('\x7d' :: tail).head?, digitIn? 16 c = none := by
    intro c hc
    obtain rfl := Option.some.inj hc
    decide
  cases ds with
  | nil => exact absurd (List.length_eq_zero_iff.mp hlength.symm) hne
  | cons d ds => simp only [unicodeEscape?, digitRun_append hds hbrace, hvalue, if_pos hcode]

/-! ## Escapes that stand for a character -/

/-- No character lies beyond the last code point. -/
theorem toNat_le (c : Char) : c.toNat ≤ 0x10FFFF := by
  have hvalid : c.toNat.isValidChar := c.valid
  unfold Nat.isValidChar at hvalid
  omega

/-- No character is a surrogate. -/
theorem toNat_not_surrogate (c : Char) : c.toNat < 0xD800 ∨ 0xDC00 ≤ c.toNat := by
  have hvalid : c.toNat.isValidChar := c.valid
  unfold Nat.isValidChar at hvalid
  omega

/-- What the escape reader takes for a character spells it after the mark. -/
theorem Spells.of_unicodeEscape? (hquote : quote ≠ '\\')
    (h : ∀ tail, unicodeEscape? (text ++ tail) = some (c, tail)) :
    Spells quote c ('\\' :: 'u' :: text) :=
  .of_escape? hquote fun tail => by
    show (unicodeEscape? (text ++ tail)).bind (fun p => some (some p.1, p.2)) = _
    rw [h, Option.bind_some]

/-- The escapes of its code units spell a character. -/
theorem IsUnitEscapes.spells (hquote : quote ≠ '\\') (h : IsUnitEscapes c text) :
    Spells quote c text := by
  unfold IsUnitEscapes codeUnits at h
  -- one unit in the first plane, and a pair of surrogates beyond it
  by_cases hplane : c.toNat < 0x10000
  · rw [if_pos hplane] at h
    obtain ⟨digits, rfl, hlength, hhex⟩ := h.of_singleton
    refine .of_unicodeEscape? hquote fun tail => ?_
    rw [unicodeEscape?_unit hlength hhex (toNat_not_surrogate c), scalarOf_toNat]
  · rw [if_neg hplane] at h
    obtain ⟨_, _, rfl, ⟨highs, rfl, hlength, hhex⟩, hlow⟩ := h.of_cons
    obtain ⟨lows, rfl, hlength', hhex'⟩ := hlow.of_singleton
    have hle := toNat_le c
    -- the pair gives back the number that it was cut from
    have hjoin : 0x10000 + (0xD800 + (c.toNat - 0x10000) / 0x400 - 0xD800) * 0x400 +
        (0xDC00 + (c.toNat - 0x10000) % 0x400 - 0xDC00) = c.toNat := by
      rw [Nat.add_sub_cancel_left, Nat.add_sub_cancel_left]
      omega
    rw [List.cons_append, List.cons_append]
    refine .of_unicodeEscape? hquote fun tail => ?_
    rw [List.append_assoc, List.cons_append, List.cons_append,
      unicodeEscape?_pair hlength hhex hlength' hhex' (by omega) (by omega), hjoin, scalarOf_toNat]

/-- An escape in braces spells the character with that scalar value. -/
theorem IsBraceEscape.spells (hquote : quote ≠ '\\') (h : IsBraceEscape c text) :
    Spells quote c text := by
  obtain ⟨digits, rfl, hne, hhex⟩ := h
  refine .of_unicodeEscape? hquote fun tail => ?_
  rw [List.cons_append, List.append_assoc, List.singleton_append,
    unicodeEscape?_brace hne hhex (toNat_le c), scalarOf_toNat]

/-! ## Every character has such escapes -/

/-- A code unit has sixteen bits. -/
theorem lt_of_mem_codeUnits (h : unit ∈ codeUnits c) : unit < 0x10000 := by
  have hle := toNat_le c
  unfold codeUnits at h
  split at h
  · obtain rfl := List.mem_singleton.mp h
    assumption
  · simp only [List.mem_cons, List.not_mem_nil, or_false] at h
    omega

/-- Every character has escapes of its code units, padded to four digits. -/
theorem exists_isUnitEscapes (c : Char) : ∃ text, IsUnitEscapes c text := by
  refine ⟨_, spelledBy_flatMap fun unit hunit =>
    ⟨hexPadded 4 unit, rfl, ?_, isHex_hexPadded 4 unit⟩⟩
  exact length_hexPadded (by decide) (lt_of_mem_codeUnits hunit)

/-- Every character has an escape in braces; six digits are enough. -/
theorem exists_isBraceEscape (c : Char) : ∃ text, IsBraceEscape c text := by
  have hne : hexPadded 6 c.toNat ≠ [] := by
    have hlt : c.toNat < 16 ^ 6 := by
      have hle := toNat_le c
      omega
    have hlength : (hexPadded 6 c.toNat).length = 6 := length_hexPadded (by decide) hlt
    exact List.ne_nil_of_length_pos (by omega)
  exact ⟨_, hexPadded 6 c.toNat, rfl, hne, isHex_hexPadded 6 _⟩

/-! ## Literals -/

/-- A string literal is read back as it was written: as a script prints it, with every character as
    the escapes of its code units, or with every character as an escape in braces. What comes after
    it is left without the gap at its front, and nothing but that gap can fail. -/
theorem string_literals (value : String) (r : List Char) :
    string ((Quoted.encode value).toList ++ r) = (skipGap r).map (fun rest => (value, rest)) ∧
    (∃ body, SpelledBy IsUnitEscapes value.toList body) ∧
    (∃ body, SpelledBy IsBraceEscape value.toList body) ∧
    ∀ quote body, quote = '"' ∨ quote = '\'' →
      SpelledBy IsUnitEscapes value.toList body ∨ SpelledBy IsBraceEscape value.toList body →
      string (quote :: (body ++ quote :: r)) = (skipGap r).map fun rest => (value, rest) := by
  refine ⟨string_encode value r, exists_spelledBy exists_isUnitEscapes _,
    exists_spelledBy exists_isBraceEscape _, fun quote body hquote hbody => ?_⟩
  -- either quote is no backslash, so that an escape does not begin with the end of the literal
  have hslash : quote ≠ '\\' := by
    rcases hquote with rfl | rfl
    · decide
    · decide
  have hspelled : SpelledBy (Spells quote) value.toList body := by
    rcases hbody with hunits | hbraces
    · exact hunits.imp fun _ _ h => h.spells hslash
    · exact hbraces.imp fun _ _ h => h.spells hslash
  exact hspelled.string hquote r

/-- A letter and a pair of surrogates between single quotes. -/
theorem string_literals_pair :
    string ("'\\u0061\\uD83D\\uDe00' ;".toList) = .ok ("a😀", [';']) := by
  have hletter : IsUnitEscapes 'a' ("\\u0061".toList ++ []) :=
    show SpelledBy IsUnitEscape [0x61] _ from .cons ⟨"0061".toList, rfl, rfl, rfl⟩ .nil
  have hface : IsUnitEscapes '😀' ("\\uD83D".toList ++ ("\\uDe00".toList ++ [])) :=
    show SpelledBy IsUnitEscape [0xD83D, 0xDE00] _ from
      .cons ⟨"D83D".toList, rfl, rfl, rfl⟩ (.cons ⟨"De00".toList, rfl, rfl, rfl⟩ .nil)
  have hgap : skipGap [' ', ';'] = .ok [';'] :=
    (skipGap_blank (by decide) _).trans (skipGap_solid (by decide) (by decide) _)
  have hread := (string_literals "a😀" [' ', ';']).2.2.2 '\'' _ (.inr rfl)
    (.inl (.cons hletter (.cons hface .nil)))
  rw [hgap] at hread
  exact hread

end Descramble.Reader
