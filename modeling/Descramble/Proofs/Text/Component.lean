import Descramble.Text.Component
import Descramble.Proofs.Text.Digits

/-!
# URI components are read back

A component is read byte by byte, but its escapes are made of characters: since every byte of a
character beyond ASCII has its highest bit set, a byte that looks like a percent sign or a digit is
one. So reading succeeds exactly where each percent sign has two digits behind it and the bytes that
come out are those of a text.

Main statements: `decode?_encode`, a text is read back from its component; `decode?_eq_some_iff`,
what has a text and which; `decodeFrom?_eq`, reading looks at no place outside; `component_laws`,
all of it.
-/

namespace Descramble.Component

/-! ## Characters and their bytes -/

/-- The bytes of a text are those of its characters. -/
theorem toList_toUTF8 (s : String) :
    s.toUTF8.data.toList = s.toList.flatMap String.utf8EncodeChar := by
  conv => lhs; rw [← String.ofList_toList (s := s)]
  rw [String.toUTF8_eq_toByteArray, String.toByteArray_ofList, List.utf8Encode,
    List.toList_data_toByteArray]

/-- A character of ASCII is one byte. -/
theorem utf8EncodeChar_of_lt {c : Char} (h : c.toNat < 128) :
    String.utf8EncodeChar c = [UInt8.ofNat c.toNat] := by
  have hle : c.val.toNat ≤ 0x7F := Nat.le_of_lt_succ h
  unfold String.utf8EncodeChar
  simp only [hle, if_true]
  rfl

/-- No byte of any other character is one of ASCII. -/
theorem le_of_mem_utf8EncodeChar {c : Char} (h : 128 ≤ c.toNat) {b : UInt8}
    (hb : b ∈ String.utf8EncodeChar c) : 128 ≤ b.toNat := by
  have hnot : ¬ c.val.toNat ≤ 0x7F := Nat.not_le.mpr h
  unfold String.utf8EncodeChar at hb
  simp only [hnot, if_false] at hb
  -- each byte is the mark of its place plus some bits of the character, fewer than overflow
  split at hb
  · simp only [List.mem_cons, List.not_mem_nil, or_false] at hb
    rcases hb with rfl | rfl <;> rw [UInt8.toNat_ofNat'] <;> omega
  · split at hb
    · simp only [List.mem_cons, List.not_mem_nil, or_false] at hb
      rcases hb with rfl | rfl | rfl <;> rw [UInt8.toNat_ofNat'] <;> omega
    · simp only [List.mem_cons, List.not_mem_nil, or_false] at hb
      rcases hb with rfl | rfl | rfl | rfl <;> rw [UInt8.toNat_ofNat'] <;> omega

/-- A digit is a character of ASCII. -/
theorem lt_of_digitIn? {base d : Nat} {c : Char} (h : digitIn? base c = some d) :
    c.toNat < 128 := by
  have hrange := toNat_of_digitIn? h
  omega

/-- The byte of a character of ASCII is its code. -/
theorem toNat_ofNat_of_lt {c : Char} (h : c.toNat < 128) :
    (UInt8.ofNat c.toNat).toNat = c.toNat := by
  rw [UInt8.toNat_ofNat']
  omega

/-- The byte of a character of ASCII is a digit if the character is, and the same. -/
theorem hexByte?_of_lt {c : Char} (h : c.toNat < 128) :
    hexByte? (UInt8.ofNat c.toNat) = digitIn? 16 c := by
  rw [hexByte?, toNat_ofNat_of_lt h, Char.ofNat_toNat]

/-- A byte as a character has the byte as its code. -/
theorem toNat_ofNat_toNat (b : UInt8) : (Char.ofNat b.toNat).toNat = b.toNat := by
  have hvalid : b.toNat.isValidChar := .inl (Nat.lt_trans b.toNat_lt_size (by decide))
  rw [Char.ofNat, dif_pos hvalid]
  rfl

/-- No byte beyond ASCII is a digit. -/
theorem hexByte?_of_le {b : UInt8} (h : 128 ≤ b.toNat) : hexByte? b = none := by
  cases hb : hexByte? b with
  | none => rfl
  | some d =>
    have hlt := lt_of_digitIn? hb
    rw [toNat_ofNat_toNat] at hlt
    omega

/-- Where the first byte of a text is a digit, so is its first character, and no other byte is of
    that character. -/
theorem exists_digit_of_hexByte? {cs : List Char} {b : UInt8} {rest : List UInt8} {d : Nat}
    (hcs : cs.flatMap String.utf8EncodeChar = b :: rest) (hb : hexByte? b = some d) :
    ∃ c tail, cs = c :: tail ∧ digitIn? 16 c = some d ∧
      rest = tail.flatMap String.utf8EncodeChar := by
  -- the first character is of ASCII, since its first byte would be no digit otherwise
  cases cs with
  | nil => cases hcs
  | cons c tail =>
    rw [List.flatMap_cons] at hcs
    by_cases hc : c.toNat < 128
    · rw [utf8EncodeChar_of_lt hc, List.singleton_append] at hcs
      obtain ⟨rfl, rfl⟩ := List.cons.inj hcs
      exact ⟨c, tail, rfl, (hexByte?_of_lt hc).symm.trans hb, rfl⟩
    · exfalso
      have hmem : b ∈ String.utf8EncodeChar c := by
        cases hbytes : String.utf8EncodeChar c with
        | nil => exact absurd hbytes String.utf8EncodeChar_ne_nil
        | cons first more =>
          rw [hbytes] at hcs
          exact (List.cons.inj hcs).1 ▸ List.mem_cons_self
      rw [hexByte?_of_le (le_of_mem_utf8EncodeChar (Nat.not_lt.mp hc) hmem)] at hb
      cases hb

/-- The bytes of a digit are one, which is the digit. -/
theorem utf8EncodeChar_of_digitIn? {c : Char} {d : Nat} (h : digitIn? 16 c = some d) :
    ∃ b, String.utf8EncodeChar c = [b] ∧ hexByte? b = some d :=
  have hlt := lt_of_digitIn? h
  ⟨_, utf8EncodeChar_of_lt hlt, (hexByte?_of_lt hlt).trans h⟩

/-! ## Reading bytes -/

variable {cs : List Char} {bs : List UInt8}

/-- A byte that is no percent sign is read as it is. -/
theorem decodeBytes?_cons {b : UInt8} (hb : b ≠ '%'.toUInt8) (rest : List UInt8) :
    decodeBytes? (b :: rest) = (decodeBytes? rest).map (b :: ·) := by
  rw [decodeBytes?.eq_def]
  simp only [if_neg hb]
  cases decodeBytes? rest <;> rfl

/-- Bytes without a percent sign are read as they are. -/
theorem decodeBytes?_append {front : List UInt8} (h : '%'.toUInt8 ∉ front) (rest : List UInt8) :
    decodeBytes? (front ++ rest) = (decodeBytes? rest).map (front ++ ·) := by
  -- byte by byte, none of them a percent sign
  induction front with
  | nil => exact Option.map_id'.symm
  | cons b front ih =>
    rw [List.mem_cons, not_or] at h
    rw [List.cons_append, decodeBytes?_cons (Ne.symm h.1), ih h.2, Option.map_map]
    rfl

/-- A percent sign is read with the two bytes behind it, which are digits. -/
theorem decodeBytes?_percent_eq_some_iff {rest : List UInt8} :
    decodeBytes? ('%'.toUInt8 :: rest) = some bs ↔
      ∃ high low more h l out, rest = high :: low :: more ∧ hexByte? high = some h ∧
        hexByte? low = some l ∧ decodeBytes? more = some out ∧
        bs = UInt8.ofNat (16 * h + l) :: out := by
  rw [decodeBytes?.eq_def]
  simp only [if_true]
  constructor
  · intro hread
    split at hread
    · rename_i high low more
      simp only [Option.bind_eq_bind, Option.bind_eq_some_iff] at hread
      obtain ⟨h, hhigh, l, hlow, out, hmore, hbs⟩ := hread
      cases hbs
      exact ⟨high, low, more, h, l, out, rfl, hhigh, hlow, hmore, rfl⟩
    · cases hread
  · rintro ⟨high, low, more, h, l, out, rfl, hhigh, hlow, hmore, rfl⟩
    simp only [hhigh, hlow, hmore]
    rfl

/-- So behind a percent sign two characters have to stand that are digits. -/
theorem decodeBytes?_percent_chars_eq_some_iff :
    decodeBytes? ('%'.toUInt8 :: cs.flatMap String.utf8EncodeChar) = some bs ↔
      ∃ high low tail h l out, cs = high :: low :: tail ∧ digitIn? 16 high = some h ∧
        digitIn? 16 low = some l ∧ decodeBytes? (tail.flatMap String.utf8EncodeChar) = some out ∧
        bs = UInt8.ofNat (16 * h + l) :: out := by
  rw [decodeBytes?_percent_eq_some_iff]
  constructor
  · rintro ⟨b, b', more, h, l, out, hbytes, hhigh, hlow, hmore, hbs⟩
    -- a digit is a byte of its own, so the two bytes are two characters
    obtain ⟨high, rest, rfl, hhigh', hrest⟩ := exists_digit_of_hexByte? hbytes hhigh
    obtain ⟨low, tail, rfl, hlow', rfl⟩ := exists_digit_of_hexByte? hrest.symm hlow
    exact ⟨high, low, tail, h, l, out, rfl, hhigh', hlow', hmore, hbs⟩
  · rintro ⟨high, low, tail, h, l, out, rfl, hhigh, hlow, hmore, hbs⟩
    obtain ⟨b, hb, hhigh'⟩ := utf8EncodeChar_of_digitIn? hhigh
    obtain ⟨b', hb', hlow'⟩ := utf8EncodeChar_of_digitIn? hlow
    refine ⟨b, b', _, h, l, out, ?_, hhigh', hlow', hmore, hbs⟩
    rw [List.flatMap_cons, List.flatMap_cons, hb, hb']
    rfl

/-! ## Which texts are components -/

/-- Whether every percent sign of a text has two hexadecimal digits behind it. -/
def WellEscaped (cs : List Char) : Prop :=
  ∀ rest, '%' :: rest <:+ cs → ∃ high low tail, rest = high :: low :: tail ∧
    (digitIn? 16 high).isSome ∧ (digitIn? 16 low).isSome

/-- The bytes that a text stands for: one for each escape, and those of every other character. -/
def spelledBytes : List Char → List UInt8
  | [] => []
  | '%' :: high :: low :: rest =>
    UInt8.ofNat (16 * (digitIn? 16 high).getD 0 + (digitIn? 16 low).getD 0) :: spelledBytes rest
  | c :: rest => String.utf8EncodeChar c ++ spelledBytes rest

/-- In an empty text there is no percent sign. -/
theorem wellEscaped_nil : WellEscaped [] :=
  fun _ hsuffix => nomatch List.suffix_nil.mp hsuffix

/-- The ends of a well-escaped text are well escaped. -/
theorem WellEscaped.of_suffix {tail : List Char} (h : WellEscaped cs) (hsuffix : tail <:+ cs) :
    WellEscaped tail :=
  fun rest hrest => h rest (hrest.trans hsuffix)

/-- Any character but a percent sign may stand in front. -/
theorem wellEscaped_cons_iff {c : Char} (hc : c ≠ '%') : WellEscaped (c :: cs) ↔ WellEscaped cs := by
  constructor
  · exact fun h => h.of_suffix (List.suffix_cons c cs)
  · intro h rest hsuffix
    rcases List.suffix_cons_iff.mp hsuffix with heq | hsuffix
    · exact absurd (List.cons.inj heq).1.symm hc
    · exact h rest hsuffix

/-- A percent sign has its two digits behind it, and what follows them is well escaped. -/
theorem wellEscaped_percent_iff :
    WellEscaped ('%' :: cs) ↔ ∃ high low tail, cs = high :: low :: tail ∧
      (digitIn? 16 high).isSome ∧ (digitIn? 16 low).isSome ∧ WellEscaped tail := by
  have hpercent : digitIn? 16 '%' = none := by decide
  have hne {c : Char} (hc : (digitIn? 16 c).isSome) : c ≠ '%' := by
    rintro rfl
    rw [hpercent] at hc
    cases hc
  constructor
  · intro h
    obtain ⟨high, low, tail, rfl, hhigh, hlow⟩ := h cs (List.suffix_refl _)
    refine ⟨high, low, tail, rfl, hhigh, hlow, h.of_suffix ?_⟩
    exact (List.suffix_cons _ _).trans ((List.suffix_cons _ _).trans (List.suffix_cons _ _))
  · rintro ⟨high, low, tail, rfl, hhigh, hlow, h⟩ rest hsuffix
    rcases List.suffix_cons_iff.mp hsuffix with heq | hsuffix
    · obtain ⟨-, rfl⟩ := List.cons.inj heq
      exact ⟨high, low, tail, rfl, hhigh, hlow⟩
    · -- the digits are no percent signs, so any other stands behind them
      have htail := (wellEscaped_cons_iff (hne hhigh)).mpr ((wellEscaped_cons_iff (hne hlow)).mpr h)
      exact htail rest hsuffix

/-- No other character has a byte that is a percent sign. -/
theorem percent_not_mem_utf8EncodeChar {c : Char} (hc : c ≠ '%') :
    '%'.toUInt8 ∉ String.utf8EncodeChar c := by
  intro hmem
  by_cases hlt : c.toNat < 128
  · rw [utf8EncodeChar_of_lt hlt, List.mem_singleton] at hmem
    have hcode : ('%'.toUInt8).toNat = c.toNat := by rw [hmem, toNat_ofNat_of_lt hlt]
    exact hc (Char.toNat_inj.mp hcode.symm)
  · exact absurd (le_of_mem_utf8EncodeChar (Nat.not_lt.mp hlt) hmem) (by decide)

/-- The bytes of a text are read where the text is well escaped, and as what it spells. -/
theorem decodeBytes?_chars_eq_some_iff :
    decodeBytes? (cs.flatMap String.utf8EncodeChar) = some bs ↔
      WellEscaped cs ∧ bs = spelledBytes cs := by
  -- by what comes first: nothing, an escape, or another character
  induction cs using spelledBytes.induct generalizing bs with
  | case1 =>
    constructor
    · intro hread
      cases hread
      exact ⟨wellEscaped_nil, rfl⟩
    · rintro ⟨-, rfl⟩
      rfl
  | case2 high low rest ih =>
    have hbytes : ('%' :: high :: low :: rest).flatMap String.utf8EncodeChar =
        '%'.toUInt8 :: (high :: low :: rest).flatMap String.utf8EncodeChar := rfl
    rw [hbytes, decodeBytes?_percent_chars_eq_some_iff, wellEscaped_percent_iff, spelledBytes]
    constructor
    · rintro ⟨_, _, _, h, l, out, heq, hhigh, hlow, hmore, rfl⟩
      cases heq
      obtain ⟨hwell, rfl⟩ := ih.mp hmore
      rw [hhigh, hlow]
      exact ⟨⟨high, low, rest, rfl, by rw [hhigh]; rfl, by rw [hlow]; rfl, hwell⟩, rfl⟩
    · rintro ⟨⟨_, _, _, heq, hhigh, hlow, hwell⟩, rfl⟩
      cases heq
      obtain ⟨h, hh⟩ := Option.isSome_iff_exists.mp hhigh
      obtain ⟨l, hl⟩ := Option.isSome_iff_exists.mp hlow
      refine ⟨high, low, rest, h, l, spelledBytes rest, rfl, hh, hl, ih.mpr ⟨hwell, rfl⟩, ?_⟩
      rw [hh, hl]
      rfl
  | case3 c rest hshort ih =>
    -- a percent sign without two characters behind it is neither read nor well escaped
    by_cases hc : c = '%'
    · subst hc
      have hbytes : ('%' :: rest).flatMap String.utf8EncodeChar =
          '%'.toUInt8 :: rest.flatMap String.utf8EncodeChar := rfl
      rw [hbytes, decodeBytes?_percent_chars_eq_some_iff, wellEscaped_percent_iff]
      constructor
      · rintro ⟨high, low, tail, _, _, _, heq, _⟩
        exact absurd heq (hshort high low tail rfl)
      · rintro ⟨⟨high, low, tail, heq, _⟩, _⟩
        exact absurd heq (hshort high low tail rfl)
    · rw [List.flatMap_cons, decodeBytes?_append (percent_not_mem_utf8EncodeChar hc),
        wellEscaped_cons_iff hc, spelledBytes.eq_3 c rest hshort, Option.map_eq_some_iff]
      constructor
      · rintro ⟨out, hmore, rfl⟩
        obtain ⟨hwell, rfl⟩ := ih.mp hmore
        exact ⟨hwell, rfl⟩
      · rintro ⟨hwell, rfl⟩
        exact ⟨_, ih.mpr ⟨hwell, rfl⟩, rfl⟩

/-- The text of some bytes, if they are those of a text. -/
theorem fromUTF8?_eq_some_iff {b : ByteArray} {t : String} :
    String.fromUTF8? b = some t ↔ ∃ h : b.IsValidUTF8, String.fromUTF8 b h = t := by
  unfold String.fromUTF8?
  split
  · rename_i hvalid
    rw [Option.some_inj]
    exact ⟨fun ht => ⟨hvalid, ht⟩, fun ⟨_, ht⟩ => ht⟩
  · rename_i hvalid
    exact ⟨nofun, fun ⟨h, _⟩ => absurd h hvalid⟩

/-- A component stands for a text exactly where every percent sign has two digits behind it and what
    the component spells is valid UTF-8, of that text. -/
theorem decode?_eq_some_iff (s t : String) :
    decode? s = some t ↔ WellEscaped s.toList ∧
      ∃ h : ByteArray.IsValidUTF8 ⟨(spelledBytes s.toList).toArray⟩, String.fromUTF8 _ h = t := by
  have hread : decode? s = (decodeBytes? s.toUTF8.data.toList).bind fun bs =>
      String.fromUTF8? ⟨bs.toArray⟩ := rfl
  rw [hread, toList_toUTF8, Option.bind_eq_some_iff]
  simp only [decodeBytes?_chars_eq_some_iff, fromUTF8?_eq_some_iff]
  constructor
  · rintro ⟨_, ⟨hwell, rfl⟩, hvalid⟩
    exact ⟨hwell, hvalid⟩
  · rintro ⟨hwell, hvalid⟩
    exact ⟨_, ⟨hwell, rfl⟩, hvalid⟩

/-! ## Writing components -/

/-- What a component consists of: characters that stand for themselves, and percent signs with two
    upper-case digits. -/
inductive IsEncoded : List Char → Prop
  | nil : IsEncoded []
  | unreserved {c : Char} {rest : List Char}
      (hc : c.isAlphanum = true ∨ c ∈ "-_.!~*'()".toList) (hrest : IsEncoded rest) :
      IsEncoded (c :: rest)
  | escape {high low : Char} {rest : List Char} (hhigh : high ∈ "0123456789ABCDEF".toList)
      (hlow : low ∈ "0123456789ABCDEF".toList) (hrest : IsEncoded rest) :
      IsEncoded ('%' :: high :: low :: rest)

/-- The bytes that stand for themselves are characters of ASCII, and a percent sign does not. -/
theorem of_isUnreserved {b : UInt8} (h : isUnreserved b = true) :
    b.toNat < 128 ∧ b ≠ '%'.toUInt8 := by
  -- there are 256 bytes to look at
  have hall : ∀ n : Fin 256, isUnreserved (UInt8.ofNat n) = true →
      n.val < 128 ∧ UInt8.ofNat n ≠ '%'.toUInt8 := by decide +kernel
  have hb := hall ⟨b.toNat, b.toNat_lt_size⟩
  rw [UInt8.ofNat_toNat] at hb
  exact hb h

/-- A digit below 16 is written in upper case, and is read as it was. -/
theorem upperDigitOf_spells {d : Nat} (h : d < 16) :
    upperDigitOf d ∈ "0123456789ABCDEF".toList ∧ digitIn? 16 (upperDigitOf d) = some d := by
  -- there are 16 digits to look at
  have hall : ∀ d : Fin 16, upperDigitOf d ∈ "0123456789ABCDEF".toList ∧
      digitIn? 16 (upperDigitOf d) = some d.val := by decide
  exact hall ⟨d, h⟩

/-- What bytes are written as is made of the characters of a component only. -/
theorem isEncoded_flatMap (bs : List UInt8) : IsEncoded (bs.flatMap encodeByte) := by
  induction bs with
  | nil => exact .nil
  | cons b bs ih =>
    rw [List.flatMap_cons]
    unfold encodeByte
    -- a byte stands for itself or is written as an escape
    by_cases hb : isUnreserved b = true
    · rw [if_pos hb]
      simp only [isUnreserved, Bool.or_eq_true, List.contains_eq_mem, decide_eq_true_eq] at hb
      exact .unreserved hb ih
    · rw [if_neg hb]
      have hlt : b.toNat < 256 := b.toNat_lt_size
      exact .escape (upperDigitOf_spells (by omega)).1 (upperDigitOf_spells (by omega)).1 ih

/-- What bytes are written as is read as the bytes. -/
theorem decodeBytes?_flatMap (bs : List UInt8) :
    decodeBytes? ((bs.flatMap encodeByte).flatMap String.utf8EncodeChar) = some bs := by
  induction bs with
  | nil => rfl
  | cons b bs ih =>
    by_cases hb : isUnreserved b = true
    · obtain ⟨hlt, hne⟩ := of_isUnreserved hb
      have hencode : encodeByte b = [Char.ofNat b.toNat] := if_pos hb
      have hbyte : String.utf8EncodeChar (Char.ofNat b.toNat) = [b] := by
        rw [utf8EncodeChar_of_lt (by rwa [toNat_ofNat_toNat]), toNat_ofNat_toNat,
          UInt8.ofNat_toNat]
      rw [List.flatMap_cons, hencode, List.singleton_append, List.flatMap_cons, hbyte,
        List.singleton_append, decodeBytes?_cons hne, ih]
      rfl
    · have hlt : b.toNat < 256 := b.toNat_lt_size
      have hhigh := (upperDigitOf_spells (show b.toNat / 16 < 16 by omega)).2
      have hlow := (upperDigitOf_spells (show b.toNat % 16 < 16 by omega)).2
      have hencode : encodeByte b =
          ['%', upperDigitOf (b.toNat / 16), upperDigitOf (b.toNat % 16)] := if_neg hb
      rw [List.flatMap_cons, hencode]
      -- both digits of the byte are read back, and they make up the byte
      apply decodeBytes?_percent_chars_eq_some_iff.mpr
      refine ⟨_, _, _, _, _, bs, rfl, hhigh, hlow, ih, ?_⟩
      rw [Nat.div_add_mod, UInt8.ofNat_toNat]

/-- A component is what the bytes of its text are written as. -/
theorem toList_encode (s : String) :
    (encode s).toList = s.toUTF8.data.toList.flatMap encodeByte :=
  String.toList_ofList

/-- A text is read back from its component. -/
theorem decode?_encode (s : String) : decode? (encode s) = some s := by
  have hread : decode? (encode s) = (decodeBytes? (encode s).toUTF8.data.toList).bind fun bs =>
      String.fromUTF8? ⟨bs.toArray⟩ := rfl
  rw [hread, toList_toUTF8, toList_encode, decodeBytes?_flatMap, Option.bind_some,
    Array.toArray_toList]
  exact fromUTF8?_eq_some_iff.mpr ⟨s.isValidUTF8, rfl⟩

/-! ## Reading by places -/

/-- Undoes percent signs from a place of some bytes on. Each byte is taken at a place that is shown
    to be one of them. -/
def decodeFrom? (bytes : Array UInt8) (i : Nat) : Option (List UInt8) :=
  if hi : i < bytes.size then
    if bytes[i] = '%'.toUInt8 then
      if hlow : i + 2 < bytes.size then do
        let h ← hexByte? bytes[i + 1]
        let l ← hexByte? bytes[i + 2]
        return UInt8.ofNat (16 * h + l) :: (← decodeFrom? bytes (i + 3))
      else none
    else do
      return bytes[i] :: (← decodeFrom? bytes (i + 1))
  else some []
termination_by bytes.size - i

/-- From a place of an array on: the item there, and those from the next place on. -/
theorem drop_toList {bytes : Array UInt8} {i : Nat} (h : i < bytes.size) :
    bytes.toList.drop i = bytes[i] :: bytes.toList.drop (i + 1) := by
  rw [List.drop_eq_getElem_cons (by rwa [Array.length_toList]), Array.getElem_toList]

/-- From the end of an array on there is nothing. -/
theorem drop_toList_of_le {bytes : Array UInt8} {i : Nat} (h : bytes.size ≤ i) :
    bytes.toList.drop i = [] :=
  List.drop_of_length_le (by rwa [Array.length_toList])

/-- Reading by places that are all inside comes to the same: an escape that the end of the text cuts
    off is never looked for behind it. -/
theorem decodeFrom?_eq (bytes : Array UInt8) (i : Nat) :
    decodeFrom? bytes i = decodeBytes? (bytes.toList.drop i) := by
  -- along the reading: an escape, one that is cut off, another byte, and the end
  fun_induction decodeFrom? bytes i with
  | case1 i hi hpercent hlow ih =>
    rw [drop_toList hi, drop_toList (show i + 1 < bytes.size by omega), drop_toList hlow,
      decodeBytes?.eq_def]
    simp only [hpercent, if_true, ih]
  | case2 i hi hpercent hlow =>
    rw [drop_toList hi, hpercent]
    by_cases hhigh : i + 1 < bytes.size
    · rw [drop_toList hhigh, drop_toList_of_le (show bytes.size ≤ i + 1 + 1 by omega)]
      rfl
    · rw [drop_toList_of_le (Nat.not_lt.mp hhigh)]
      rfl
  | case3 i hi hpercent ih =>
    rw [drop_toList hi, decodeBytes?_cons hpercent, ih]
    cases decodeBytes? (bytes.toList.drop (i + 1)) <;> rfl
  | case4 i hi =>
    rw [drop_toList_of_le (Nat.not_lt.mp hi)]
    rfl

/-- The law of components: a text is written with unreserved characters and upper-case escapes only,
    and read back from that; a component has a text exactly where every percent sign has two digits
    behind it and the bytes it spells are those of the text; and no byte is looked for where there
    is none. -/
theorem component_laws :
    (∀ s : String, IsEncoded (encode s).toList ∧ decode? (encode s) = some s) ∧
    (∀ s t : String, decode? s = some t ↔ WellEscaped s.toList ∧
      ∃ h : ByteArray.IsValidUTF8 ⟨(spelledBytes s.toList).toArray⟩, String.fromUTF8 _ h = t) ∧
    ∀ s : String, decodeBytes? s.toUTF8.data.toList = decodeFrom? s.toUTF8.data 0 := by
  refine ⟨fun s => ⟨?_, decode?_encode s⟩, decode?_eq_some_iff, fun s => ?_⟩
  · rw [toList_encode]
    exact isEncoded_flatMap _
  · rw [decodeFrom?_eq, List.drop_zero]

end Descramble.Component
