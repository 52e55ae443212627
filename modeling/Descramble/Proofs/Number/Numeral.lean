import Descramble.Proofs.Number.Nearest
import Descramble.Proofs.Text.Digits

/-!
# Decimal numerals

The texts of decimal numerals, each with the value that it denotes: digits with an optional
fraction, or a point and at least one digit, and then an optional exponent. The reader takes exactly
these, runs of digits as far as they go, and gives a decimal of the value denoted.

Main statements: `read?_append`, `isDecimalText_of_read?`.
-/

namespace Descramble

/-- An optional sign, and whether it is a minus. -/
inductive IsSign : List Char → Bool → Prop
  | none : IsSign [] false
  | plus : IsSign ['+'] false
  | minus : IsSign ['-'] true

/-- Digits with an optional fraction, or a point and at least one digit, and their value. -/
inductive IsMantissa : List Char → ℚ → Prop
  | whole {ds : List Char} (hne : ds ≠ []) (hds : ∀ c ∈ ds, c.isDigit) :
      IsMantissa ds (Nat.ofDigitChars 10 ds 0)
  | fraction {ds fs : List Char} (hne : ds ≠ [] ∨ fs ≠ []) (hds : ∀ c ∈ ds, c.isDigit)
      (hfs : ∀ c ∈ fs, c.isDigit) :
      IsMantissa (ds ++ '.' :: fs)
        (Nat.ofDigitChars 10 ds 0 + Nat.ofDigitChars 10 fs 0 / 10 ^ fs.length)

/-- An optional exponent: a mark, an optional sign and at least one digit. -/
inductive IsExponent : List Char → Int → Prop
  | none : IsExponent [] 0
  | marked {mark : Char} {sign ds : List Char} {negative : Bool}
      (hmark : mark = 'e' ∨ mark = 'E') (hsign : IsSign sign negative) (hne : ds ≠ [])
      (hds : ∀ c ∈ ds, c.isDigit) :
      IsExponent (mark :: (sign ++ ds))
        (if negative then -(Nat.ofDigitChars 10 ds 0 : Int) else Nat.ofDigitChars 10 ds 0)

/-- An unsigned decimal numeral and the value that it denotes. -/
inductive IsDecimalText : List Char → ℚ → Prop
  | parts {mantissa exponent : List Char} {x : ℚ} {e : Int} (hmantissa : IsMantissa mantissa x)
      (hexponent : IsExponent exponent e) : IsDecimalText (mantissa ++ exponent) (x * 10 ^ e)

/-- A mantissa alone is a numeral. -/
theorem IsMantissa.isDecimalText {text : List Char} {x : ℚ} (h : IsMantissa text x) :
    IsDecimalText text x := by
  have hparts := IsDecimalText.parts h .none
  rwa [List.append_nil, zpow_zero, mul_one] at hparts

/-! ## Characters -/

/-- A sign is made of one of two marks. -/
theorem IsSign.mem {sign : List Char} {negative : Bool} {c : Char} (h : IsSign sign negative)
    (hc : c ∈ sign) : c = '-' ∨ c = '+' := by
  cases h <;> simp_all

/-- A mantissa is made of digits and a point. -/
theorem IsMantissa.mem {text : List Char} {x : ℚ} {c : Char} (h : IsMantissa text x)
    (hc : c ∈ text) : c.isDigit ∨ c = '.' := by
  cases h with
  | whole hne hds => exact .inl (hds c hc)
  | fraction hne hds hfs =>
    rcases List.mem_append.mp hc with hc | hc
    · exact .inl (hds c hc)
    rcases List.mem_cons.mp hc with hc | hc
    · exact .inr hc
    · exact .inl (hfs c hc)

/-- An exponent is made of digits, its mark and a sign. -/
theorem IsExponent.mem {text : List Char} {e : Int} {c : Char} (h : IsExponent text e)
    (hc : c ∈ text) : c.isDigit ∨ c = 'e' ∨ c = 'E' ∨ c = '-' ∨ c = '+' := by
  cases h with
  | none => cases hc
  | marked hmark hsign hne hds =>
    rcases List.mem_cons.mp hc with rfl | hc
    · exact hmark.elim (fun h => .inr (.inl h)) fun h => .inr (.inr (.inl h))
    rcases List.mem_append.mp hc with hc | hc
    · exact .inr (.inr (.inr (hsign.mem hc)))
    · exact .inl (hds c hc)

/-- A numeral is made of digits and five marks. -/
theorem IsDecimalText.mem {text : List Char} {v : ℚ} {c : Char} (h : IsDecimalText text v)
    (hc : c ∈ text) : c.isDigit ∨ c = '.' ∨ c = 'e' ∨ c = 'E' ∨ c = '-' ∨ c = '+' := by
  cases h with
  | parts hmantissa hexponent =>
    rcases List.mem_append.mp hc with hc | hc
    · exact (hmantissa.mem hc).imp_right .inl
    · exact (hexponent.mem hc).imp_right .inr

/-- A numeral begins with a digit or a point. -/
theorem IsDecimalText.eq_cons {text : List Char} {v : ℚ} (h : IsDecimalText text v) :
    ∃ c cs, text = c :: cs ∧ (c.isDigit ∨ c = '.') := by
  cases h with
  | parts hmantissa hexponent =>
    cases hmantissa with
    | whole hne hds =>
      obtain ⟨c, cs, rfl⟩ := List.exists_cons_of_ne_nil hne
      exact ⟨c, _, List.cons_append, .inl (hds c List.mem_cons_self)⟩
    | @fraction ds fs hne hds hfs =>
      cases ds with
      | nil => exact ⟨'.', _, rfl, .inr rfl⟩
      | cons c cs => exact ⟨c, _, rfl, .inl (hds c List.mem_cons_self)⟩

/-- No character that a numeral could go on with comes next. -/
def EndsNumeral (s : List Char) : Prop :=
  ∀ c ∈ s.head?, c.isDigit = false ∧ c ≠ '.' ∧ c ≠ 'e' ∧ c ≠ 'E'

/-- Where the text ends, a numeral ends. -/
theorem endsNumeral_nil : EndsNumeral [] :=
  fun _ h => nomatch h

/-! ## Signs -/

/-- The sign at the front of a text, and what comes after it. -/
def splitSign (cs : List Char) : Bool × List Char :=
  match cs with
  | '-' :: rest => (true, rest)
  | '+' :: rest => (false, rest)
  | _ => (false, cs)

/-- A text without a sign in front is left as it is. -/
theorem splitSign_of_ne {cs : List Char} (h : ∀ c ∈ cs.head?, c ≠ '-' ∧ c ≠ '+') :
    splitSign cs = (false, cs) := by
  unfold splitSign
  split
  · exact absurd rfl (h '-' rfl).1
  · exact absurd rfl (h '+' rfl).2
  · rfl

/-- A sign is taken off the front of what is no sign itself. -/
theorem splitSign_append {sign body : List Char} {negative : Bool} (h : IsSign sign negative)
    (hbody : ∀ c ∈ body.head?, c ≠ '-' ∧ c ≠ '+') : splitSign (sign ++ body) = (negative, body) := by
  cases h with
  | none => exact splitSign_of_ne hbody
  | plus => rfl
  | minus => rfl

/-- What is taken off the front of a text is a sign. -/
theorem exists_sign (cs : List Char) :
    ∃ sign, IsSign sign (splitSign cs).1 ∧ cs = sign ++ (splitSign cs).2 := by
  unfold splitSign
  split
  · exact ⟨_, .minus, rfl⟩
  · exact ⟨_, .plus, rfl⟩
  · exact ⟨_, .none, rfl⟩

/-- A digit is no sign. -/
theorem not_sign_of_isDigit {c : Char} (h : c.isDigit) : c ≠ '-' ∧ c ≠ '+' := by
  constructor <;> rintro rfl <;> exact absurd h (by decide)

namespace Decimal

variable {ds fs es rest : List Char}

/-! ## Reading run by run -/

/-- A fraction is read as far as its digits go. -/
theorem readFraction_of_point (hfs : ∀ c ∈ fs, c.isDigit)
    (hrest : ∀ c ∈ rest.head?, c.isDigit = false) :
    readFraction ('.' :: (fs ++ rest)) = (fs, rest) := by
  obtain ⟨htake, hdrop⟩ := takeWhile_digits hfs hrest
  simp only [readFraction, htake, hdrop]

/-- Without a point no fraction is read. -/
theorem readFraction_of_none (hrest : ∀ c ∈ rest.head?, c ≠ '.') :
    readFraction rest = ([], rest) := by
  unfold readFraction
  split
  · exact absurd rfl (hrest '.' rfl)
  · rfl

/-- Without a mark no exponent is read. -/
theorem readExponent_of_none (hrest : ∀ c ∈ rest.head?, c ≠ 'e' ∧ c ≠ 'E') :
    readExponent rest = (0, rest) := by
  cases rest with
  | nil => rfl
  | cons c rest =>
    obtain ⟨he, hE⟩ := hrest c rfl
    simp only [readExponent, decide_eq_false he, decide_eq_false hE, Bool.or_self,
      Bool.false_eq_true, if_false]

/-- What comes after the mark of an exponent decides whether it is one. -/
theorem readExponent_cons {mark : Char} (hmark : mark = 'e' ∨ mark = 'E') (cs : List Char) :
    readExponent (mark :: cs) =
      let (negative, body) := splitSign cs
      let ds := body.takeWhile Char.isDigit
      if ds.isEmpty then (0, mark :: cs)
      else
        (if negative then -(Nat.ofDigitChars 10 ds 0 : Int) else Nat.ofDigitChars 10 ds 0,
          body.dropWhile Char.isDigit) := by
  -- the reader tests for the two marks one after the other
  have hcond : (decide (mark = 'e') || decide (mark = 'E')) = true := by
    simpa using hmark
  unfold readExponent
  simp only [hcond, if_true]
  rfl

/-- An exponent is read as far as its digits go. -/
theorem readExponent_append {e : Int} (h : IsExponent es e) (hrest : EndsNumeral rest) :
    readExponent (es ++ rest) = (e, rest) := by
  cases h with
  | none => exact readExponent_of_none fun c hc => (hrest c hc).2.2
  | @marked mark sign ds negative hmark hsign hne hds =>
    obtain ⟨htake, hdrop⟩ := takeWhile_digits hds fun c hc => (hrest c hc).1
    obtain ⟨d, ds', rfl⟩ := List.exists_cons_of_ne_nil hne
    -- the first digit is no sign, so no second sign is taken off
    have hsplit : splitSign (sign ++ (d :: ds' ++ rest)) = (negative, d :: ds' ++ rest) := by
      apply splitSign_append hsign
      intro c hc
      obtain rfl : d = c := Option.some.inj hc
      exact not_sign_of_isDigit (hds d List.mem_cons_self)
    rw [List.cons_append, List.append_assoc, readExponent_cons hmark, hsplit]
    simp only [htake, hdrop, List.isEmpty_cons, Bool.false_eq_true, if_false]

/-- What is read as an exponent is one. -/
theorem isExponent_readExponent (cs : List Char) :
    ∃ es, IsExponent es (readExponent cs).1 ∧ cs = es ++ (readExponent cs).2 := by
  by_cases hmark : ∃ mark rest, cs = mark :: rest ∧ (mark = 'e' ∨ mark = 'E')
  · obtain ⟨mark, rest, rfl, hmark⟩ := hmark
    obtain ⟨sign, hsign, hrest⟩ := exists_sign rest
    rw [readExponent_cons hmark]
    dsimp only
    -- a mark without digits behind it is none, and the whole text is left
    split
    · exact ⟨[], .none, rfl⟩
    · rename_i hne
      refine ⟨mark :: (sign ++ (splitSign rest).2.takeWhile Char.isDigit),
        .marked hmark hsign (fun hnil => hne (by rw [hnil]; rfl)) isDigit_of_mem_takeWhile, ?_⟩
      rw [List.cons_append, List.append_assoc, List.takeWhile_append_dropWhile, ← hrest]
  · -- without a mark nothing is read
    have hnone : readExponent cs = (0, cs) := by
      apply readExponent_of_none
      intro c hc
      obtain ⟨rest, rfl⟩ := List.head?_eq_some_iff.mp hc
      exact not_or.mp fun h => hmark ⟨c, rest, rfl, h⟩
    rw [hnone]
    exact ⟨[], .none, rfl⟩

/-- What is read as a fraction is a point and digits. -/
theorem readFraction_cases (cs : List Char) :
    (cs = '.' :: ((readFraction cs).1 ++ (readFraction cs).2) ∧
      ∀ c ∈ (readFraction cs).1, c.isDigit) ∨ readFraction cs = ([], cs) := by
  unfold readFraction
  split
  · refine .inl ⟨?_, isDigit_of_mem_takeWhile⟩
    rw [List.takeWhile_append_dropWhile]
  · exact .inr rfl

/-! ## Reading a numeral -/

/-- Digits before and after a point, taken together, are the coefficient of the fraction. -/
theorem value_fraction (ds fs : List Char) (e : Int) :
    value ⟨Nat.ofDigitChars 10 (ds ++ fs) 0, e - fs.length⟩ =
      (Nat.ofDigitChars 10 ds 0 + Nat.ofDigitChars 10 fs 0 / 10 ^ fs.length) * 10 ^ e := by
  have hten : (10 : ℚ) ≠ 0 := by norm_num
  have hpow : (10 : ℚ) ^ fs.length ≠ 0 := pow_ne_zero _ hten
  unfold value
  -- the digits in front are worth a power of ten more for each digit behind
  rw [Nat.ofDigitChars_append, Nat.ofDigitChars_eq_ofDigitChars_zero, zpow_sub₀ hten, zpow_natCast]
  push_cast
  field_simp

/-- Digits without a fraction are the coefficient. -/
theorem value_whole (ds : List Char) (e : Int) :
    value ⟨Nat.ofDigitChars 10 (ds ++ []) 0, e - ([] : List Char).length⟩ =
      Nat.ofDigitChars 10 ds 0 * 10 ^ e := by
  rw [List.append_nil, List.length_nil]
  exact congrArg (_ * (10 : ℚ) ^ ·) (sub_zero e)

/-- A numeral with at least one digit in its mantissa is read run by run. -/
theorem read?_of_runs {e : Int} {rest' rest'' : List Char} (hne : ds ≠ [] ∨ fs ≠ [])
    (hds : ∀ c ∈ ds, c.isDigit) (hrest : ∀ c ∈ rest.head?, c.isDigit = false)
    (hfraction : readFraction rest = (fs, rest')) (hexponent : readExponent rest' = (e, rest'')) :
    read? (ds ++ rest) = some (⟨Nat.ofDigitChars 10 (ds ++ fs) 0, e - fs.length⟩, rest'') := by
  obtain ⟨htake, hdrop⟩ := takeWhile_digits hds hrest
  -- one run or the other has a digit, so there is a numeral
  have hempty : (ds.isEmpty && fs.isEmpty) = false := by
    simpa [or_iff_not_imp_left] using hne
  simp only [read?, htake, hdrop, hfraction, hexponent, hempty, Bool.false_eq_true, if_false]

/-- Neither a digit nor a point follows the mantissa of a numeral. -/
theorem not_mantissa_of_exponent {e : Int} {c : Char} (h : IsExponent es e)
    (hrest : EndsNumeral rest) (hc : c ∈ (es ++ rest).head?) : c.isDigit = false ∧ c ≠ '.' := by
  cases h with
  | none => exact ⟨(hrest c hc).1, (hrest c hc).2.1⟩
  | marked hmark =>
    obtain rfl := Option.some.inj hc
    rcases hmark with rfl | rfl <;> decide

/-- A numeral is read as far as it goes, as a decimal of its value. -/
theorem read?_append {text : List Char} {v : ℚ} (h : IsDecimalText text v)
    (hrest : EndsNumeral rest) : ∃ d, read? (text ++ rest) = some (d, rest) ∧ d.value = v := by
  cases h with
  | @parts mantissa exponent x e hmantissa hexponent =>
    have hread := readExponent_append hexponent hrest
    have hend : ∀ c ∈ (exponent ++ rest).head?, c.isDigit = false ∧ c ≠ '.' :=
      fun c hc => not_mantissa_of_exponent hexponent hrest hc
    rw [List.append_assoc]
    -- without a point the fraction is empty, and with one the digits in front stop at it
    cases hmantissa with
    | whole hne hds =>
      have hfraction := readFraction_of_none fun c hc => (hend c hc).2
      exact ⟨_, read?_of_runs (.inl hne) hds (fun c hc => (hend c hc).1) hfraction hread,
        value_whole _ _⟩
    | @fraction ds fs hne hds hfs =>
      have hfraction := readFraction_of_point hfs fun c hc => (hend c hc).1
      -- the digits in front end at the point
      have hpoint : ∀ c ∈ ('.' :: (fs ++ (exponent ++ rest))).head?, c.isDigit = false := by
        intro c hc
        obtain rfl := Option.some.inj hc
        decide
      rw [List.append_assoc, List.cons_append]
      exact ⟨_, read?_of_runs hne hds hpoint hfraction hread, value_fraction _ _ _⟩

/-- What is read is a numeral, and its value is that of the decimal. -/
theorem isDecimalText_of_read? {cs : List Char} {d : Decimal} (h : read? cs = some (d, rest)) :
    ∃ text, cs = text ++ rest ∧ IsDecimalText text d.value := by
  have hwhole := List.takeWhile_append_dropWhile (p := Char.isDigit) (l := cs)
  unfold read? at h
  dsimp only at h
  split at h
  · cases h
  -- there is a digit before the point or behind it
  rename_i hne
  obtain ⟨rfl, rfl⟩ := Prod.mk.inj (Option.some.inj h)
  simp only [Bool.and_eq_true, List.isEmpty_iff, not_and] at hne
  have hds : ∀ c ∈ cs.takeWhile Char.isDigit, c.isDigit := isDigit_of_mem_takeWhile
  generalize cs.takeWhile Char.isDigit = ds, cs.dropWhile Char.isDigit = after at *
  rcases readFraction_cases after with ⟨hafter, hfs⟩ | hnone
  · -- a point, with digits behind it or before it
    obtain ⟨es, hes, hrest⟩ := isExponent_readExponent (readFraction after).2
    rw [value_fraction]
    refine ⟨_, ?_, .parts (.fraction ?_ hds hfs) hes⟩
    · rw [List.append_assoc, List.append_assoc, List.cons_append, ← hrest, ← hafter, hwhole]
    · simpa [or_iff_not_imp_left] using hne
  -- no point, so the digits are the whole mantissa
  · obtain ⟨es, hes, hrest⟩ := isExponent_readExponent after
    rw [hnone] at hne ⊢
    rw [value_whole]
    refine ⟨_, ?_, .parts (.whole ?_ hds) hes⟩
    · rw [List.append_assoc, ← hrest, hwhole]
    · exact fun hnil => hne hnil rfl

end Decimal

/-- A numeral denotes one value. -/
theorem IsDecimalText.unique {text : List Char} {v w : ℚ} (h : IsDecimalText text v)
    (h' : IsDecimalText text w) : v = w := by
  obtain ⟨d, hd, rfl⟩ := Decimal.read?_append h endsNumeral_nil
  obtain ⟨d', hd', rfl⟩ := Decimal.read?_append h' endsNumeral_nil
  -- one text is read as one decimal
  obtain ⟨rfl, -⟩ := Prod.mk.inj (Option.some.inj (hd.symm.trans hd'))
  rfl

end Descramble
