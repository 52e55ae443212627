import Descramble.Number.Text
import Descramble.Proofs.Number.Numeral
import Descramble.Proofs.Number.Shortest

/-!
# The text of a number denotes the number

A decimal is laid out in one of four ways, by the place of its point among its digits. Each layout
is a numeral that denotes the value of the decimal: a mantissa alone while the point is near the
digits, and one with an exponent otherwise. So a number is read from its text.

Main statements: `Decimal.isDecimalText_layout`, `Number.isDecimalText_toText`.
-/

namespace Descramble

namespace Decimal

variable {d : Decimal}

/-- The digits of a decimal are digits. -/
theorem isDigit_of_mem_digits {c : Char} (h : c ∈ d.digits) : c.isDigit :=
  Nat.isDigit_of_mem_toDigits (by decide) (by decide) h

/-- There is always a digit, also for zero. -/
theorem digits_ne_nil : d.digits ≠ [] :=
  Nat.toDigits_ne_nil

/-- The digits spell the coefficient. -/
theorem ofDigitChars_digits : Nat.ofDigitChars 10 d.digits 0 = d.coefficient :=
  Nat.ofDigitChars_ten_toDigits

/-- Zeros that fill up the digits are digits. -/
theorem isDigit_of_mem_zeros {k : Nat} {c : Char} (h : c ∈ List.replicate k '0') : c.isDigit := by
  rw [List.eq_of_mem_replicate h]
  decide

/-! ## Layouts -/

/-- Digits around a point denote the coefficient that they spell together. -/
theorem isMantissa_around {ds fs : List Char} (hne : ds ≠ [] ∨ fs ≠ []) (hds : ∀ c ∈ ds, c.isDigit)
    (hfs : ∀ c ∈ fs, c.isDigit) (hcoefficient : Nat.ofDigitChars 10 (ds ++ fs) 0 = d.coefficient)
    (hexponent : d.exponent = -fs.length) : IsMantissa (ds ++ '.' :: fs) d.value := by
  have hvalue := value_fraction ds fs 0
  rw [hcoefficient, zero_sub, ← hexponent, zpow_zero, mul_one] at hvalue
  rw [hvalue]
  exact .fraction hne hds hfs

/-- While the point is near the digits, the layout is a mantissa. -/
theorem isMantissa_layout (h : -6 < d.point ∧ d.point ≤ 21) : IsMantissa d.layout d.value := by
  have hdigits (c : Char) (hc : c ∈ d.digits) : c.isDigit := isDigit_of_mem_digits hc
  have hpoint : d.point = d.digits.length + d.exponent := rfl
  unfold layout
  dsimp only
  -- by where the point falls: after the digits, among them, or before them
  split
  · -- zeros after the digits
    rename_i hwhole
    obtain ⟨k, hk⟩ : ∃ k : Nat, d.exponent = k := ⟨d.exponent.toNat, by omega⟩
    have hvalue : d.value =
        Nat.ofDigitChars 10 (d.digits ++ List.replicate (d.point - d.digits.length).toNat '0') 0 := by
      have hzeros : (d.point - d.digits.length).toNat = k := by omega
      rw [hzeros, Nat.ofDigitChars_append, ofDigitChars_digits, Nat.ofDigitChars_replicate_zero,
        value, hk, zpow_natCast, mul_comm]
      push_cast
      rfl
    rw [hvalue]
    refine .whole (List.append_ne_nil_of_left_ne_nil digits_ne_nil _) fun c hc => ?_
    exact (List.mem_append.mp hc).elim (hdigits c) isDigit_of_mem_zeros
  split
  · -- a point among the digits
    rename_i hmiddle
    refine isMantissa_around (.inl ?_) (fun c hc => hdigits c (List.mem_of_mem_take hc))
      (fun c hc => hdigits c (List.mem_of_mem_drop hc)) ?_ ?_
    · rw [Ne, List.take_eq_nil_iff]
      exact fun h => h.elim (fun h => by omega) digits_ne_nil
    · rw [List.take_append_drop, ofDigitChars_digits]
    · rw [List.length_drop]
      omega
  split
  · -- zeros before the digits
    rename_i hsmall
    refine isMantissa_around (.inl (List.cons_ne_nil '0' [])) (by simp) ?_ ?_ ?_
    · exact fun c hc => (List.mem_append.mp hc).elim isDigit_of_mem_zeros (hdigits c)
    · rw [Nat.ofDigitChars_append, Nat.ofDigitChars_append, Nat.ofDigitChars_replicate_zero]
      exact ofDigitChars_digits
    · rw [List.length_append, List.length_replicate]
      omega
  · omega

/-- Far from the digits, the layout is a mantissa with a point after the first digit, and an
    exponent. -/
theorem exists_exponent_layout (h : ¬ (-6 < d.point ∧ d.point ≤ 21)) :
    ∃ mantissa rest x, d.layout = mantissa ++ 'e' :: rest ∧ IsMantissa mantissa x ∧
      IsExponent ('e' :: rest) (d.point - 1) ∧ d.value = x * 10 ^ (d.point - 1) := by
  have hdigits (c : Char) (hc : c ∈ d.digits) : c.isDigit := isDigit_of_mem_digits hc
  have hpoint : d.point = d.digits.length + d.exponent := rfl
  have hcount : 0 < d.digits.length := Nat.length_toDigits_pos
  -- the exponent is written with its sign and the digits of its size
  have hexponent : IsExponent ('e' :: (if d.point - 1 < 0 then '-' else '+') ::
      Nat.toDigits 10 (d.point - 1).natAbs) (d.point - 1) := by
    have hes : ∀ c ∈ Nat.toDigits 10 (d.point - 1).natAbs, c.isDigit :=
      fun c hc => Nat.isDigit_of_mem_toDigits (by decide) (by decide) hc
    by_cases hneg : d.point - 1 < 0
    · have hmarked := IsExponent.marked (.inl rfl) .minus Nat.toDigits_ne_nil hes
      rw [Nat.ofDigitChars_ten_toDigits, if_pos rfl,
        show -((d.point - 1).natAbs : Int) = d.point - 1 by omega] at hmarked
      rw [if_pos hneg]
      exact hmarked
    · have hmarked := IsExponent.marked (.inl rfl) .plus Nat.toDigits_ne_nil hes
      rw [Nat.ofDigitChars_ten_toDigits, if_neg Bool.false_ne_true,
        show ((d.point - 1).natAbs : Int) = d.point - 1 by omega] at hmarked
      rw [if_neg hneg]
      exact hmarked
  have hfar : d.layout = (if d.digits.length = 1 then d.digits
      else d.digits.take 1 ++ '.' :: d.digits.drop 1) ++
      'e' :: (if d.point - 1 < 0 then '-' else '+') :: Nat.toDigits 10 (d.point - 1).natAbs := by
    unfold layout
    dsimp only
    rw [if_neg (by omega), if_neg (by omega), if_neg (by omega)]
  have hvalue := value_fraction (d.digits.take 1) (d.digits.drop 1) (d.point - 1)
  rw [List.take_append_drop, ofDigitChars_digits, List.length_drop,
    show d.point - 1 - ((d.digits.length - 1 : Nat) : Int) = d.exponent by omega] at hvalue
  refine ⟨_, _, _, hfar, ?_, hexponent, hvalue⟩
  -- a single digit is written without a point
  by_cases hone : d.digits.length = 1
  · have htake : d.digits.take 1 = d.digits := List.take_of_length_le (by omega)
    have hdrop : d.digits.drop 1 = [] := List.drop_of_length_le (by omega)
    rw [if_pos hone, htake, hdrop, Nat.ofDigitChars_nil, Nat.cast_zero, zero_div, add_zero]
    exact .whole digits_ne_nil hdigits
  · rw [if_neg hone, ← List.length_drop]
    refine .fraction (.inl ?_) (fun c hc => hdigits c (List.mem_of_mem_take hc))
      (fun c hc => hdigits c (List.mem_of_mem_drop hc))
    rw [Ne, List.take_eq_nil_iff]
    exact fun h => h.elim (fun h => by cases h) digits_ne_nil

/-- Every layout is a numeral that denotes the value of the decimal. -/
theorem isDecimalText_layout (d : Decimal) : IsDecimalText d.layout d.value := by
  by_cases h : -6 < d.point ∧ d.point ≤ 21
  · exact (isMantissa_layout h).isDecimalText
  · obtain ⟨mantissa, rest, x, hlayout, hmantissa, hexponent, hvalue⟩ := exists_exponent_layout h
    rw [hlayout, hvalue]
    exact .parts hmantissa hexponent

/-- A layout is a mantissa exactly while the point is near the digits. -/
theorem isMantissa_layout_iff :
    IsMantissa d.layout d.value ↔ -6 < d.point ∧ d.point ≤ 21 := by
  refine ⟨fun h => ?_, isMantissa_layout⟩
  by_contra hfar
  obtain ⟨mantissa, rest, x, hlayout, -, -, -⟩ := exists_exponent_layout hfar
  have hmark : 'e' ∈ d.layout := by
    rw [hlayout]
    exact List.mem_append_right _ List.mem_cons_self
  rcases h.mem hmark with h | h <;> exact absurd h (by decide)

/-- A layout begins with a digit. -/
theorem layout_eq_cons : ∃ c cs, d.layout = c :: cs ∧ c.isDigit := by
  obtain ⟨c, cs, hcs⟩ := List.exists_cons_of_ne_nil (digits_ne_nil (d := d))
  have hc : c.isDigit := isDigit_of_mem_digits (by rw [hcs]; exact List.mem_cons_self)
  -- in each layout the first digit, or a zero before it
  unfold layout
  dsimp only
  rw [hcs]
  split
  · exact ⟨c, _, List.cons_append, hc⟩
  split
  · rename_i hmiddle
    obtain ⟨k, hk⟩ : ∃ k, d.point.toNat = k + 1 := ⟨d.point.toNat - 1, by omega⟩
    rw [hk]
    exact ⟨c, _, rfl, hc⟩
  split
  · exact ⟨'0', _, rfl, by decide⟩
  · split <;> exact ⟨c, _, rfl, hc⟩

end Decimal

namespace Number

/-- The text of a number other than zero is the layout of its shortest decimal, after the sign. -/
theorem toList_toText {m : Magnitude} (h : 0 < m.units) (negative : Bool) :
    (finite negative m).toText.toList =
      (if negative then ['-'] else []) ++ m.shortest.layout := by
  simp only [toText, Nat.ne_of_gt h, if_false, String.toList_ofList]
  cases negative <;> rfl

/-- The sign of a number is a minus or nothing. -/
theorem isSign_ite (negative : Bool) : IsSign (if negative then ['-'] else []) negative := by
  cases negative with
  | false => exact .none
  | true => exact .minus

/-- Zero is written as one digit. -/
theorem toText_zero {m : Magnitude} (h : m.units = 0) : (finite false m).toText = "0" :=
  if_pos h

/-- The shortest decimal of a number denotes a value that the number is nearest to. -/
theorem nearest_shortest {m : Magnitude} (h : 0 < m.units) (negative : Bool) :
    nearest negative m.shortest.value = finite negative m := by
  have hread := (m.toNumber_shortest h).1
  rw [Decimal.toNumber_eq_nearest] at hread
  exact nearest_eq_finite hread

/-- The text of a number without a sign is a numeral, and the number is nearest to what it
    denotes. -/
theorem isDecimalText_toText (m : Magnitude) : ∃ v, IsDecimalText (finite false m).toText.toList v ∧
    ∀ negative, nearest negative v = finite negative m := by
  -- zero has a text of its own, any other number that of its shortest decimal
  rcases Nat.eq_zero_or_pos m.units with hzero | hpos
  · have hdigit : IsMantissa ['0'] _ := .whole (List.cons_ne_nil _ _) (by simp)
    refine ⟨_, by rw [toText_zero hzero]; exact hdigit.isDecimalText, fun negative => ?_⟩
    have hzero' : ((Nat.ofDigitChars 10 ['0'] 0 : Nat) : ℚ) = 0 := Nat.cast_zero
    rw [hzero', nearest_of_small (le_refl 0) (by norm_num), ← m.ofRatio_units, hzero]
  · exact ⟨_, by rw [toList_toText hpos false]; exact m.shortest.isDecimalText_layout,
      nearest_shortest hpos⟩

/-- The text of a number begins with a digit, and there is no `x` in it. -/
theorem toText_eq_cons (m : Magnitude) :
    ∃ c cs, (finite false m).toText.toList = c :: cs ∧ c.isDigit ∧
      ∀ x ∈ cs, x ≠ 'x' ∧ x ≠ 'X' := by
  obtain ⟨v, htext, -⟩ := isDecimalText_toText m
  have hmark (x : Char) (hx : x ∈ (finite false m).toText.toList) : x ≠ 'x' ∧ x ≠ 'X' := by
    constructor <;> rintro rfl <;> exact absurd (htext.mem hx) (by decide)
  rcases Nat.eq_zero_or_pos m.units with hzero | hpos
  · exact ⟨'0', [], by rw [toText_zero hzero]; rfl, by decide, fun _ h => nomatch h⟩
  · obtain ⟨c, cs, hcs, hc⟩ := m.shortest.layout_eq_cons
    rw [toList_toText hpos false, if_neg Bool.false_ne_true, List.nil_append, hcs] at hmark ⊢
    exact ⟨c, cs, rfl, hc, fun x hx => hmark x (List.mem_cons_of_mem c hx)⟩

end Number

end Descramble
