import Descramble.Proofs.Value.Conversion
import Descramble.Proofs.Number.Text
import Descramble.Proofs.Printer.Token
import Descramble.Proofs.Text.Digits

/-!
# The text of a number against its readers

The text of a number denotes the value of the shortest decimal that reads back as the number, in
whichever way it is laid out. The reader of scripts takes the text without its sign, the conversion
of texts takes it with its sign, and both take it for that value; the number is the one nearest to
it.

Main statement: `Number.toText_denotes`.
-/

namespace Descramble

variable {sign body : List Char} {negative : Bool} {v : ℚ}

/-- There is no blank in a numeral. -/
theorem IsDecimalText.not_isBlank (h : IsDecimalText body v) {c : Char} (hc : c ∈ body) :
    isBlank c = false := by
  apply not_isBlank_of_print
  -- a digit, a point, an exponent mark or a sign
  rcases h.mem hc with hdigit | rfl | rfl | rfl | rfl | rfl
  · have hrange : 48 ≤ c.toNat ∧ c.toNat ≤ 57 := Char.isDigit_iff_toNat.mp hdigit
    omega
  all_goals decide

/-- Nothing is cut off a numeral with a sign. -/
theorem trimEnds_signed (hsign : IsSign sign negative) (hbody : IsDecimalText body v) :
    trimEnds (sign ++ body) = sign ++ body := by
  apply trimEnds_of_solid
  intro c hc
  rcases List.mem_append.mp hc with hc | hc
  · rcases hsign.mem hc with rfl | rfl <;> decide
  · exact hbody.not_isBlank hc

/-- The digits of a decimal with a point after the first one, and the exponent that goes with
    them. -/
theorem Decimal.exists_scientific {d : Decimal} (h : 0 < d.coefficient) :
    ∃ first rest e, d.digits = first :: rest ∧ first ≠ '0' ∧ d.point = e + 1 ∧
      d.value = (Nat.ofDigitChars 10 [first] 0 + Nat.ofDigitChars 10 rest 0 / 10 ^ rest.length) *
        10 ^ e := by
  -- the first digit is split off; it is not zero, since the coefficient is positive
  obtain ⟨first, rest, hdigits⟩ := List.exists_cons_of_ne_nil (digits_ne_nil (d := d))
  have hhead : d.digits.head? ≠ some '0' := head?_toDigits h
  refine ⟨first, rest, d.point - 1, hdigits, ?_, by omega, ?_⟩
  · rintro rfl
    exact hhead (by rw [hdigits]; rfl)
  · -- with the point after the first digit, all other digits are fraction digits
    have hvalue := value_fraction [first] rest (d.point - 1)
    have hexponent : d.point - 1 - rest.length = d.exponent := by
      have hcount : d.digits.length = rest.length + 1 := by rw [hdigits]; rfl
      unfold point
      omega
    rw [hexponent, List.singleton_append, ← hdigits, ofDigitChars_digits] at hvalue
    exact hvalue

namespace Number

/-- The text of a number other than zero, with the digits and the exponent of its shortest decimal:
    it denotes that decimal, without an exponent exactly from `10 ^ -6` to below `10 ^ 21`, and both
    readers take all of it for that value. -/
theorem toText_denotes (negative : Bool) {m : Magnitude} (h : 0 < m.units) :
    ∃ first rest e body, ∃ v : ℚ, m.shortest.digits = first :: rest ∧ first ≠ '0' ∧
      m.shortest.point = e + 1 ∧
      v = (Nat.ofDigitChars 10 [first] 0 + Nat.ofDigitChars 10 rest 0 / 10 ^ rest.length) * 10 ^ e ∧
      (finite negative m).toText.toList = (if negative then ['-'] else []) ++ body ∧
      IsDecimalText body v ∧ (IsMantissa body v ↔ -7 < e ∧ e < 21) ∧
      (∃ d, Decimal.read? body = some (d, []) ∧ d.value = v) ∧
      Reader.decimalNumber body = .ok (nearest false v, []) ∧
      textToNumber (finite negative m).toText = nearest negative v ∧
      ∀ negative, nearest negative v = finite negative m := by
  obtain ⟨first, rest, e, hdigits, hfirst, hpoint, hvalue⟩ :=
    Decimal.exists_scientific (m.toNumber_shortest h).2
  have hbody := m.shortest.isDecimalText_layout
  have htext := toList_toText h negative
  -- both readers take the layout as a whole, with nothing behind it
  have hread := Decimal.read?_append hbody endsNumeral_nil
  have hscript : Reader.decimalNumber (m.shortest.layout ++ []) =
      .ok (nearest false m.shortest.value, []) :=
    Reader.decimalNumber_text hbody ⟨rfl, nofun⟩ nofun
  rw [List.append_nil] at hread hscript
  refine ⟨first, rest, e, m.shortest.layout, m.shortest.value, hdigits, hfirst, hpoint, hvalue,
    htext, hbody, ?_, hread, hscript, ?_, nearest_shortest h⟩
  · rw [Decimal.isMantissa_layout_iff, hpoint]
    omega
  · apply textToNumber_of_decimal (isSign_ite negative) hbody
    rw [htext, trimEnds_signed (isSign_ite negative) hbody]

/-- The number next to zero on the negative side. -/
theorem toText_denotes_smallest :
    ∃ m : Magnitude, 0 < m.units ∧ (finite true m).toText = "-5e-324" ∧
      Reader.decimalNumber "5e-324".toList = .ok (finite false m, []) ∧
      textToNumber "-5e-324" = finite true m := by
  obtain ⟨m, hpos, hwritten⟩ :
      ∃ m : Magnitude, 0 < m.units ∧ (finite true m).toText = "-5e-324" :=
    ⟨⟨1, Nat.one_dvd 1, by decide +kernel⟩, Nat.zero_lt_one, by decide +kernel⟩
  obtain ⟨_, _, _, body, v, -, -, -, -, htext, -, -, -, hscript, hread, hnearest⟩ :=
    toText_denotes true hpos
  -- the text without its sign is what is laid out
  have hbody : body = "5e-324".toList := by
    rw [hwritten] at htext
    exact (List.cons.inj htext).2.symm
  rw [hbody, hnearest] at hscript
  rw [hwritten, hnearest] at hread
  exact ⟨m, hpos, hwritten, hscript, hread⟩

end Number

end Descramble
