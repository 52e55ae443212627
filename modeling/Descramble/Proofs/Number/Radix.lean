import Descramble.Number.Radix
import Descramble.Proofs.Number.Numeral
import Descramble.Proofs.Text.Digits
import Mathlib.Data.List.Induction
import Mathlib.Data.Nat.Digits.Defs

/-!
# Whole numbers in any base are read back

The text of a whole number in a base is its sign and its digits in that base, with no zero in front.
Digits are read one by one, each step rounded; as long as the number that they spell is exact, no
step needs rounding, so that number is what is read, whatever comes after the digits.

Main statements: `readInBase_of_startsWithInt` and `exists_toTextIn?`.
-/

namespace Descramble

variable {base n : Nat} {ds : List Nat} {text rest : List Char} {negative : Bool} {i : Int}

/-- The text of a natural number in a base: its digits, in lower case, and no zero before others. -/
structure IsNumeralIn (base n : Nat) (text : List Char) : Prop where
  spells : ∃ ds, text.mapM (digitIn? base) = some ds ∧ ofDigitValues base ds = n
  lowerCase : ∀ c ∈ text, c.isUpper = false
  ne_nil : text ≠ []
  noZero : text.head? = some '0' → text = ['0']

/-- The text of a whole number in a base: a minus if it is negative, and then its size. -/
def IsSignedNumeralIn (base : Nat) (i : Int) (text : List Char) : Prop :=
  ∃ body, text = (if i < 0 then ['-'] else []) ++ body ∧ IsNumeralIn base i.natAbs body

/-- A text with a whole number of the base at its front: blanks, a sign, digits, and then no further
    digit. In base 16 the digits do not begin with the mark of hexadecimal digits, which would be
    passed over. -/
inductive StartsWithInt (base : Nat) : List Char → Bool → Nat → Prop
  | parts {blanks sign digits rest : List Char} {negative : Bool} {ds : List Nat}
      (hblanks : ∀ c ∈ blanks, isBlank c) (hsign : IsSign sign negative) (hne : digits ≠ [])
      (hdigits : digits.mapM (digitIn? base) = some ds)
      (hrest : ∀ c ∈ rest.head?, digitIn? base c = none)
      (hmark : base = 16 →
        ∀ mark tail, digits ++ rest = '0' :: mark :: tail → mark ≠ 'x' ∧ mark ≠ 'X') :
      StartsWithInt base (blanks ++ (sign ++ (digits ++ rest))) negative (ofDigitValues base ds)

/-- The digits of a number are its text in the base. -/
theorem isNumeralIn_digitsIn (htwo : 2 ≤ base) (hmost : base ≤ 36) (n : Nat) :
    IsNumeralIn base n ((digitsIn base n).map digitOf) where
  spells := ⟨_, mapM_digitIn?_digitOf hmost fun d hd => lt_of_mem_digitsIn htwo hd,
    ofDigitValues_digitsIn base n⟩
  lowerCase := by
    intro c hc
    obtain ⟨d, hd, rfl⟩ := List.mem_map.mp hc
    have hlt := lt_of_mem_digitsIn htwo hd
    exact (digitValue?_digitOf (by omega)).2
  ne_nil := by
    rw [Ne, List.map_eq_nil_iff]
    exact lastDigits_ne_nil base n n
  -- a zero in front is the only digit there is
  noZero := by
    intro hhead
    rw [List.head?_map, Option.map_eq_some_iff] at hhead
    obtain ⟨d, hd, hzero⟩ := hhead
    have hlt := lt_of_mem_digitsIn htwo (List.mem_of_mem_head? hd)
    have hvalue := (digitValue?_digitOf (d := d) (by omega)).1
    rw [hzero] at hvalue
    obtain rfl : 0 = d := Option.some.inj hvalue
    rw [eq_zero_of_head?_lastDigits (by omega) hd]
    rfl

/-! ## There is one text -/

/-- A digit in lower case is the character that its value is written as. -/
theorem eq_digitOf_of_digitIn? {c : Char} {d : Nat} (h : digitIn? base c = some d)
    (hlower : c.isUpper = false) : c = digitOf d := by
  have hvalue : digitValue? c = some d := (Option.filter_eq_some_iff.mp h).1
  unfold digitValue? at hvalue
  -- a decimal digit, a small letter or a capital one
  split at hvalue
  · rename_i hdigit
    have hrange : 48 ≤ c.toNat ∧ c.toNat ≤ 57 := Char.isDigit_iff_toNat.mp hdigit
    obtain rfl : c.toNat - 48 = d := Option.some.inj hvalue
    have hcode : '0'.toNat + (c.toNat - 48) = c.toNat := Nat.add_sub_cancel' hrange.1
    unfold digitOf
    rw [if_pos (by omega), hcode, Char.ofNat_toNat]
  split at hvalue
  · rename_i hletter
    have hfirst : 97 ≤ c.toNat := hletter.1
    obtain rfl : c.toNat - 97 + 10 = d := Option.some.inj hvalue
    have hcode : 'a'.toNat + (c.toNat - 97 + 10 - 10) = c.toNat := by
      rw [Nat.add_sub_cancel]
      exact Nat.add_sub_cancel' hfirst
    unfold digitOf
    rw [if_neg (by omega), hcode, Char.ofNat_toNat]
  split at hvalue
  · rename_i hletter
    have hupper : c.isUpper = true := decide_eq_true hletter
    exact Bool.noConfusion (hlower.symm.trans hupper)
  · cases hvalue

/-- A text of digits in lower case is its digits written out. -/
theorem eq_map_digitOf (h : text.mapM (digitIn? base) = some ds)
    (hlower : ∀ c ∈ text, c.isUpper = false) : text = ds.map digitOf := by
  induction text generalizing ds with
  | nil =>
    obtain rfl : [] = ds := Option.some.inj h
    rfl
  | cons c cs ih =>
    obtain ⟨d, ds, hc, hcs, rfl⟩ := mapM_digitIn?_cons_eq_some_iff.mp h
    rw [List.map_cons, ← eq_digitOf_of_digitIn? hc (hlower c List.mem_cons_self),
      ← ih hcs fun e he => hlower e (List.mem_cons_of_mem c he)]

/-- Every digit of a text is below the base. -/
theorem lt_of_mapM_digitIn? (h : text.mapM (digitIn? base) = some ds) {d : Nat} (hd : d ∈ ds) :
    d < base := by
  induction text generalizing ds with
  | nil =>
    obtain rfl : [] = ds := Option.some.inj h
    cases hd
  | cons c cs ih =>
    obtain ⟨e, ds, hc, hcs, rfl⟩ := mapM_digitIn?_cons_eq_some_iff.mp h
    rcases List.mem_cons.mp hd with rfl | hd
    · exact of_decide_eq_true (Option.filter_eq_some_iff.mp hc).2
    · exact ih hcs hd

/-- Digits from the last one on have the same value as in their order. -/
theorem ofDigits_reverse (base : Nat) (ds : List Nat) :
    Nat.ofDigits base ds.reverse = ofDigitValues base ds := by
  induction ds using List.reverseRecOn with
  | nil => rfl
  | append_singleton ds d ih =>
    rw [List.reverse_append, List.reverse_singleton, List.singleton_append, Nat.ofDigits_cons, ih,
      ofDigitValues_append_singleton, Nat.add_comm]

/-- Without a zero in front, the digits are those that the value has. -/
theorem reverse_eq_digits (hbase : 1 < base) (hds : ∀ d ∈ ds, d < base) (hhead : ds.head? ≠ some 0) :
    ds.reverse = Nat.digits base (ofDigitValues base ds) := by
  rw [← ofDigits_reverse, Nat.digits_ofDigits base hbase]
  · exact fun d hd => hds d (List.mem_reverse.mp hd)
  · intro hne hlast
    apply hhead
    rw [List.getLast_reverse] at hlast
    rw [← hlast, List.head?_eq_some_head]

/-- The text of a number is determined: it is the digits of the number. -/
theorem IsNumeralIn.eq_digits (hbase : 1 < base) (h : IsNumeralIn base n text) :
    text = if n = 0 then ['0'] else (Nat.digits base n).reverse.map digitOf := by
  obtain ⟨ds, hds, rfl⟩ := h.spells
  have htext := eq_map_digitOf hds h.lowerCase
  by_cases hhead : ds.head? = some 0
  · -- a zero in front is all of the text
    have hzero : text = ['0'] := by
      apply h.noZero
      rw [htext, List.head?_map, hhead]
      rfl
    have hvalue : ofDigitValues base ds = 0 := by
      obtain ⟨others, rfl⟩ := List.head?_eq_some_iff.mp hhead
      rw [hzero, List.map_cons] at htext
      rw [List.map_eq_nil_iff.mp (List.cons.inj htext).2.symm]
      rfl
    rw [if_pos hvalue, hzero]
  · have hdigits := reverse_eq_digits hbase (fun d hd => lt_of_mapM_digitIn? hds hd) hhead
    have hvalue : ofDigitValues base ds ≠ 0 := by
      intro hvalue
      rw [hvalue, Nat.digits_zero, List.reverse_eq_nil_iff] at hdigits
      rw [hdigits] at htext
      exact h.ne_nil htext
    rw [if_neg hvalue, ← hdigits, List.reverse_reverse]
    exact htext

/-- A natural number has one text in a base. -/
theorem IsNumeralIn.unique {text' : List Char} (hbase : 1 < base) (h : IsNumeralIn base n text)
    (h' : IsNumeralIn base n text') : text = text' :=
  (h.eq_digits hbase).trans (h'.eq_digits hbase).symm

/-- A whole number has one text in a base. -/
theorem IsSignedNumeralIn.unique {text' : List Char} (hbase : 1 < base)
    (h : IsSignedNumeralIn base i text) (h' : IsSignedNumeralIn base i text') : text = text' := by
  obtain ⟨body, rfl, hbody⟩ := h
  obtain ⟨body', rfl, hbody'⟩ := h'
  rw [hbody.unique hbase hbody']

/-- The text of a whole number has the number at its front. -/
theorem IsSignedNumeralIn.startsWithInt (h : IsSignedNumeralIn base i text) :
    StartsWithInt base text (decide (i < 0)) i.natAbs := by
  obtain ⟨body, rfl, hbody⟩ := h
  obtain ⟨ds, hds, hvalue⟩ := hbody.spells
  have hsign : IsSign (if i < 0 then ['-'] else []) (decide (i < 0)) := by
    split
    · rename_i hneg
      exact decide_eq_true hneg ▸ .minus
    · rename_i hneg
      exact decide_eq_false hneg ▸ .none
  -- no digit of base 16 is an `x`
  have hmark : base = 16 →
      ∀ mark tail, body ++ [] = '0' :: mark :: tail → mark ≠ 'x' ∧ mark ≠ 'X' := by
    rintro rfl mark tail heq
    rw [List.append_nil] at heq
    rw [heq] at hds
    obtain ⟨_, _, -, htail, -⟩ := mapM_digitIn?_cons_eq_some_iff.mp hds
    obtain ⟨_, _, hdigit, -, -⟩ := mapM_digitIn?_cons_eq_some_iff.mp htail
    constructor <;> rintro rfl <;> exact absurd hdigit nofun
  have hparts : StartsWithInt base ([] ++ ((if i < 0 then ['-'] else []) ++ (body ++ [])))
      (decide (i < 0)) (ofDigitValues base ds) :=
    .parts nofun hsign hbody.ne_nil hds nofun hmark
  rwa [List.append_nil, List.nil_append, hvalue] at hparts

namespace Number

/-! ## Exact sums -/

/-- More digits make no smaller number. -/
theorem le_foldl_digits (hbase : 0 < base) (ds : List Nat) (n : Nat) :
    n ≤ ds.foldl (fun n d => base * n + d) n := by
  induction ds generalizing n with
  | nil => exact Nat.le_refl n
  | cons d ds ih =>
    rw [List.foldl_cons]
    have hstep : n ≤ base * n := Nat.le_mul_of_pos_left n hbase
    exact Nat.le_trans (by omega) (ih (base * n + d))

/-- While the sum of the digits is exact, so is every sum on the way to it. -/
theorem foldl_ofNat (hbase : 0 < base) (hmost : base ≤ 36)
    (h : ds.foldl (fun n d => base * n + d) n ≤ maxExact) :
    ds.foldl (fun x d => (x.mul (ofNat base)).add (ofNat d)) (ofNat n) =
      ofNat (ds.foldl (fun n d => base * n + d) n) := by
  unfold maxExact at h
  induction ds generalizing n with
  | nil => rw [List.foldl_nil, List.foldl_nil]
  | cons d ds ih =>
    rw [List.foldl_cons] at h
    -- the sums only grow, so the bound of the last one is a bound of this one
    have hsum := Nat.le_trans (le_foldl_digits hbase ds (base * n + d)) h
    have hn : n ≤ base * n := Nat.le_mul_of_pos_left n hbase
    have hstep : ((ofNat n).mul (ofNat base)).add (ofNat d) = ofNat (base * n + d) := by
      rw [ofNat_mul (by omega) (by omega), Nat.mul_comm, ofNat_add (by omega) (by omega)]
    rw [List.foldl_cons, List.foldl_cons, hstep, ih h]

/-- Digits that spell an exact number are summed up exactly. -/
theorem ofDigits_eq_ofNat (hbase : 0 < base) (hmost : base ≤ 36)
    (h : ofDigitValues base ds ≤ maxExact) : ofDigits base ds = ofNat (ofDigitValues base ds) := by
  unfold ofDigits
  rw [← ofNat_zero]
  exact foldl_ofNat hbase hmost h

/-! ## Reading -/

/-- The reader takes off blanks, a sign and the mark of a base, and then the digits as far as they
    go. -/
theorem readInBase_eq (asked : Nat) (cs : List Char) :
    readInBase asked cs =
      let (negative, body) := splitSign (trimFront cs)
      let (base, body) := chooseBase asked body
      if base < 2 ∨ 36 < base then .nan
      else
        let ds := (digitRun base body).1
        if ds.isEmpty then .nan
        else if negative then (ofDigits base ds).neg else ofDigits base ds :=
  rfl

/-- A base other than none is kept, unless the text marks the digits as hexadecimal. -/
theorem chooseBase_of_unmarked (htwo : 2 ≤ base)
    (hmark : base = 16 → ∀ mark tail, rest = '0' :: mark :: tail → mark ≠ 'x' ∧ mark ≠ 'X') :
    chooseBase base rest = (base, rest) := by
  unfold chooseBase
  -- the mark is looked for only in base 16, and there it is ruled out
  split
  · rename_i hasked
    have hnone : afterHexMark? rest = none := by
      unfold afterHexMark?
      split
      · rename_i tail
        exact absurd rfl (hmark (by omega) 'x' tail rfl).1
      · rename_i tail
        exact absurd rfl (hmark (by omega) 'X' tail rfl).2
      · rfl
    rw [hnone]
    dsimp only
    rw [if_neg (by omega)]
  · rfl

/-- A digit is neither blank nor a sign. -/
theorem not_blank_of_digitIn? {d : Nat} {c : Char} (h : digitIn? base c = some d) :
    isBlank c = false ∧ c ≠ '-' ∧ c ≠ '+' := by
  have hrange := toNat_of_digitIn? h
  refine ⟨not_isBlank_of_print (by omega), ?_, ?_⟩ <;> rintro rfl <;>
    exact absurd hrange (by decide)

/-- A whole number at the front of a text is read if it is exact. -/
theorem readInBase_of_startsWithInt (htwo : 2 ≤ base) (hmost : base ≤ 36)
    (h : StartsWithInt base text negative n) (hexact : n ≤ maxExact) :
    readInBase base text = if negative then (ofNat n).neg else ofNat n := by
  cases h with
  | @parts blanks sign digits rest _ ds hblanks hsign hne hdigits hrest hmark =>
    obtain ⟨c, cs, rfl⟩ := List.exists_cons_of_ne_nil hne
    obtain ⟨d, ds', hc, -, rfl⟩ := mapM_digitIn?_cons_eq_some_iff.mp hdigits
    -- the first digit ends the blanks, and the sign if there is one
    obtain ⟨hblank, hminus, hplus⟩ := not_blank_of_digitIn? hc
    have htrim : trimFront (blanks ++ (sign ++ (c :: cs ++ rest))) =
        sign ++ (c :: cs ++ rest) := by
      apply trimFront_append hblanks
      intro e he
      cases hsign with
      | none => exact Option.some.inj he ▸ hblank
      | plus => exact Option.some.inj he ▸ (by decide)
      | minus => exact Option.some.inj he ▸ (by decide)
    have hsplit : splitSign (sign ++ (c :: cs ++ rest)) = (negative, c :: cs ++ rest) := by
      apply splitSign_append hsign
      intro e he
      exact Option.some.inj he ▸ ⟨hminus, hplus⟩
    -- the digits go on up to the rest, which begins with none
    have hrun := digitRun_append hdigits hrest
    rw [readInBase_eq, htrim, hsplit]
    dsimp only
    rw [chooseBase_of_unmarked htwo hmark]
    dsimp only
    rw [if_neg (by omega), hrun, List.isEmpty_cons, if_neg Bool.false_ne_true,
      ofDigits_eq_ofNat (by omega) hmost hexact]

/-! ## Writing -/

/-- An exact whole number is written as its sign and its digits. -/
theorem toTextIn?_eq {x : Number} (hwhole : x.isWhole = true)
    (htrunc : x.truncate? = some i) (hexact : i.natAbs ≤ maxExact) :
    x.toTextIn? base = some (String.ofList
      ((if i < 0 then ['-'] else []) ++ (digitsIn base i.natAbs).map digitOf)) := by
  unfold toTextIn?
  rw [if_pos hwhole, htrunc]
  dsimp only
  rw [if_pos hexact]
  split <;> rfl

/-- A number that equals an exact whole number is written as no more than its sign and its digits,
    and that text is read as the whole number. -/
theorem exists_toTextIn? {x : Number} (htwo : 2 ≤ base) (hmost : base ≤ 36)
    (hexact : i.natAbs ≤ maxExact) (hx : x.equals (ofInt i) = true) :
    ∃ t, x.toTextIn? base = some t ∧ IsSignedNumeralIn base i t.toList ∧
      readInBase base t.toList = ofInt i := by
  have hsmall : i.natAbs ≤ 2 ^ 53 := Nat.le_trans hexact (Nat.sub_le _ _)
  obtain ⟨hwhole, htrunc⟩ := (equals_ofInt_iff hsmall).mp hx
  have hnumeral : IsSignedNumeralIn base i
      ((if i < 0 then ['-'] else []) ++ (digitsIn base i.natAbs).map digitOf) :=
    ⟨_, rfl, isNumeralIn_digitsIn htwo hmost i.natAbs⟩
  refine ⟨_, toTextIn?_eq hwhole htrunc hexact, ?_⟩
  rw [String.toList_ofList]
  -- its own text has the number at its front
  have hread := readInBase_of_startsWithInt htwo hmost hnumeral.startsWithInt hexact
  simp only [decide_eq_true_eq] at hread
  exact ⟨hnumeral, hread.trans (ofInt_eq i).symm⟩

end Number

end Descramble
