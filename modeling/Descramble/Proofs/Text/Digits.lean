import Descramble.Text.Digits

/-!
# Digits spell a number

The digits of a number in a base have the number as their value, each is a digit of the base, and
there are no more of them than are needed. Written in hexadecimal they are read back.

Main statements: `ofDigitValues_digitsIn`, `isHex_hexPadded`.
-/

namespace Descramble

/-- One digit more at the end multiplies the value by the base and adds the digit. -/
theorem ofDigitValues_append_singleton (base : Nat) (ds : List Nat) (d : Nat) :
    ofDigitValues base (ds ++ [d]) = base * ofDigitValues base ds + d := by
  unfold ofDigitValues
  rw [List.foldl_append]
  rfl

/-- Zeros in front leave the value as it is. -/
theorem ofDigitValues_replicate_zero (base k : Nat) (ds : List Nat) :
    ofDigitValues base (List.replicate k 0 ++ ds) = ofDigitValues base ds := by
  unfold ofDigitValues
  rw [List.foldl_append]
  congr 1
  induction k with
  | zero => rfl
  | succ k ih => rw [List.replicate_succ, List.foldl_cons, Nat.mul_zero, Nat.add_zero, ih]

/-- However many digits are split off, all of them together have the number as their value. -/
theorem ofDigitValues_lastDigits (base bound n : Nat) :
    ofDigitValues base (lastDigits base bound n) = n := by
  -- each round splits off the last digit and goes on with the quotient
  induction bound generalizing n with
  | zero => simp [lastDigits, ofDigitValues]
  | succ bound ih =>
    unfold lastDigits
    split
    · simp [ofDigitValues]
    · rw [ofDigitValues_append_singleton, ih, Nat.div_add_mod]

/-- The digits of a number have it as their value. -/
theorem ofDigitValues_digitsIn (base n : Nat) : ofDigitValues base (digitsIn base n) = n :=
  ofDigitValues_lastDigits base n n

/-- Where the bound is large enough, each digit is below the base. -/
theorem lt_of_mem_lastDigits {base bound n d : Nat} (hbase : 2 ≤ base) (hbound : n ≤ bound)
    (h : d ∈ lastDigits base bound n) : d < base := by
  induction bound generalizing n with
  | zero =>
    obtain rfl := List.mem_singleton.mp h
    omega
  | succ bound ih =>
    unfold lastDigits at h
    split at h
    · obtain rfl := List.mem_singleton.mp h
      assumption
    · rcases List.mem_append.mp h with h | h
      -- the quotient is at most half the number, so the bound goes down fast enough
      · refine ih ?_ h
        have := Nat.div_le_div_left hbase (show 0 < 2 by decide) (a := n)
        omega
      · obtain rfl := List.mem_singleton.mp h
        exact Nat.mod_lt n (by omega)

/-- Each digit of a number is below the base. -/
theorem lt_of_mem_digitsIn {base n d : Nat} (hbase : 2 ≤ base) (h : d ∈ digitsIn base n) :
    d < base :=
  lt_of_mem_lastDigits hbase (Nat.le_refl n) h

/-- A number below a power of the base has as many digits as the exponent at most. -/
theorem length_lastDigits_le {base bound n width : Nat} (hbase : 0 < base) (hwidth : 0 < width)
    (h : n < base ^ width) : (lastDigits base bound n).length ≤ width := by
  induction bound generalizing n width with
  | zero => exact hwidth
  | succ bound ih =>
    unfold lastDigits
    split
    · exact hwidth
    · rename_i hlarge
      -- the last digit is split off, and the quotient fits a width that is one smaller
      obtain ⟨k, rfl⟩ : ∃ k, width = k + 1 := ⟨width - 1, by omega⟩
      rw [List.length_append, List.length_singleton]
      refine Nat.succ_le_succ (ih ?_ ?_)
      · refine Nat.pos_of_ne_zero ?_
        rintro rfl
        rw [Nat.zero_add, Nat.pow_one] at h
        exact hlarge h
      · rw [Nat.div_lt_iff_lt_mul hbase, ← Nat.pow_succ]
        exact h

/-- The decimal digits of a positive number do not begin with zero. -/
theorem head?_toDigits {n : Nat} (h : 0 < n) : (Nat.toDigits 10 n).head? ≠ some '0' := by
  induction n using Nat.strongRecOn with
  | ind n ih =>
    by_cases hlt : n < 10
    · have hchars : ∀ k < 10, Nat.digitChar k = '0' → k = 0 := by decide
      rw [Nat.toDigits_of_lt_base hlt]
      exact fun hzero => absurd (hchars n hlt (Option.some.inj hzero)) (Nat.ne_of_gt h)
    · -- the leading digit is that of a tenth of the number
      rw [Nat.toDigits_of_base_le (by decide) (Nat.not_lt.mp hlt), List.head?_append]
      have htenth := ih (n / 10) (by omega) (by omega)
      cases hdigits : Nat.toDigits 10 (n / 10) with
      | nil => exact absurd hdigits Nat.toDigits_ne_nil
      | cons c cs => rwa [hdigits] at htenth

/-- A decimal digit is the character of its value. -/
theorem digitChar_of_isDigit {c : Char} (h : c.isDigit) :
    c.toNat - '0'.toNat < 10 ∧ Nat.digitChar (c.toNat - '0'.toNat) = c := by
  have hrange : '0'.toNat ≤ c.toNat ∧ c.toNat ≤ '9'.toNat := by
    simpa [Char.isDigit, UInt32.le_iff_toNat_le] using h
  have hchars : ∀ n < 10, Nat.digitChar n = Char.ofNat ('0'.toNat + n) := by decide
  have hlt : c.toNat - '0'.toNat < 10 :=
    Nat.sub_lt_left_of_lt_add hrange.1 (Nat.lt_succ_of_le hrange.2)
  refine ⟨hlt, ?_⟩
  rw [hchars _ hlt, Nat.add_sub_cancel' hrange.1, Char.ofNat_toNat]

/-- Digits after a number that is not zero are the digits of a larger one. -/
theorem toDigits_ofDigitChars_of_pos {cs : List Char} (hcs : ∀ c ∈ cs, c.isDigit) {init : Nat}
    (hinit : 0 < init) :
    Nat.toDigits 10 (Nat.ofDigitChars 10 cs init) = Nat.toDigits 10 init ++ cs := by
  -- by the digits that are still to come, with the number so far as the start
  induction cs generalizing init with
  | nil => rw [Nat.ofDigitChars_nil, List.append_nil]
  | cons c cs ih =>
    obtain ⟨hlt, hchar⟩ := digitChar_of_isDigit (hcs c List.mem_cons_self)
    rw [Nat.ofDigitChars_cons, ih (fun d hd => hcs d (List.mem_cons_of_mem c hd)) (by omega),
      ← Nat.toDigits_append_toDigits (by decide) hinit hlt, Nat.toDigits_of_lt_base hlt, hchar,
      List.append_assoc]
    rfl

/-- Digits without a leading zero are those of the number that they spell. -/
theorem toDigits_ofDigitChars {cs : List Char} (hcs : ∀ c ∈ cs, c.isDigit) (hne : cs ≠ [])
    (hzero : 1 < cs.length → cs.head? ≠ some '0') :
    Nat.toDigits 10 (Nat.ofDigitChars 10 cs 0) = cs := by
  cases cs with
  | nil => exact absurd rfl hne
  | cons c cs =>
    obtain ⟨hlt, hchar⟩ := digitChar_of_isDigit (hcs c List.mem_cons_self)
    rw [Nat.ofDigitChars_cons, Nat.mul_zero, Nat.zero_add]
    cases cs with
    | nil => rw [Nat.ofDigitChars_nil, Nat.toDigits_of_lt_base hlt, hchar]
    | cons d ds =>
      -- with a second digit behind it, the first one is not zero
      have hpos : 0 < c.toNat - '0'.toNat := by
        apply Nat.pos_of_ne_zero
        intro h
        rw [h] at hchar
        exact hzero (by simp) (by rw [← hchar]; rfl)
      rw [toDigits_ofDigitChars_of_pos (fun d hd => hcs d (List.mem_cons_of_mem c hd)) hpos,
        Nat.toDigits_of_lt_base hlt, hchar]
      rfl

/-- Every number has a digit. -/
theorem lastDigits_ne_nil (base bound n : Nat) : lastDigits base bound n ≠ [] := by
  cases bound with
  | zero => exact List.cons_ne_nil n []
  | succ bound =>
    unfold lastDigits
    split
    · exact List.cons_ne_nil n []
    · exact List.append_ne_nil_of_right_ne_nil _ (List.cons_ne_nil _ [])

/-- Only zero begins with the digit zero. -/
theorem eq_zero_of_head?_lastDigits {base bound n : Nat} (hbase : 0 < base)
    (h : (lastDigits base bound n).head? = some 0) : n = 0 := by
  induction bound generalizing n with
  | zero => exact Option.some.inj h
  | succ bound ih =>
    unfold lastDigits at h
    split at h
    · exact Option.some.inj h
    · rename_i hlarge
      obtain ⟨first, rest, hdigits⟩ :=
        List.exists_cons_of_ne_nil (lastDigits_ne_nil base bound (n / base))
      rw [hdigits, List.cons_append] at h
      -- the digits before the last one are those of the quotient, which is not zero
      have hquotient : n / base = 0 := ih (by rw [hdigits]; exact h)
      exact absurd ((Nat.div_eq_zero_iff_lt hbase).mp hquotient) hlarge

/-- A digit below 36 is written as a character that is read as it, and in lower case. -/
theorem digitValue?_digitOf {d : Nat} (h : d < 36) :
    digitValue? (digitOf d) = some d ∧ (digitOf d).isUpper = false := by
  have hall : ∀ d : Fin 36, digitValue? (digitOf d) = some d.val ∧
      (digitOf d).isUpper = false := by
    decide
  exact hall ⟨d, h⟩

/-- A digit of a base up to 36 is written as a character that is read as it. -/
theorem digitIn?_digitOf {base d : Nat} (hbase : base ≤ 36) (h : d < base) :
    digitIn? base (digitOf d) = some d := by
  unfold digitIn?
  rw [(digitValue?_digitOf (Nat.lt_of_lt_of_le h hbase)).1]
  exact Option.filter_eq_some_iff.mpr ⟨rfl, decide_eq_true h⟩

/-- Digits that are written as characters are read back one by one. -/
theorem mapM_digitIn?_digitOf {base : Nat} (hbase : base ≤ 36) {ds : List Nat}
    (h : ∀ d ∈ ds, d < base) : (ds.map digitOf).mapM (digitIn? base) = some ds := by
  induction ds with
  | nil => rfl
  | cons d ds ih =>
    rw [List.map_cons, List.mapM_cons, digitIn?_digitOf hbase (h d List.mem_cons_self),
      ih fun e he => h e (List.mem_cons_of_mem d he)]
    rfl

/-- The characters that are digits of some base. -/
theorem toNat_of_digitIn? {base d : Nat} {c : Char} (h : digitIn? base c = some d) :
    0x30 ≤ c.toNat ∧ c.toNat ≤ 0x7A := by
  have hvalue : digitValue? c = some d := (Option.filter_eq_some_iff.mp h).1
  unfold digitValue? at hvalue
  split at hvalue
  · rename_i hdigit
    have hrange : 48 ≤ c.toNat ∧ c.toNat ≤ 57 := Char.isDigit_iff_toNat.mp hdigit
    omega
  split at hvalue
  · rename_i hrange
    have hfirst : 97 ≤ c.toNat := hrange.1
    have hlast : c.toNat ≤ 122 := hrange.2
    omega
  split at hvalue
  · rename_i hrange
    have hfirst : 65 ≤ c.toNat := hrange.1
    have hlast : c.toNat ≤ 90 := hrange.2
    omega
  · cases hvalue

/-- Characters are all digits if the first one is and the others are. -/
theorem mapM_digitIn?_cons_eq_some_iff {base : Nat} {c : Char} {cs : List Char} {ds : List Nat} :
    (c :: cs).mapM (digitIn? base) = some ds ↔
      ∃ d ds', digitIn? base c = some d ∧ cs.mapM (digitIn? base) = some ds' ∧ d :: ds' = ds := by
  simp only [List.mapM_cons, Option.bind_eq_bind, Option.bind_eq_some_iff, Option.pure_def,
    Option.some.injEq, exists_and_left]

/-- There are as many digits as characters. -/
theorem length_of_mapM_digitIn? {base : Nat} {cs : List Char} {ds : List Nat}
    (h : cs.mapM (digitIn? base) = some ds) : ds.length = cs.length := by
  induction cs generalizing ds with
  | nil =>
    cases h
    rfl
  | cons c cs ih =>
    obtain ⟨d, ds, -, hcs, rfl⟩ := mapM_digitIn?_cons_eq_some_iff.mp h
    rw [List.length_cons, List.length_cons, ih hcs]

/-- A run of digits ends at the first character that is none. -/
theorem digitRun_append {base : Nat} {cs rest : List Char} {ds : List Nat}
    (h : cs.mapM (digitIn? base) = some ds) (hrest : ∀ c ∈ rest.head?, digitIn? base c = none) :
    digitRun base (cs ++ rest) = (ds, rest) := by
  -- along the digits; behind them the run ends
  induction cs generalizing ds with
  | nil =>
    obtain rfl : [] = ds := Option.some.inj h
    cases rest with
    | nil => rfl
    | cons c rest => simp only [List.nil_append, digitRun, hrest c rfl]
  | cons e cs ih =>
    obtain ⟨d, ds, he, hcs, rfl⟩ := mapM_digitIn?_cons_eq_some_iff.mp h
    simp only [List.cons_append, digitRun, he, ih hcs]

/-- A run of digits is taken off the front of a text. -/
theorem exists_digits_of_digitRun (base : Nat) (cs : List Char) :
    ∃ digits, cs = digits ++ (digitRun base cs).2 ∧
      digits.mapM (digitIn? base) = some (digitRun base cs).1 := by
  induction cs with
  | nil => exact ⟨[], rfl, rfl⟩
  | cons c cs ih =>
    unfold digitRun
    cases hc : digitIn? base c with
    | none => exact ⟨[], rfl, rfl⟩
    | some d =>
      obtain ⟨digits, hcs, hdigits⟩ := ih
      refine ⟨c :: digits, congrArg (c :: ·) hcs, ?_⟩
      exact mapM_digitIn?_cons_eq_some_iff.mpr ⟨d, _, hc, hdigits, rfl⟩

/-- The digits, in either case, spell a number in hexadecimal. -/
def IsHex (n : Nat) (digits : List Char) : Prop :=
  (digits.mapM (digitIn? 16)).map (ofDigitValues 16) = some n

/-- Digits spell a number if each of them is read and their value is the number. -/
theorem isHex_iff {n : Nat} {digits : List Char} :
    IsHex n digits ↔ ∃ ds, digits.mapM (digitIn? 16) = some ds ∧ ofDigitValues 16 ds = n :=
  Option.map_eq_some_iff

/-- Padding adds zeros in front of the digits. -/
theorem hexPadded_eq_map (width n : Nat) : hexPadded width n =
    (List.replicate (width - (digitsIn 16 n).length) 0 ++ digitsIn 16 n).map digitOf := by
  simp only [hexPadded, List.map_append, List.map_replicate, List.length_map]
  rfl

/-- A number that fits a width is written with that many digits. -/
theorem length_hexPadded {width n : Nat} (hwidth : 0 < width) (h : n < 16 ^ width) :
    (hexPadded width n).length = width := by
  have hlength : (digitsIn 16 n).length ≤ width := length_lastDigits_le (by decide) hwidth h
  rw [hexPadded_eq_map, List.length_map, List.length_append, List.length_replicate]
  omega

/-- A number that is written in hexadecimal is spelled by what is written, whatever the width. -/
theorem isHex_hexPadded (width n : Nat) : IsHex n (hexPadded width n) := by
  rw [hexPadded_eq_map, isHex_iff]
  refine ⟨_, mapM_digitIn?_digitOf (by decide) fun d hd => ?_, ?_⟩
  · rcases List.mem_append.mp hd with hd | hd
    · rw [List.eq_of_mem_replicate hd]
      decide
    · exact lt_of_mem_digitsIn (by decide) hd
  -- the zeros in front of the digits count nothing
  · rw [ofDigitValues_replicate_zero, ofDigitValues_digitsIn]

/-! ## Runs of digits -/

/-- A run of digits ends where the text goes on with something else. -/
theorem takeWhile_digits {ds rest : List Char} (hds : ∀ c ∈ ds, c.isDigit)
    (hrest : ∀ c ∈ rest.head?, c.isDigit = false) :
    (ds ++ rest).takeWhile Char.isDigit = ds ∧ (ds ++ rest).dropWhile Char.isDigit = rest := by
  rw [List.takeWhile_append_of_pos hds, List.dropWhile_append_of_pos hds]
  cases rest with
  | nil => exact ⟨List.append_nil _, rfl⟩
  | cons c rest =>
    have hc := hrest c rfl
    rw [List.takeWhile_cons_of_neg (by rw [hc]; decide), List.dropWhile_cons_of_neg
      (by rw [hc]; decide)]
    exact ⟨List.append_nil _, rfl⟩

/-- A run of digits consists of digits. -/
theorem isDigit_of_mem_takeWhile {cs : List Char} :
    ∀ c ∈ cs.takeWhile Char.isDigit, c.isDigit :=
  List.all_eq_true.mp List.all_takeWhile

end Descramble
