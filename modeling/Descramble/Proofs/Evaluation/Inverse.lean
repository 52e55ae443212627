import Descramble.Proofs.Evaluation.Search
import Descramble.Proofs.Number.Radix
import Descramble.Proofs.Text.Escape

/-!
# Functions that undo one another

What writes a whole number in a base is undone by what reads one in that base. What makes a
character of its code undoes what gives the code of a character as far as codes have 16 bits: of a
longer one it takes the last 16.

Main statements: `Store.parseInt_undoes_toText` and `Store.fromCharCode_charCodes`.
-/

namespace Descramble

open Descramble.Action

/-! ## Numbers in a base -/

namespace Store

variable {s : Store} {base : Nat}

/-- Reading a text in a base is reading its characters in the base as a 32-bit number. -/
theorem runNative_parseInt (this : Value) (t : String) (r : Number) :
    runNative .parseInt this [.text t, .number r] s =
      .done (.ok (.number (.readInBase r.toUInt32.toNat t.toList))) s :=
  rfl

/-- Writing a number in a base is taking its text in that base. -/
theorem runNative_toText (x r : Number) :
    runNative .toText (.number x) [.number r] s =
      .done (.ok (.text (s.toTextIn (.number x) (.number r)))) s :=
  rfl

/-- A base is unchanged as a 32-bit number. -/
theorem toNat_toUInt32_base (hmost : base ≤ 36) : (Number.ofNat base).toUInt32.toNat = base := by
  rw [Number.toNat_toUInt32 (Number.truncate?_ofNat (by omega)).2]
  omega

/-- For a base other than ten, the text of a number is its text in the base. -/
theorem toTextIn_of_toTextIn? {x : Number} {t : String} (htwo : 2 ≤ base) (hmost : base ≤ 36)
    (hten : base ≠ 10) (ht : x.toTextIn? base = some t) :
    s.toTextIn (.number x) (.number (.ofNat base)) = t := by
  obtain ⟨hwhole, htrunc⟩ := Number.truncate?_ofNat (n := base) (by omega)
  obtain ⟨hwholeTwo, htruncTwo⟩ := Number.truncate?_ofNat (n := 2) (by decide)
  -- the base passes the tests for being too small, too large or ten
  have hlow : (Number.ofNat base).lt (.ofNat 2) = false := by
    rw [← Bool.not_eq_true, Number.ofNat_lt_iff_of_truncate? (by omega) hwholeTwo htruncTwo]
    omega
  have hhigh : (Number.ofNat 36).lt (.ofNat base) = false := by
    rw [← Bool.not_eq_true, Number.ofNat_lt_iff_of_truncate? (by decide) hwhole htrunc]
    omega
  -- base ten would be left to the shortest decimal
  have hne : (Number.ofNat base).equals (.ofNat 10) = false := by
    rw [← Bool.not_eq_true, Number.equals_ofNat_iff (by decide), htrunc]
    rintro ⟨-, heq⟩
    exact hten (Int.ofNat.inj (Option.some.inj heq))
  unfold toTextIn
  dsimp only
  rw [hlow, hhigh, hne, htrunc]
  exact congrArg (Option.getD · _) ht

/-- A whole number that is exact is written in a base as its sign and its digits, and nothing else
    is, and read from there; and from every text with an exact whole number at its front that number
    is read, whatever comes after it. -/
theorem parseInt_undoes_toText (s : Store) (htwo : 2 ≤ base) (hmost : base ≤ 36) (this : Value) :
    (∀ (x : Number) (i : Int), i.natAbs ≤ Number.maxExact → x.equals (.ofInt i) = true →
      ∃ t, x.toTextIn? base = some t ∧
        (∀ text, IsSignedNumeralIn base i text ↔ text = t.toList) ∧
        (base ≠ 10 → runNative .toText (.number x) [.number (.ofNat base)] s =
          .done (.ok (.text t)) s) ∧
        runNative .parseInt this [.text t, .number (.ofNat base)] s =
          .done (.ok (.number (.ofInt i))) s) ∧
    ∀ (t : String) (negative : Bool) (n : Nat), StartsWithInt base t.toList negative n →
      n ≤ Number.maxExact →
        runNative .parseInt this [.text t, .number (.ofNat base)] s =
          .done (.ok (.number (if negative then (Number.ofNat n).neg else .ofNat n))) s := by
  constructor
  · intro x i hexact hx
    obtain ⟨t, ht, hnumeral, hread⟩ := Number.exists_toTextIn? htwo hmost hexact hx
    -- the text is a signed numeral, and those of one number are all the same
    refine ⟨t, ht, fun text => ⟨fun h => h.unique htwo hnumeral, fun h => h ▸ hnumeral⟩, ?_, ?_⟩
    · intro hten
      rw [runNative_toText, toTextIn_of_toTextIn? htwo hmost hten ht]
    · rw [runNative_parseInt, toNat_toUInt32_base hmost, hread]
  · intro t negative n hstart hexact
    rw [runNative_parseInt, toNat_toUInt32_base hmost,
      Number.readInBase_of_startsWithInt htwo hmost hstart hexact]

/-- The largest exact number, negative, in the largest base, and the start of a text in that
    base. -/
theorem parseInt_undoes_toText_largest :
    (Number.ofInt (-(2 ^ 53 - 1))).toTextIn? 36 = some "-2gosa7pa2gv" ∧
      runNative .parseInt .undefined [.text "-2gosa7pa2gv", .number (.ofNat 36)] .empty =
        .done (.ok (.number (.ofInt (-(2 ^ 53 - 1))))) .empty ∧
      runNative .parseInt .undefined [.text " +zz-", .number (.ofNat 36)] .empty =
        .done (.ok (.number (.ofNat 1295))) .empty := by
  obtain ⟨hnumbers, htexts⟩ :=
    parseInt_undoes_toText .empty (show 2 ≤ 36 by decide) (by decide) .undefined
  obtain ⟨t, ht, -, -, hread⟩ := hnumbers (.ofInt (-(2 ^ 53 - 1))) (-(2 ^ 53 - 1)) (by decide)
    (by decide +kernel)
  have hwritten : (Number.ofInt (-(2 ^ 53 - 1))).toTextIn? 36 = some "-2gosa7pa2gv" := by
    decide +kernel
  obtain rfl : t = "-2gosa7pa2gv" := Option.some.inj (ht.symm.trans hwritten)
  have hdigits : ['z', 'z'].mapM (digitIn? 36) = some [35, 35] := by decide
  have hstart : StartsWithInt 36 ([' '] ++ (['+'] ++ (['z', 'z'] ++ ['-']))) false 1295 :=
    .parts (by decide) .plus (by decide) hdigits (by decide) nofun
  have hexact : 1295 ≤ Number.maxExact := by
    unfold Number.maxExact
    omega
  have hread' := htexts " +zz-" false 1295 hstart hexact
  rw [if_neg Bool.false_ne_true] at hread'
  exact ⟨hwritten, hread, hread'⟩

end Store

/-! ## Codes of characters -/

open Descramble.Reader (toNat_le)

/-- The character whose code is the last 16 bits of another one's. -/
def lowChar (c : Char) : Char :=
  scalarOf (c.toNat % 2 ^ 16)

/-- A text with every character replaced by the one of the last 16 bits of its code. -/
def lowText (t : String) : String :=
  String.ofList (t.toList.map lowChar)

/-- The codes of the characters of a text. -/
def charCodes (t : String) : List Value :=
  t.toList.map fun c => .number (.ofNat c.toNat)

/-- A character is kept exactly if its code has 16 bits. -/
theorem lowChar_eq_iff (c : Char) : lowChar c = c ↔ c.toNat < 2 ^ 16 := by
  constructor
  · intro h
    rw [← h]
    -- what stands in for a surrogate has a code of 16 bits as well
    by_cases hvalid : (c.toNat % 2 ^ 16).isValidChar
    · rw [lowChar, toNat_scalarOf hvalid]
      exact Nat.mod_lt _ (by decide)
    · rw [lowChar, scalarOf, if_neg hvalid]
      decide
  · intro h
    rw [lowChar, Nat.mod_eq_of_lt h, scalarOf_toNat]

/-- A text is kept exactly if all codes of its characters have 16 bits. -/
theorem lowText_eq_iff (t : String) : lowText t = t ↔ ∀ c ∈ t.toList, c.toNat < 2 ^ 16 := by
  -- a list is unchanged under a map that changes none of its members
  have hchars : t.toList.map lowChar = t.toList ↔ ∀ c ∈ t.toList, lowChar c = c := by
    simpa using List.map_inj_left (l := t.toList) (f := lowChar) (g := id)
  rw [← String.toList_inj, lowText, String.toList_ofList, hchars]
  simp only [lowChar_eq_iff]

/-- The character of a code is that of its last 16 bits. -/
theorem toChar_ofNat_toNat (c : Char) : (Number.ofNat c.toNat).toChar = lowChar c := by
  have hle := toNat_le c
  have hbits : c.toNat % 2 ^ 32 = c.toNat := by omega
  unfold Number.toChar lowChar
  rw [Number.toNat_toUInt32 (Number.truncate?_ofNat (by omega)).2, hbits]

namespace Store

variable {args : List Value} {t : String} {i : Nat} {c : Char}

/-- A method picks out the character at the place of its argument. -/
theorem PicksAt.of_offsetOf {m : TextMethod} {found : Char → Value} {missing : Value}
    (h : s.PicksAt t m found missing) (hat : s.offsetOf (argument args 0) = .at i)
    (hc : t.toList[i]? = some c) :
    runNative (.text m) (.text t) args s = .done (.ok (found c)) s := by
  -- a place is picked out, and it can only be this one; or none is, but this one is there
  rcases h args with ⟨j, d, hj, hd, hrun⟩ | ⟨hnone, -⟩
  · obtain rfl : i = j := Int.ofNat.inj (Offset.at.inj (hat.symm.trans hj))
    obtain rfl : c = d := Option.some.inj (hc.symm.trans hd)
    exact hrun
  · have hlt := (List.getElem?_eq_some_iff.mp hc).1
    exact absurd (hnone i hat) (Nat.not_le.mpr hlt)

/-- The method for codes makes one character of each argument. -/
theorem runNative_fromCharCode (s : Store) (this : Value) (args : List Value) :
    runNative .fromCharCode this args s =
      .done (.ok (.text (String.ofList (args.map fun v => (s.numberOf v).toChar)))) s :=
  rfl

/-- The codes of characters give what their last 16 bits stand for. -/
theorem map_toChar (s : Store) (cs : List Char) :
    (cs.map fun c => Value.number (.ofNat c.toNat)).map (fun v => (s.numberOf v).toChar) =
      cs.map lowChar := by
  have hnumber (n : Number) : s.numberOf (.number n) = n := rfl
  rw [List.map_map]
  apply List.map_congr_left
  intro c _
  rw [Function.comp_apply, hnumber, toChar_ofNat_toNat]

/-- The code of a character of a text gives the character back as far as its last 16 bits do, and so
    do all codes the text, with one call for each code or one for all of them. It is the text again
    exactly if no code is longer. -/
theorem fromCharCode_charCodes (s : Store) (t : String) (this : Value) :
    (∀ args i c, s.offsetOf (argument args 0) = .at (i : Nat) → t.toList[i]? = some c →
      runNative (.text .charAt) (.text t) args s = .done (.ok (.text (String.singleton c))) s ∧
      ∃ code, (charCodes t)[i]? = some code ∧
        runNative (.text .charCodeAt) (.text t) args s = .done (.ok code) s ∧
        runNative .fromCharCode this [code] s =
          .done (.ok (.text (String.singleton (lowChar c)))) s ∧
        (lowChar c = c ↔ c.toNat < 2 ^ 16)) ∧
    runNative .fromCharCode this (charCodes t) s = .done (.ok (.text (lowText t))) s ∧
    (∃ text : Value → String, (∀ code ∈ charCodes t,
      runNative .fromCharCode this [code] s = .done (.ok (.text (text code))) s) ∧
        joined "" ((charCodes t).map text) = lowText t) ∧
    (lowText t = t ↔ ∀ c ∈ t.toList, c.toNat < 2 ^ 16) := by
  refine ⟨?_, ?_, ?_, lowText_eq_iff t⟩
  · intro args i c hat hc
    refine ⟨(textLaws s t).charAt.of_offsetOf hat hc, .number (.ofNat c.toNat), ?_,
      (textLaws s t).charCodeAt.of_offsetOf hat hc, ?_, lowChar_eq_iff c⟩
    · rw [charCodes, List.getElem?_map, hc, Option.map_some]
    · have hone : [Value.number (.ofNat c.toNat)].map (fun v => (s.numberOf v).toChar) =
          [lowChar c] := s.map_toChar [c]
      rw [runNative_fromCharCode, hone, String.singleton_eq_ofList]
  · rw [runNative_fromCharCode, charCodes, map_toChar, lowText]
  -- one call for each code, and their texts put together
  · refine ⟨fun code => String.singleton (s.numberOf code).toChar, ?_, ?_⟩
    · intro code _
      rw [runNative_fromCharCode, List.map_singleton, ← String.singleton_eq_ofList]
    · have hsingle : (fun code => String.singleton (s.numberOf code).toChar) =
          String.singleton ∘ fun code => (s.numberOf code).toChar := rfl
      rw [hsingle, ← List.map_map, charCodes, map_toChar, joined_singletons, lowText]

/-- A text of two characters with codes of 16 bits. -/
theorem fromCharCode_charCodes_latin :
    ∃ code, runNative (.text .charCodeAt) (.text "éa") [.number .zero] .empty =
        .done (.ok code) .empty ∧
      runNative .fromCharCode .undefined [code] .empty = .done (.ok (.text "é")) .empty ∧
      runNative .fromCharCode .undefined (charCodes "éa") .empty = .done (.ok (.text "éa")) .empty := by
  obtain ⟨hchar, hall, -, hkept⟩ := fromCharCode_charCodes .empty "éa" .undefined
  obtain ⟨-, code, -, hcode, hback, hlow⟩ :=
    hchar [.number .zero] 0 'é' (offsetOf_zero .empty) (by decide)
  -- both codes are short, so both texts are what they were
  rw [hlow.mpr (by decide)] at hback
  rw [hkept.mpr (by decide)] at hall
  exact ⟨code, hcode, hback, hall⟩

/-- A character whose code has 17 bits comes back as another one. -/
theorem fromCharCode_charCodeAt_emoji :
    runNative (.text .charAt) (.text "😀") [.number .zero] .empty =
        .done (.ok (.text "😀")) .empty ∧
      runNative (.text .charCodeAt) (.text "😀") [.number .zero] .empty =
        .done (.ok (.number (.ofNat '😀'.toNat))) .empty ∧
      runNative .fromCharCode .undefined [.number (.ofNat '😀'.toNat)] .empty =
        .done (.ok (.text "\uF600")) .empty ∧
      "\uF600" ≠ "😀" := by
  have hat : Store.empty.offsetOf (argument [.number .zero] 0) = .at (0 : Nat) :=
    offsetOf_zero .empty
  have hchar : "😀".toList[0]? = some '😀' := by decide
  have hback : [Value.number (.ofNat '😀'.toNat)].map (fun v => (Store.empty.numberOf v).toChar) =
      [lowChar '😀'] := map_toChar .empty ['😀']
  have hlow : String.ofList [lowChar '😀'] = "\uF600" := by decide
  refine ⟨(textLaws .empty "😀").charAt.of_offsetOf hat hchar,
    (textLaws .empty "😀").charCodeAt.of_offsetOf hat hchar, ?_, by decide⟩
  rw [runNative_fromCharCode, hback, hlow]

end Store

end Descramble
