import Descramble.Proofs.Text.Digits
import Descramble.Timestamp

/-!
# The leftmost timestamp

A stamp is a key with digits directly behind it. The search tries every place of a text in turn,
whatever looked like a key before, and takes all the digits behind the first key that has any.

Main statement: `ofScript?_leftmost`.
-/

namespace Descramble.Timestamp

/-- The words that announce a timestamp. -/
def keys : List String :=
  ["signatureTimestamp:", "sts:"]

/-- Whether a text starts with a key that a digit follows directly. -/
def StartsWithStamp (s : List Char) : Prop :=
  ∃ key ∈ keys, ∃ d rest, s = key.toList ++ d :: rest ∧ d.isDigit

/-- Whether a text starts with a key and `digits` are all the digits directly behind it, up to
    another character or the end of the text. There is at least one. -/
def Stamps (s digits : List Char) : Prop :=
  ∃ key ∈ keys, ∃ rest, s = key.toList ++ (digits ++ rest) ∧ digits ≠ [] ∧
    (∀ d ∈ digits, d.isDigit) ∧ ∀ c ∈ rest.head?, c.isDigit = false

variable {s digits : List Char}

/-! ## One place -/

/-- The keys differ in their second character, so it does not matter which one is tried first. -/
theorem afterKey_eq_some_iff {rest : List Char} :
    (afterStart? "signatureTimestamp:".toList s <|> afterStart? "sts:".toList s) = some rest ↔
      ∃ key ∈ keys, s = key.toList ++ rest := by
  -- a text that begins with the one key does not begin with the other
  have hother (h : s = "sts:".toList ++ rest) :
      afterStart? "signatureTimestamp:".toList s = none := by
    subst h
    rfl
  simp only [Option.orElse_eq_orElse, Option.orElse_eq_or, Option.or_eq_some_iff,
    afterStart?_eq_some_iff, keys, List.mem_cons, List.not_mem_nil, or_false, exists_eq_or_imp,
    exists_eq_left]
  exact or_congr_right (and_iff_right_of_imp hother)

/-- A place is tried in full: the digits taken are all that stand behind the key. -/
theorem atStart?_eq_some_iff : atStart? s = some digits ↔ Stamps s digits := by
  unfold atStart?
  constructor
  · intro h
    -- a key first, then its digits, of which there is one at least
    split at h
    · rename_i rest hkey
      obtain ⟨key, hmem, rfl⟩ := afterKey_eq_some_iff.mp hkey
      dsimp only at h
      split at h
      · exact nomatch h
      · rename_i hempty
        cases h
        refine ⟨key, hmem, rest.dropWhile Char.isDigit, ?_, ?_, isDigit_of_mem_takeWhile, ?_⟩
        · rw [List.takeWhile_append_dropWhile]
        · simpa using hempty
        · intro c hc
          have hstop := List.head?_dropWhile_not Char.isDigit rest
          rw [hc] at hstop
          simpa using hstop
    · exact nomatch h
  · rintro ⟨key, hmem, rest, hs, hne, hdigits, hend⟩
    rw [afterKey_eq_some_iff.mpr ⟨key, hmem, hs⟩]
    dsimp only
    rw [(takeWhile_digits hdigits hend).1, if_neg (by simpa using hne)]

/-- Behind a key that a digit follows there is a run of digits. -/
theorem startsWithStamp_iff : StartsWithStamp s ↔ ∃ digits, Stamps s digits := by
  constructor
  · rintro ⟨key, hmem, d, rest, rfl, hd⟩
    refine ⟨(d :: rest).takeWhile Char.isDigit, atStart?_eq_some_iff.mp ?_⟩
    unfold atStart?
    rw [afterKey_eq_some_iff.mpr ⟨key, hmem, rfl⟩]
    dsimp only
    rw [List.takeWhile_cons_of_pos hd]
    rfl
  · rintro ⟨digits, key, hmem, rest, rfl, hne, hdigits, -⟩
    cases digits with
    | nil => exact absurd rfl hne
    | cons d ds => exact ⟨key, hmem, d, ds ++ rest, rfl, hdigits d (List.mem_cons_self ..)⟩

/-- A place has no stamp if no key there has a digit directly behind it. -/
theorem atStart?_eq_none_iff : atStart? s = none ↔ ¬ StartsWithStamp s := by
  rw [Option.eq_none_iff_forall_ne_some, startsWithStamp_iff, not_exists]
  exact forall_congr' fun digits => not_congr atStart?_eq_some_iff

/-! ## All places -/

/-- Nothing is found exactly if no place has a stamp. -/
theorem find?_eq_none_iff : find? s = none ↔ ∀ i, atStart? (s.drop i) = none := by
  -- along the text: nothing here and nothing in the rest
  induction s with
  | nil => simp [find?, show atStart? [] = none from rfl]
  | cons c s ih =>
    unfold find?
    constructor
    · intro h i
      split at h
      · exact nomatch h
      · rename_i hhere
        cases i with
        | zero => exact hhere
        | succ i => exact ih.mp h i
    · intro h
      rw [show atStart? (c :: s) = none from h 0]
      exact ih.mpr fun i => h (i + 1)

/-- What is found stands at the first place that has a stamp. -/
theorem find?_eq_some_iff :
    find? s = some digits ↔
      ∃ i, atStart? (s.drop i) = some digits ∧ ∀ j < i, atStart? (s.drop j) = none := by
  -- along the text: its first place comes before those of the rest
  induction s with
  | nil => simp [find?, show atStart? [] = none from rfl]
  | cons c s ih =>
    unfold find?
    split
    · rename_i found hhere
      constructor
      · intro h
        exact ⟨0, hhere.trans h, fun j hj => absurd hj (Nat.not_lt_zero j)⟩
      · rintro ⟨i, hi, hbefore⟩
        cases i with
        | zero => exact hhere.symm.trans hi
        | succ i => exact absurd (hhere.symm.trans (hbefore 0 (Nat.succ_pos i))) nofun
    · rename_i hhere
      rw [ih]
      constructor
      · rintro ⟨i, hi, hbefore⟩
        refine ⟨i + 1, hi, fun j hj => ?_⟩
        cases j with
        | zero => exact hhere
        | succ j => exact hbefore j (Nat.lt_of_succ_lt_succ hj)
      · rintro ⟨i, hi, hbefore⟩
        cases i with
        | zero => exact absurd (hhere.symm.trans hi) nofun
        | succ i => exact ⟨i, hi, fun j hj => hbefore (j + 1) (Nat.succ_lt_succ hj)⟩

/-- A script has no timestamp exactly if at no place of it a key has a digit directly behind it.
    Otherwise its timestamp is the whole run of digits behind the key at the first such place. -/
theorem ofScript?_leftmost (text : String) :
    (ofScript? text = none ↔ ∀ i, ¬ StartsWithStamp (text.toList.drop i)) ∧
    ∀ digits : String, ofScript? text = some digits ↔
      ∃ i, Stamps (text.toList.drop i) digits.toList ∧
        ∀ j < i, ¬ StartsWithStamp (text.toList.drop j) := by
  unfold ofScript?
  constructor
  · rw [Option.map_eq_none_iff, find?_eq_none_iff]
    exact forall_congr' fun i => atStart?_eq_none_iff
  · intro digits
    have hfind : (find? text.toList).map String.ofList = some digits ↔
        find? text.toList = some digits.toList := by
      rw [Option.map_eq_some_iff]
      constructor
      · rintro ⟨cs, hcs, rfl⟩
        rw [hcs, String.toList_ofList]
      · exact fun h => ⟨digits.toList, h, String.ofList_toList⟩
    rw [hfind, find?_eq_some_iff]
    simp only [atStart?_eq_some_iff, atStart?_eq_none_iff]

/-- A key without digits is passed over, also inside a longer word. -/
example : ofScript? "xsts:abc,ssts:sts:7x,sts:8" = some "7" := by
  decide +kernel

end Descramble.Timestamp
