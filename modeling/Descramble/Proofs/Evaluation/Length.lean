import Descramble.Proofs.Evaluation.Method
import Descramble.Proofs.Number.Whole
import Descramble.Proofs.Value.Property
import Descramble.Proofs.Value.Text

/-!
# Setting the length of an array

A length beyond the limit is refused, and a whole number up to it is taken: the array is cut off or
filled up. Any other value is neither. The array keeps its length, and the value goes to a property
of the same name, which nothing ever sees behind the length.

A value becomes a length while the array is being written. So a value that has the array itself
inside cannot become one, and ends the run.

Main statement: `Store.setProperty_length`.
-/

namespace Descramble

open Descramble.Action

/-- The limit on lengths is one that numbers represent exactly. -/
theorem maxListLength_lt : maxListLength < 2 ^ 53 := by
  decide

/-- So is every length below it. -/
theorem le_of_le_maxListLength {n : Nat} (h : n ≤ maxListLength) : n ≤ 2 ^ 53 :=
  Nat.le_trans h (Nat.le_of_lt maxListLength_lt)

/-- A number that equals a length is not beyond the limit. -/
theorem Number.not_lt_of_equals {x : Number} {n : Nat} (hn : n ≤ maxListLength)
    (h : x.equals (ofNat n) = true) : (ofNat maxListLength).lt x ≠ true := by
  rw [ne_eq, ofNat_lt_iff_of_equals (le_of_le_maxListLength (Nat.le_refl _))
    (le_of_le_maxListLength hn) h]
  exact Nat.not_lt.mpr hn

/-! ## Lengths -/

namespace Object

variable {items : Array Value} {properties : Bindings} {parent : Option ObjectRef} {len : Number}

/-- A number that equals a length is taken as that length. -/
theorem setLength?_of_equals {n : Nat} (hn : n ≤ maxListLength) (h : len.equals (.ofNat n) = true) :
    (⟨.list items, properties, parent⟩ : Object).setLength? len =
      some ⟨.list (resize items n), properties, parent⟩ := by
  obtain ⟨hwhole, htrunc⟩ := (Number.equals_ofNat_iff (le_of_le_maxListLength hn)).mp h
  -- equal to a length means whole, and cut off to that length
  simp only [setLength?, hwhole, htrunc, if_true]
  exact if_pos hn

/-- A number that is beyond no limit and equals no length is no length. -/
theorem setLength?_eq_none (hlt : (Number.ofNat maxListLength).lt len ≠ true)
    (h : ¬ ∃ n, n ≤ maxListLength ∧ len.equals (.ofNat n) = true) :
    (⟨.list items, properties, parent⟩ : Object).setLength? len = none := by
  simp only [setLength?]
  split
  · rename_i hwhole
    split
    · rename_i n htrunc
      exfalso
      by_cases hn : n ≤ maxListLength
      -- a whole number up to the limit would equal a length
      · exact h ⟨n, hn, (Number.equals_ofNat_iff (le_of_le_maxListLength hn)).mpr
          ⟨hwhole, htrunc⟩⟩
      · exact hlt ((Number.ofNat_lt_iff_of_truncate? (Nat.le_of_lt maxListLength_lt) hwhole
          htrunc).mpr (Nat.not_le.mp hn))
    · rfl
  · rfl

end Object

namespace Store

variable {s : Store} {ref : ObjectRef} {items : Array Value} {v : Value}

/-- Setting the length of an array fails with an error and leaves the array alone. -/
def LengthRefused (s : Store) (ref : ObjectRef) (v : Value) : Prop :=
  ∃ e s', setProperty (.object ref) "length" v s = .done (.error (.thrown (.object e))) s' ∧
    (s'.object e).get? "name" = some (.text "RangeError") ∧
    (s'.object e).get? "message" = some (.text "Invalid array length") ∧
    s'.object ref = s.object ref

/-- Setting the length of an array takes effect: the array has that length from then on, the items
    that fit into it, and `undefined` behind them. -/
def LengthTaken (s : Store) (ref : ObjectRef) (items : Array Value) (v : Value) : Prop :=
  ∃ s' left, setProperty (.object ref) "length" v s = .done (.ok ()) s' ∧
    s.LeftWith ref left s' ∧
    (∃ n, Action.getProperty (.object ref) "length" s' = .done (.ok (.number n)) s' ∧
      n.equals (s.numberOf v) = true) ∧
    (∀ i, i < items.size → i < left.length → left[i]? = items[i]?) ∧
    ∀ i, items.size ≤ i → i < left.length → left[i]? = some .undefined

/-- Setting the length of an array does not fail and has no effect that is ever seen. -/
def LengthLost (s : Store) (ref : ObjectRef) (items : Array Value) (v : Value) : Prop :=
  ∃ s', setProperty (.object ref) "length" v s = .done (.ok ()) s' ∧
    s'.items? (.object ref) = some items ∧ s'.objects.size = s.objects.size ∧
    ∀ other key, (s'.object other).get? key = (s.object other).get? key

/-- Setting the length of an array would have to read the array, and comes to nothing. -/
def LengthConflicts (s : Store) (ref : ObjectRef) (v : Value) : Prop :=
  setProperty (.object ref) "length" v s = .done (.error (.fatal .conflict)) s

/-- The length of an array is the number of its items. -/
theorem getProperty_length (h : s.items? (.object ref) = some items) :
    Action.getProperty (.object ref) "length" s = .done (.ok (.number (.ofNat items.size))) s := by
  have hget : (s.object ref).get? "length" = some (.number (.ofNat items.size)) := by
    obtain ⟨properties, parent, hlist⟩ := exists_object_of_items? h
    rw [hlist, Object.get?_length]
  show getOfObject ref "length" s = _
  unfold getOfObject
  rw [read_bind, hget]
  rfl

/-- A write to the length of an array is seen as one. -/
theorem isListLength_of_items? (h : s.items? (.object ref) = some items) :
    s.isListLength ref "length" = true := by
  rw [isListLength, Object.isList, items?_object_eq_some_iff.mp h]
  rfl

/-- Beyond the limit a length is refused. -/
theorem lengthRefused_of_lt (h : s.items? (.object ref) = some items)
    (hlt : (Number.ofNat maxListLength).lt (s.numberOf v) = true) : s.LengthRefused ref v := by
  have hrejects : s.rejectsLength ref "length" v = true := by
    rw [rejectsLength, isListLength_of_items? h, hlt]
    rfl
  have hset := setProperty_object s ref "length" v
  rw [if_pos hrejects] at hset
  -- the error is a new object, so the array is what it was
  have hmade (name message : String) := s.object_addObject ⟨.plain,
    (Bindings.empty.insert "name" (.text name)).insert "message" (.text message), none⟩
  refine ⟨⟨s.objects.size⟩, _, hset, congrArg (Object.get? · "name") (hmade _ _),
    congrArg (Object.get? · "message") (hmade _ _), object_addObject_of_lt (lt_of_items? h) _⟩

/-- Nothing is refused that is not beyond the limit. -/
theorem not_rejectsLength (hlt : (Number.ofNat maxListLength).lt (s.numberOf v) ≠ true) :
    ¬ s.rejectsLength ref "length" v = true := by
  intro h
  rw [rejectsLength, Bool.and_eq_true] at h
  exact hlt h.2

/-- Up to the limit nothing is refused, and what does not hold the array is written. -/
theorem setProperty_of_not_lt (hlt : (Number.ofNat maxListLength).lt (s.numberOf v) ≠ true)
    (hinside : ¬ s.HasInside v ref) :
    setProperty (.object ref) "length" v s = .done (.ok ()) (s.setOwn ref "length" v) := by
  -- writing looks only at what the value has inside
  have hapart : ¬ s.conflictsWithLength ref "length" v = true := by
    intro h
    rw [conflictsWithLength, Bool.and_eq_true] at h
    exact hinside (looksAt_iff.mp h.2)
  rw [setProperty_object, if_neg (not_rejectsLength hlt), if_neg hapart]

/-- What holds the array cannot become its length. -/
theorem lengthConflicts_of_hasInside (h : s.items? (.object ref) = some items)
    (hlt : (Number.ofNat maxListLength).lt (s.numberOf v) ≠ true) (hinside : s.HasInside v ref) :
    s.LengthConflicts ref v := by
  have hconflicts : s.conflictsWithLength ref "length" v = true := by
    rw [conflictsWithLength, isListLength_of_items? h, looksAt_iff.mpr hinside]
    rfl
  rw [LengthConflicts, setProperty_object, if_neg (not_rejectsLength hlt), if_pos hconflicts]

/-- The array is resized, or the value is left beside the items. -/
theorem object_setOwn_length (h : s.items? (.object ref) = some items) :
    (s.setOwn ref "length" v).object ref = ((s.object ref).setLength? (s.numberOf v)).getD
      ((s.object ref).insert "length" v) := by
  rw [setOwn, if_pos (isListLength_of_items? h), object_modifyObject (lt_of_items? h)]

/-- A whole number up to the limit is taken as the length. -/
theorem lengthTaken_of_equals (h : s.items? (.object ref) = some items) {n : Nat}
    (hn : n ≤ maxListLength) (heq : (s.numberOf v).equals (.ofNat n) = true)
    (hinside : ¬ s.HasInside v ref) : s.LengthTaken ref items v := by
  have hobject : (s.setOwn ref "length" v).object ref =
      ⟨.list (resize items n), (s.object ref).properties, (s.object ref).parent⟩ := by
    obtain ⟨properties, parent, hlist⟩ := exists_object_of_items? h
    rw [object_setOwn_length h, hlist, Object.setLength?_of_equals hn heq, Option.getD_some]
  have hitems : (s.setOwn ref "length" v).items? (.object ref) = some (resize items n) := by
    rw [items?_object_eq_some_iff, hobject]
  -- only the items of the one array have changed
  have hleft : s.LeftWith ref (resize items n).toList (s.setOwn ref "length" v) := {
    items := by rw [hitems, Array.toArray_toList]
    properties := by rw [hobject]
    parent := by rw [hobject]
    other := fun _ hne _ => object_setOwn_of_ne _ _ hne
    objects_le := Nat.le_of_eq (s.objects_size_setOwn ref "length" v).symm
    scopes := s.scopes_setOwn ref "length" v }
  refine ⟨_, _, setProperty_of_not_lt (Number.not_lt_of_equals hn heq) hinside, hleft,
    ⟨_, getProperty_length hitems, ?_⟩, ?_, ?_⟩
  · rw [size_resize]
    exact Number.equals_symm heq
  -- an item that there was before and that still fits
  · intro i hold hnew
    rw [Array.length_toList, size_resize] at hnew
    rw [Array.getElem?_toList, getElem?_resize items hnew, Array.getElem?_eq_getElem hold,
      Option.getD_some]
  -- an item behind those that there were
  · intro i hold hnew
    rw [Array.length_toList, size_resize] at hnew
    rw [Array.getElem?_toList, getElem?_resize items hnew, Array.getElem?_eq_none hold,
      Option.getD_none]

/-- What is no length, beyond no limit and does not hold the array is lost. -/
theorem lengthLost_of_not (h : s.items? (.object ref) = some items)
    (hlt : (Number.ofNat maxListLength).lt (s.numberOf v) ≠ true)
    (hnone : ¬ ∃ n, n ≤ maxListLength ∧ (s.numberOf v).equals (.ofNat n) = true)
    (hinside : ¬ s.HasInside v ref) : s.LengthLost ref items v := by
  obtain ⟨properties, parent, hlist⟩ := exists_object_of_items? h
  -- the value goes beside the items, under the one name that is never looked up there
  have hobject : (s.setOwn ref "length" v).object ref =
      ⟨.list items, properties.insert "length" v, parent⟩ := by
    rw [object_setOwn_length h, hlist, Object.setLength?_eq_none hlt hnone, Option.getD_none,
      Object.insert_of_le]
    intro i hi
    rw [listIndex?_length] at hi
    cases hi
  refine ⟨_, setProperty_of_not_lt hlt hinside, ?_, s.objects_size_setOwn ref "length" v,
    fun other key => ?_⟩
  · rw [items?_object_eq_some_iff, hobject]
  · by_cases hne : other = ref
    · subst hne
      rw [hobject, hlist]
      -- a look at the length itself finds the number of items
      by_cases hlength : key = "length"
      · rw [hlength, Object.get?_length, Object.get?_length]
      · exact Object.get?_congr (properties.get?_insert_of_ne v hlength)
    · rw [object_setOwn_of_ne _ _ hne]

/-- What is lost is not refused. -/
theorem LengthLost.not_refused (h : s.LengthLost ref items v) : ¬ s.LengthRefused ref v := by
  rintro ⟨e, s', hfail, -⟩
  obtain ⟨s'', hset, -⟩ := h
  rw [hset] at hfail
  cases hfail

/-- Where the array keeps its length, that is what has been asked for or nothing has been done. -/
theorem LengthLost.equals_of_taken (h : s.LengthLost ref items v)
    (htaken : s.LengthTaken ref items v) :
    (Number.ofNat items.size).equals (s.numberOf v) = true := by
  obtain ⟨s', hset, hitems, -⟩ := h
  obtain ⟨s'', left, hset', -, ⟨n, hget, heq⟩, -⟩ := htaken
  rw [hset] at hset'
  cases hset'
  rw [getProperty_length hitems] at hget
  cases hget
  exact heq

/-- What comes to nothing is not refused. -/
theorem LengthConflicts.not_refused (h : s.LengthConflicts ref v) : ¬ s.LengthRefused ref v := by
  rintro ⟨e, s', hfail, -⟩
  rw [LengthConflicts.eq_1, hfail] at h
  cases h

/-- Nor does it take effect. -/
theorem LengthConflicts.not_taken (h : s.LengthConflicts ref v) :
    ¬ s.LengthTaken ref items v := by
  rintro ⟨s', left, hset, -⟩
  rw [LengthConflicts.eq_1, hset] at h
  cases h

/-- What is refused does not take effect. -/
theorem LengthRefused.not_taken (h : s.LengthRefused ref v) : ¬ s.LengthTaken ref items v := by
  rintro ⟨s', left, hset, -⟩
  obtain ⟨e, s'', hfail, -⟩ := h
  rw [hfail] at hset
  cases hset

/-- Setting the length of an array is refused exactly beyond the limit. Below it, it comes to
    nothing exactly for the values that have the array inside, and of the others exactly the whole
    numbers take effect. For any other value it neither fails nor has an effect. -/
theorem setProperty_length (h : s.items? (.object ref) = some items) (v : Value) :
    (s.LengthRefused ref v ↔ (Number.ofNat maxListLength).lt (s.numberOf v) = true) ∧
    (s.LengthConflicts ref v ↔
      ¬ (Number.ofNat maxListLength).lt (s.numberOf v) = true ∧ s.HasInside v ref) ∧
    (s.LengthTaken ref items v ↔
      (∃ n, n ≤ maxListLength ∧ (s.numberOf v).equals (.ofNat n) = true) ∧
        ¬ s.HasInside v ref) ∧
    (¬ (Number.ofNat maxListLength).lt (s.numberOf v) = true → ¬ s.HasInside v ref →
      (¬ ∃ n, n ≤ maxListLength ∧ (s.numberOf v).equals (.ofNat n) = true) →
      s.LengthLost ref items v) := by
  have hlost (hlt) (hinside) (hnone) : s.LengthLost ref items v :=
    lengthLost_of_not h hlt hnone hinside
  refine ⟨⟨fun hrefused => ?_, lengthRefused_of_lt h⟩, ⟨fun hconflicts => ⟨?_, ?_⟩, ?_⟩,
    ⟨fun htaken => ?_, ?_⟩, hlost⟩
  -- up to the limit the write has another outcome
  · refine Decidable.byContradiction fun hlt => ?_
    by_cases hinside : s.HasInside v ref
    · exact (lengthConflicts_of_hasInside h hlt hinside).not_refused hrefused
    · obtain ⟨e, s', hset, -⟩ := hrefused
      rw [setProperty_of_not_lt hlt hinside] at hset
      cases hset
  · exact fun hlt => hconflicts.not_refused (lengthRefused_of_lt h hlt)
  -- without the array inside, the write is done
  · refine Classical.byContradiction fun hinside => ?_
    have hlt : (Number.ofNat maxListLength).lt (s.numberOf v) ≠ true :=
      fun hlt => hconflicts.not_refused (lengthRefused_of_lt h hlt)
    rw [LengthConflicts, setProperty_of_not_lt hlt hinside] at hconflicts
    cases hconflicts
  · exact fun ⟨hlt, hinside⟩ => lengthConflicts_of_hasInside h hlt hinside
  · have hlt : (Number.ofNat maxListLength).lt (s.numberOf v) ≠ true :=
      fun hlt => (lengthRefused_of_lt h hlt).not_taken htaken
    have hinside : ¬ s.HasInside v ref :=
      fun hinside => (lengthConflicts_of_hasInside h hlt hinside).not_taken htaken
    refine ⟨Classical.byContradiction fun hnone => ?_, hinside⟩
    -- if the value is no length, the array has kept its own; so the value equals that one, which is
    -- a length as well or beyond the limit
    have heq := (hlost hlt hinside hnone).equals_of_taken htaken
    by_cases hsize : items.size ≤ maxListLength
    · exact hnone ⟨items.size, hsize, Number.equals_symm heq⟩
    · exact hlt (Number.lt_of_lt_of_equals
        (Number.ofNat_lt_ofNat maxListLength_lt (Nat.not_le.mp hsize)) heq)
  · rintro ⟨⟨n, hn, heq⟩, hinside⟩
    exact lengthTaken_of_equals h hn heq hinside

/-- What is no object has none inside. -/
theorem not_hasInside (hv : ∀ ref, v ≠ .object ref) : ¬ s.HasInside v ref :=
  fun ⟨ref, hobject, _⟩ => hv ref hobject

/-- A script that makes an array of two items. -/
def pairing : Program where
  body := [.expr (.assign none (.ident "a") (.array [.literal (.flag true), .literal .null]))]

/-- The text `"3"` is a length. -/
theorem setProperty_length_text :
    (Store.initial.run pairing).2.LengthTaken ⟨17⟩ #[.flag true, .null] (.text "3") := by
  have hitems : (Store.initial.run pairing).2.items? (.object ⟨17⟩) =
      some #[.flag true, .null] := by
    decide +kernel
  have hthree : (textToNumber "3").equals (.ofNat 3) = true := by decide +kernel
  exact (setProperty_length hitems (.text "3")).2.2.1.mpr
    ⟨⟨3, by decide, hthree⟩, not_hasInside fun _ => nofun⟩

/-- The length that is one below zero is neither refused nor taken. -/
theorem setProperty_length_negative :
    (Store.initial.run pairing).2.items? (.object ⟨17⟩) = some #[.flag true, .null] ∧
      ¬ (Store.initial.run pairing).2.LengthRefused ⟨17⟩ (.number (.ofInt (-1))) ∧
      ¬ (Store.initial.run pairing).2.LengthTaken ⟨17⟩ #[.flag true, .null]
        (.number (.ofInt (-1))) := by
  have hitems : (Store.initial.run pairing).2.items? (.object ⟨17⟩) =
      some #[.flag true, .null] := by
    decide +kernel
  have hlost : (Store.initial.run pairing).2.LengthLost ⟨17⟩ #[.flag true, .null]
      (.number (.ofInt (-1))) := by
    refine lengthLost_of_not hitems (by decide +kernel) ?_ (not_hasInside fun _ => nofun)
    rintro ⟨n, hn, heq⟩
    have htrunc := ((Number.equals_ofNat_iff (le_of_le_maxListLength hn)).mp heq).2
    have hminus : (Number.ofInt (-1)).truncate? = some (-1) := by decide +kernel
    have hsame : (-1 : Int) = n := Option.some.inj (hminus.symm.trans htrunc)
    omega
  refine ⟨hitems, hlost.not_refused, fun htaken => ?_⟩
  exact absurd (hlost.equals_of_taken htaken) (by decide +kernel)

end Store

end Descramble
