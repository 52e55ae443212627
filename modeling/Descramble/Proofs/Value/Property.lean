import Descramble.Proofs.Value.Growth
import Descramble.Proofs.Text.Digits

/-!
# What a write or a removal changes

An object keeps its properties in two places, an array its items apart from all others. A write is
seen under its key and changes no other, but that an array grows up to an index past its end; and a
removal likewise. The one exception are the items of an array from the limit on, which other methods
can make: a write does not reach them, and what it puts beside them is never seen.

Main statements: `Object.written_insert` and `Object.erased_erase`.
-/

namespace Descramble

/-! ## Canonical indices -/

/-- Digits, of which the first is no zero unless it is the only one. -/
def IsCanonical (cs : List Char) : Prop :=
  cs ≠ [] ∧ (∀ c ∈ cs, c.isDigit) ∧ (1 < cs.length → cs.head? ≠ some '0')

/-- A canonical numeral below `2 ^ 64` is an index. -/
theorem listIndex?_of_isCanonical {key : String} (h : IsCanonical key.toList)
    (hlt : Nat.ofDigitChars 10 key.toList 0 < 2 ^ 64) :
    listIndex? key = some (Nat.ofDigitChars 10 key.toList 0) := by
  obtain ⟨hne, hdigits, hzero⟩ := h
  have hcond : (key.toList.isEmpty || !key.toList.all Char.isDigit ||
      (1 < key.toList.length && key.toList.head? == some '0')) = false := by
    simpa [hne, List.all_eq_true.mpr hdigits] using hzero
  simp only [listIndex?, hcond, Bool.false_eq_true, if_false, if_pos hlt]

/-- An index is written canonically, and below `2 ^ 64`. -/
theorem isCanonical_of_listIndex? {key : String} {i : Nat} (h : listIndex? key = some i) :
    IsCanonical key.toList ∧ i = Nat.ofDigitChars 10 key.toList 0 ∧ i < 2 ^ 64 := by
  simp only [listIndex?] at h
  -- neither empty nor with another character nor with a leading zero
  split at h
  · cases h
  · rename_i hcond
    simp only [Bool.or_eq_true, Bool.not_eq_true', Bool.and_eq_true, not_or, not_and,
      List.isEmpty_iff, Bool.not_eq_false, List.all_eq_true, decide_eq_true_eq, beq_iff_eq] at hcond
    split at h
    · rename_i hlt
      cases h
      exact ⟨⟨hcond.1.1, hcond.1.2, hcond.2⟩, rfl, hlt⟩
    · cases h

/-- The decimal digits of a number are canonical. -/
theorem isCanonical_toDigits (n : Nat) : IsCanonical (Nat.toDigits 10 n) := by
  refine ⟨Nat.toDigits_ne_nil,
    fun c hc => Nat.isDigit_of_mem_toDigits (by decide) (by decide) hc, fun hlong => ?_⟩
  -- a number with two digits is not zero
  apply head?_toDigits
  apply Nat.pos_of_ne_zero
  rintro rfl
  exact absurd hlong (by decide)

/-- The canonical indices are the decimal numerals of the numbers below `2 ^ 64`. -/
theorem listIndex?_eq_some_iff {key : String} {i : Nat} :
    listIndex? key = some i ↔ key = toString i ∧ i < 2 ^ 64 := by
  constructor
  · intro h
    obtain ⟨⟨hne, hdigits, hzero⟩, rfl, hlt⟩ := isCanonical_of_listIndex? h
    refine ⟨?_, hlt⟩
    rw [Nat.toString_eq_ofList_toDigits, toDigits_ofDigitChars hdigits hne hzero,
      String.ofList_toList]
  · rintro ⟨rfl, hlt⟩
    -- the numeral of a number is read back as the number
    have hlist : (toString i).toList = Nat.toDigits 10 i := Nat.toList_repr
    have hindex : Nat.ofDigitChars 10 (toString i).toList 0 = i := by
      rw [hlist, Nat.ofDigitChars_ten_toDigits]
    have h := listIndex?_of_isCanonical (hlist ▸ isCanonical_toDigits i) (by rwa [hindex])
    rwa [hindex] at h

/-- The length is no index. -/
theorem listIndex?_length : listIndex? "length" = none := by
  decide

/-- Keys that spell the same index are the same. -/
theorem listIndex?_inj {key other : String} {i : Nat} (h : listIndex? key = some i)
    (h' : listIndex? other = some i) : other = key := by
  rw [(listIndex?_eq_some_iff.mp h).1, (listIndex?_eq_some_iff.mp h').1]

/-! ## Items -/

/-- Resized items are as many as asked for. -/
theorem size_resize (items : Array Value) (len : Nat) : (resize items len).size = len := by
  unfold resize
  split
  · rename_i hle
    rw [Array.size_extract, Nat.min_eq_left hle, Nat.sub_zero]
  · rename_i hlt
    rw [Array.size_append, Array.size_replicate]
    omega

/-- Resized items are the old ones, and `undefined` behind them. -/
theorem getElem?_resize (items : Array Value) {len j : Nat} (h : j < len) :
    (resize items len)[j]? = some (items[j]?.getD .undefined) := by
  unfold resize
  split
  · rename_i hle
    have hj : j < items.size := by omega
    rw [Array.getElem?_extract, Nat.min_eq_left hle, if_pos (by omega), Nat.zero_add,
      Array.getElem?_eq_getElem hj, Option.getD_some]
  · rename_i hlt
    -- an old item, or one that was filled in
    by_cases hj : j < items.size
    · rw [Array.getElem?_append_left hj, Array.getElem?_eq_getElem hj, Option.getD_some]
    · rw [Array.getElem?_append_right (Nat.not_lt.mp hj), Array.getElem?_replicate,
        if_pos (by omega), Array.getElem?_eq_none (Nat.not_lt.mp hj), Option.getD_none]

/-- An array that is long enough for an index stays as it is, a shorter one is filled up to it. -/
theorem reach_index (items : Array Value) (i : Nat) :
    (if i < items.size then items else resize items (i + 1)).size = max items.size (i + 1) ∧
      ∀ j, j < max items.size (i + 1) →
        (if i < items.size then items else resize items (i + 1))[j]? =
          some (items[j]?.getD .undefined) := by
  by_cases hin : i < items.size
  · have hmax : max items.size (i + 1) = items.size := Nat.max_eq_left hin
    rw [if_pos hin, hmax]
    exact ⟨rfl, fun j hj => by rw [Array.getElem?_eq_getElem hj, Option.getD_some]⟩
  · have hmax : max items.size (i + 1) = i + 1 := Nat.max_eq_right (by omega)
    rw [if_neg hin, hmax]
    exact ⟨size_resize items (i + 1), fun j hj => getElem?_resize items hj⟩

namespace Object

variable {o : Object} {key : String}

/-- An item of an array stands under a key. -/
def HasItem (o : Object) (key : String) : Prop :=
  ∃ items i, o.kind = .list items ∧ listIndex? key = some i ∧ i < items.size

/-- An item of an array stands under a key, beyond those that can be written to. -/
def HasFarItem (o : Object) (key : String) : Prop :=
  ∃ items i, o.kind = .list items ∧ listIndex? key = some i ∧ maxListLength ≤ i ∧ i < items.size

/-- A key is an index past the end of an array that can be written to. -/
def PastEnd (o : Object) (key : String) (len i : Nat) : Prop :=
  ∃ items, o.kind = .list items ∧ items.size = len ∧ listIndex? key = some i ∧ len ≤ i ∧
    i < maxListLength

/-- What an object is after a value was put under a key: the value is seen there, and whatever else
    could be seen before; an array past whose end the key was reaches up to it, with `undefined` in
    the gap. The value is not seen where an item stands that cannot be written to. -/
structure Written (o : Object) (key : String) (value : Value) (o' : Object) : Prop where
  shape_eq : o'.kind.shape = o.kind.shape
  self : ¬ o.HasFarItem key → o'.get? key = some value
  unseen : o.HasFarItem key → o'.get? key = o.get? key
  other : (¬ ∃ len i, o.PastEnd key len i) → ∀ other, other ≠ key → o'.get? other = o.get? other
  length : ∀ len i, o.PastEnd key len i → o'.get? "length" = some (.number (.ofNat (i + 1)))
  gap : ∀ len i, o.PastEnd key len i → ∀ j, len ≤ j → j < i →
    o'.get? (toString j) = some .undefined
  rest : ∀ len i, o.PastEnd key len i → ∀ other, other ≠ key → other ≠ "length" →
    (∀ j, len ≤ j → j < i → other ≠ toString j) → o'.get? other = o.get? other

/-- What an object is after a key was removed: nothing is seen there, or `undefined` where an item
    stood, and whatever else could be seen before. -/
structure Erased (o : Object) (key : String) (o' : Object) : Prop where
  shape_eq : o'.kind.shape = o.kind.shape
  item : o.HasItem key → o'.get? key = some .undefined
  self : ¬ o.HasItem key → o'.get? key = none
  other : ∀ other, other ≠ key → o'.get? other = o.get? other

/-- An array has items, properties and a prototype. -/
theorem exists_list_of_isList (h : o.isList = true) :
    ∃ items properties parent, o = ⟨.list items, properties, parent⟩ := by
  obtain ⟨kind, properties, parent⟩ := o
  cases kind with
  | list items => exact ⟨items, properties, parent, rfl⟩
  | plain => cases h
  | function c => cases h

/-- What is no array has nothing but its properties. -/
theorem get?_of_not_list (h : o.isList = false) (key : String) :
    o.get? key = o.properties.get? key := by
  obtain ⟨kind, properties, parent⟩ := o
  cases kind with
  | list items => cases h
  | plain => rfl
  | function c => rfl

section List

variable {items : Array Value} {properties : Bindings} {parent : Option ObjectRef}

/-- The length of an array is the number of its items. -/
theorem get?_length : (⟨.list items, properties, parent⟩ : Object).get? "length" =
    some (.number (.ofNat items.size)) :=
  rfl

/-- Under an index the item is seen, and without one the property of that name. -/
theorem get?_of_listIndex? {i : Nat} (h : listIndex? key = some i) :
    (⟨.list items, properties, parent⟩ : Object).get? key =
      (items[i]?).or (properties.get? key) := by
  have hkey : key ≠ "length" := by
    rintro rfl
    rw [listIndex?_length] at h
    cases h
  simp only [get?, if_neg hkey, h, Option.bind_some]
  cases items[i]? <;> rfl

/-- Any other key is that of a property. -/
theorem get?_of_not_listIndex? (h : listIndex? key = none) (hkey : key ≠ "length") :
    (⟨.list items, properties, parent⟩ : Object).get? key = properties.get? key := by
  simp only [get?, if_neg hkey, h, Option.bind_none]

/-- A change of the properties beside the items is seen at most where the properties change. -/
theorem get?_congr {changed : Bindings} (h : changed.get? key = properties.get? key) :
    (⟨.list items, changed, parent⟩ : Object).get? key =
      (⟨.list items, properties, parent⟩ : Object).get? key := by
  simp only [get?, h]

/-- A key that is no index that can be written to goes beside the items. -/
theorem insert_of_le {value : Value} (h : ∀ i, listIndex? key = some i → maxListLength ≤ i) :
    (⟨.list items, properties, parent⟩ : Object).insert key value =
      ⟨.list items, properties.insert key value, parent⟩ := by
  cases hi : listIndex? key with
  | none => simp only [insert, hi]
  | some i => simp only [insert, hi, if_neg (Nat.not_lt.mpr (h i hi))]

/-- An index that can be written to goes among the items. -/
theorem exists_insert_of_lt (items : Array Value) (properties : Bindings)
    (parent : Option ObjectRef) (value : Value) {i : Nat} (hi : listIndex? key = some i)
    (hlt : i < maxListLength) : ∃ written : Array Value,
      (⟨.list items, properties, parent⟩ : Object).insert key value =
        ⟨.list written, properties, parent⟩ ∧
      written.size = max items.size (i + 1) ∧ written[i]? = some value ∧
      ∀ j, j ≠ i → j < written.size → written[j]? = some (items[j]?.getD .undefined) := by
  -- the items are made to reach the index, and then the one there is replaced
  obtain ⟨hsize, hreach⟩ := reach_index items i
  refine ⟨(if i < items.size then items else resize items (i + 1)).setIfInBounds i value, ?_, ?_, ?_,
    fun j hj hlt => ?_⟩
  · simp only [insert, hi, if_pos hlt]
  · rw [Array.size_setIfInBounds, hsize]
  · rw [Array.getElem?_setIfInBounds_self_of_lt (by omega)]
  · rw [Array.size_setIfInBounds, hsize] at hlt
    rw [Array.getElem?_setIfInBounds_ne hj.symm, hreach j hlt]

end List

/-! ## Writes and removals -/

/-- Only arrays have an end. -/
theorem not_pastEnd_of_not_list (h : o.isList = false) {len i : Nat} : ¬ o.PastEnd key len i := by
  rintro ⟨items, hkind, -⟩
  rw [isList, hkind] at h
  cases h

/-- Only arrays have items. -/
theorem not_hasFarItem_of_not_list (h : o.isList = false) : ¬ o.HasFarItem key := by
  rintro ⟨items, i, hkind, -⟩
  rw [isList, hkind] at h
  cases h

/-- Writing to what is no array. -/
theorem written_insert_of_not_list (h : o.isList = false) (key : String) (value : Value) :
    o.Written key value (o.insert key value) := by
  have hinsert : (o.insert key value).isList = false ∧
      (o.insert key value).properties = o.properties.insert key value := by
    obtain ⟨kind, properties, parent⟩ := o
    cases kind with
    | list items => cases h
    | plain => exact ⟨rfl, rfl⟩
    | function c => exact ⟨rfl, rfl⟩
  -- all that is seen are the properties
  have hget (other : String) :
      (o.insert key value).get? other = (o.properties.insert key value).get? other := by
    rw [get?_of_not_list hinsert.1, hinsert.2]
  exact {
    shape_eq := o.shape_insert key value
    self := fun _ => by rw [hget, Bindings.get?_insert_self]
    unseen := fun hfar => absurd hfar (not_hasFarItem_of_not_list h)
    other := fun _ other hne => by
      rw [hget, Bindings.get?_insert_of_ne _ _ hne, get?_of_not_list h]
    length := fun _ _ hend => absurd hend (not_pastEnd_of_not_list h)
    gap := fun _ _ hend => absurd hend (not_pastEnd_of_not_list h)
    rest := fun _ _ hend => absurd hend (not_pastEnd_of_not_list h) }

section List

variable {items : Array Value} {properties : Bindings} {parent : Option ObjectRef}

/-- Writing beside the items of an array. -/
theorem written_insert_of_le {value : Value} (hkey : key ≠ "length")
    (h : ∀ i, listIndex? key = some i → maxListLength ≤ i) :
    (⟨.list items, properties, parent⟩ : Object).Written key value
      ((⟨.list items, properties, parent⟩ : Object).insert key value) := by
  -- the key is no index that the array could grow to
  have hend {len i : Nat} : ¬ (⟨.list items, properties, parent⟩ : Object).PastEnd key len i := by
    rintro ⟨_, -, -, hi, -, hlt⟩
    exact absurd (h i hi) (Nat.not_le.mpr hlt)
  rw [insert_of_le h]
  exact {
    shape_eq := rfl
    self := fun hfar => by
      cases hi : listIndex? key with
      | none => rw [get?_of_not_listIndex? hi hkey, Bindings.get?_insert_self]
      | some i =>
        have hout : items.size ≤ i := Nat.not_lt.mp fun hlt => hfar ⟨items, i, rfl, hi, h i hi, hlt⟩
        rw [get?_of_listIndex? hi, Array.getElem?_eq_none hout, Option.none_or,
          Bindings.get?_insert_self]
    unseen := by
      rintro ⟨_, i, ⟨⟩, hi, -, hlt⟩
      rw [get?_of_listIndex? hi, get?_of_listIndex? hi, Array.getElem?_eq_getElem hlt,
        Option.some_or, Option.some_or]
    other := fun _ other hne => get?_congr (properties.get?_insert_of_ne value hne)
    length := fun _ _ h => absurd h hend
    gap := fun _ _ h => absurd h hend
    rest := fun _ _ h => absurd h hend }

/-- Writing to the items of an array. -/
theorem written_insert_of_lt {value : Value} {i : Nat} (hi : listIndex? key = some i)
    (hlt : i < maxListLength) :
    (⟨.list items, properties, parent⟩ : Object).Written key value
      ((⟨.list items, properties, parent⟩ : Object).insert key value) := by
  obtain ⟨written, hinsert, hsize, hself, hother⟩ :=
    exists_insert_of_lt items properties parent value hi hlt
  rw [hinsert]
  -- an item of its own is seen as before, and so is what stands beside the items
  have hitem {other : String} {j : Nat} (hj : listIndex? other = some j) (hne : other ≠ key)
      (hold : j < items.size ∨ i < j) :
      (⟨.list written, properties, parent⟩ : Object).get? other =
        (⟨.list items, properties, parent⟩ : Object).get? other := by
    have hji : j ≠ i := fun heq => hne (listIndex?_inj hi (heq ▸ hj))
    rw [get?_of_listIndex? hj, get?_of_listIndex? hj]
    by_cases hin : j < items.size
    · rw [hother j hji (by omega), Array.getElem?_eq_getElem hin, Option.getD_some]
    · rw [Array.getElem?_eq_none (by omega), Array.getElem?_eq_none (Nat.not_lt.mp hin)]
  have hplain {other : String} (hj : listIndex? other = none) (hlength : other ≠ "length") :
      (⟨.list written, properties, parent⟩ : Object).get? other =
        (⟨.list items, properties, parent⟩ : Object).get? other := by
    rw [get?_of_not_listIndex? hj hlength, get?_of_not_listIndex? hj hlength]
  exact {
    shape_eq := rfl
    self := fun _ => by rw [get?_of_listIndex? hi, hself, Option.some_or]
    unseen := by
      rintro ⟨_, j, -, hj, hle, -⟩
      cases hi.symm.trans hj
      exact absurd hlt (Nat.not_lt.mpr hle)
    other := fun hin other hne => by
      have hlt' : i < items.size := Nat.not_le.mp fun hle =>
        hin ⟨items.size, i, items, rfl, rfl, hi, hle, hlt⟩
      by_cases hlength : other = "length"
      · rw [hlength, get?_length, get?_length, hsize, Nat.max_eq_left hlt']
      · cases hj : listIndex? other with
        | none => exact hplain hj hlength
        | some j => exact hitem hj hne (by omega)
    length := by
      rintro len j ⟨_, ⟨⟩, rfl, hj, hle, -⟩
      cases hi.symm.trans hj
      rw [get?_length, hsize, Nat.max_eq_right (by omega)]
    gap := by
      rintro len j ⟨_, ⟨⟩, rfl, hj, hle, -⟩ k hlek hltk
      cases hi.symm.trans hj
      have hk : listIndex? (toString k) = some k :=
        listIndex?_eq_some_iff.mpr ⟨rfl, Nat.lt_trans hltk (listIndex?_eq_some_iff.mp hi).2⟩
      rw [get?_of_listIndex? hk, hother k (by omega) (by omega), Array.getElem?_eq_none hlek]
      rfl
    rest := by
      rintro len j ⟨_, ⟨⟩, rfl, hj, hle, -⟩ other hne hlength hgap
      cases hi.symm.trans hj
      cases hk : listIndex? other with
      | none => exact hplain hk hlength
      | some k =>
        have hki : k ≠ i := fun heq => hne (listIndex?_inj hi (heq ▸ hk))
        have hout : ¬ (items.size ≤ k ∧ k < i) := fun hin =>
          hgap k hin.1 hin.2 (listIndex?_eq_some_iff.mp hk).1
        exact hitem hk hne (by omega) }

/-- Removing an item of an array. -/
theorem erased_erase_of_lt {i : Nat} (hi : listIndex? key = some i) (hlt : i < items.size) :
    (⟨.list items, properties, parent⟩ : Object).Erased key
      ((⟨.list items, properties, parent⟩ : Object).erase key) := by
  -- an item leaves `undefined` in its place, so no other item moves
  have herase : (⟨.list items, properties, parent⟩ : Object).erase key =
      ⟨.list (items.setIfInBounds i .undefined), properties, parent⟩ := by
    simp only [erase, hi, if_pos hlt]
  rw [herase]
  exact {
    shape_eq := rfl
    item := fun _ => by
      rw [get?_of_listIndex? hi, Array.getElem?_setIfInBounds_self_of_lt hlt, Option.some_or]
    self := fun hnone => absurd ⟨items, i, rfl, hi, hlt⟩ hnone
    other := fun other hne => by
      by_cases hlength : other = "length"
      · rw [hlength, get?_length, get?_length, Array.size_setIfInBounds]
      · cases hj : listIndex? other with
        | none => rw [get?_of_not_listIndex? hj hlength, get?_of_not_listIndex? hj hlength]
        | some j =>
          have hij : i ≠ j := fun heq => hne (listIndex?_inj hi (heq ▸ hj))
          rw [get?_of_listIndex? hj, get?_of_listIndex? hj, Array.getElem?_setIfInBounds_ne hij] }

/-- Removing what stands beside the items of an array. -/
theorem erased_erase_of_le (hkey : key ≠ "length")
    (h : ∀ i, listIndex? key = some i → items.size ≤ i) :
    (⟨.list items, properties, parent⟩ : Object).Erased key
      ((⟨.list items, properties, parent⟩ : Object).erase key) := by
  -- no item stands under the key, so only a property can go
  have herase : (⟨.list items, properties, parent⟩ : Object).erase key =
      ⟨.list items, properties.erase key, parent⟩ := by
    cases hi : listIndex? key with
    | none => simp only [erase, hi]
    | some i => simp only [erase, hi, if_neg (Nat.not_lt.mpr (h i hi))]
  rw [herase]
  exact {
    shape_eq := rfl
    item := by
      rintro ⟨_, i, ⟨⟩, hi, hlt⟩
      exact absurd (h i hi) (Nat.not_le.mpr hlt)
    self := fun _ => by
      cases hi : listIndex? key with
      | none => rw [get?_of_not_listIndex? hi hkey, Bindings.get?_erase_self]
      | some i =>
        rw [get?_of_listIndex? hi, Array.getElem?_eq_none (h i hi), Option.none_or,
          Bindings.get?_erase_self]
    other := fun other hne => get?_congr (properties.get?_erase_of_ne hne) }

end List

/-- Removing from what is no array. -/
theorem erased_erase_of_not_list (h : o.isList = false) (key : String) :
    o.Erased key (o.erase key) := by
  have herase : (o.erase key).isList = false ∧
      (o.erase key).properties = o.properties.erase key := by
    obtain ⟨kind, properties, parent⟩ := o
    cases kind with
    | list items => cases h
    | plain => exact ⟨rfl, rfl⟩
    | function c => exact ⟨rfl, rfl⟩
  have hget (other : String) :
      (o.erase key).get? other = (o.properties.erase key).get? other := by
    rw [get?_of_not_list herase.1, herase.2]
  exact {
    shape_eq := o.shape_erase key
    item := by
      rintro ⟨items, i, hkind, -⟩
      rw [isList, hkind] at h
      cases h
    self := fun _ => by rw [hget, Bindings.get?_erase_self]
    other := fun other hne => by
      rw [hget, Bindings.get?_erase_of_ne _ hne, get?_of_not_list h] }

/-- What a write changes, anywhere but at the length of an array. -/
theorem written_insert (hkey : ¬ (key = "length" ∧ o.isList = true)) (value : Value) :
    o.Written key value (o.insert key value) := by
  -- a record, or an array with an index it can write to, or with another key
  cases hlist : o.isList with
  | false => exact written_insert_of_not_list hlist key value
  | true =>
    have hlength : key ≠ "length" := fun heq => hkey ⟨heq, hlist⟩
    obtain ⟨items, properties, parent, rfl⟩ := exists_list_of_isList hlist
    by_cases h : ∃ i, listIndex? key = some i ∧ i < maxListLength
    · obtain ⟨i, hi, hlt⟩ := h
      exact written_insert_of_lt hi hlt
    · exact written_insert_of_le hlength fun i hi => Nat.not_lt.mp fun hlt => h ⟨i, hi, hlt⟩

/-- What a removal changes, anywhere but at the length of an array. -/
theorem erased_erase (hkey : ¬ (key = "length" ∧ o.isList = true)) :
    o.Erased key (o.erase key) := by
  cases hlist : o.isList with
  | false => exact erased_erase_of_not_list hlist key
  | true =>
    have hlength : key ≠ "length" := fun heq => hkey ⟨heq, hlist⟩
    obtain ⟨items, properties, parent, rfl⟩ := exists_list_of_isList hlist
    -- the key is that of an item, or of something beside the items
    by_cases h : ∃ i, listIndex? key = some i ∧ i < items.size
    · obtain ⟨i, hi, hlt⟩ := h
      exact erased_erase_of_lt hi hlt
    · exact erased_erase_of_le hlength fun i hi => Nat.not_lt.mp fun hlt => h ⟨i, hi, hlt⟩

section Record

variable (h : o.isList = false)

include h

/-- What is written to a record is seen there. -/
theorem get?_insert_self (key : String) (value : Value) :
    (o.insert key value).get? key = some value :=
  (written_insert_of_not_list h key value).self (not_hasFarItem_of_not_list h)

/-- A write to a record is seen under no other key. -/
theorem get?_insert_of_ne {key other : String} (value : Value) (hne : other ≠ key) :
    (o.insert key value).get? other = o.get? other :=
  (written_insert_of_not_list h key value).other (fun ⟨_, _, hend⟩ => not_pastEnd_of_not_list h hend)
    other hne

end Record

end Object

namespace Store

variable {s : Store} {ref : ObjectRef} {key : String}

/-- Either another key than the length is written to, or another object than an array. -/
theorem isListLength_eq_false_iff :
    s.isListLength ref key = false ↔ ¬ (key = "length" ∧ (s.object ref).isList = true) := by
  rw [← Bool.not_eq_true, isListLength, Bool.and_eq_true, beq_iff_eq]

/-- What is no array has no length of its own. -/
theorem isListLength_of_not_list (h : (s.object ref).isList = false) :
    s.isListLength ref key = false := by
  rw [isListLength, h, Bool.and_false]

/-- Writing makes no object. -/
theorem objects_size_setOwn (s : Store) (ref : ObjectRef) (key : String) (v : Value) :
    (s.setOwn ref key v).objects.size = s.objects.size := by
  unfold setOwn
  split <;> exact Array.size_modify

/-- Writing to an object leaves the scopes as they are. -/
theorem scopes_setOwn (s : Store) (ref : ObjectRef) (key : String) (v : Value) :
    (s.setOwn ref key v).scopes = s.scopes := by
  unfold setOwn
  split <;> rfl

/-- Writing anything but the length of an array puts the value there. -/
theorem object_setOwn (hlt : ref.index < s.objects.size) (hkey : s.isListLength ref key = false)
    (value : Value) : (s.setOwn ref key value).object ref = (s.object ref).insert key value := by
  rw [setOwn, hkey, if_neg Bool.false_ne_true, object_modifyObject hlt]

/-- Whatever is written, an array stays an array, and a function the function it is. -/
theorem shape_setOwn (s : Store) (ref : ObjectRef) (key : String) (value : Value)
    (other : ObjectRef) :
    ((s.setOwn ref key value).object other).kind.shape = (s.object other).kind.shape := by
  unfold setOwn
  split
  · exact s.shape_modifyObject ref (fun o => shape_setLength?_getD o key value _) other
  · exact s.shape_modifyObject ref (fun o => o.shape_insert key value) other

/-- Writing to an object leaves all others as they are. -/
theorem object_setOwn_of_ne (key : String) (value : Value) {other : ObjectRef} (hne : other ≠ ref) :
    (s.setOwn ref key value).object other = s.object other := by
  unfold setOwn
  split <;> exact object_modifyObject_of_ne s hne _

end Store

end Descramble
