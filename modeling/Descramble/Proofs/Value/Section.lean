import Descramble.Value.Section

/-!
# Sections lie in their sequence

A position is moved into a sequence before it is used. So what it cuts out lies between two places of
the sequence, and the two sides of a cut put together are the sequence.

Main statements: `isSection_slice`, `isSection_between` and `isSection_run`, where a section lies;
`slice_append_slice` and `between_append_between`, the two sides of a cut.
-/

namespace Descramble

variable {α : Type}

/-- A part of a sequence that begins and ends at two places in it. -/
structure IsSection (xs : List α) (start stop : Nat) (part : List α) : Prop where
  start_le : start ≤ stop
  stop_le : stop ≤ xs.length
  eq : part = (xs.take stop).drop start

namespace Offset

variable (o o' : Offset)

/-- A position that may count from the end is moved into the sequence. -/
theorem relativeTo_le (len : Nat) : o.relativeTo len ≤ len := by
  cases o with
  | before => exact Nat.zero_le len
  | «at» i =>
    simp only [relativeTo]
    split <;> omega
  | beyond => exact Nat.le_refl len

/-- A position that counts from the start is moved into the sequence. -/
theorem clampTo_le (len : Nat) : o.clampTo len ≤ len := by
  cases o with
  | before => exact Nat.zero_le len
  | «at» i => exact Nat.min_le_right _ _
  | beyond => exact Nat.le_refl len

/-- The place of a position is the position itself, and a place of the sequence. -/
theorem index?_eq_some_iff {o : Offset} {len i : Nat} :
    o.index? len = some i ↔ o = .at i ∧ i < len := by
  cases o with
  | «at» j =>
    simp only [index?, Offset.at.injEq]
    split <;> simp <;> omega
  | before => simp [index?]
  | beyond => simp [index?]

/-- A section that ends before it begins is empty. -/
theorem take_max_drop (xs : List α) (start stop : Nat) :
    (xs.take (max start stop)).drop start = (xs.take stop).drop start := by
  -- with the places crossed, both sides take fewer items than they drop
  by_cases h : start ≤ stop
  · rw [Nat.max_eq_right h]
  · rw [Nat.max_eq_left (by omega), List.drop_eq_nil_of_le (List.length_take_le start xs),
      List.drop_eq_nil_of_le (Nat.le_trans (List.length_take_le stop xs) (by omega))]

/-- A slice lies between its two places, and is empty where they are crossed. -/
theorem isSection_slice (xs : List α) :
    IsSection xs (o.relativeTo xs.length)
      (max (o.relativeTo xs.length) (o'.relativeTo xs.length)) (o.slice o' xs) where
  start_le := Nat.le_max_left _ _
  stop_le := Nat.max_le.mpr ⟨o.relativeTo_le _, o'.relativeTo_le _⟩
  eq := (take_max_drop xs _ _).symm

/-- What lies between two places does so in either order. -/
theorem isSection_between (xs : List α) :
    IsSection xs (min (o.clampTo xs.length) (o'.clampTo xs.length))
      (max (o.clampTo xs.length) (o'.clampTo xs.length)) (o.between o' xs) where
  start_le := by omega
  stop_le := Nat.max_le.mpr ⟨o.clampTo_le _, o'.clampTo_le _⟩
  eq := rfl

/-- A run begins at its place and is no longer than what is left. -/
theorem isSection_run (xs : List α) :
    IsSection xs (o.relativeTo xs.length)
      (o.relativeTo xs.length + o'.clampTo (xs.length - o.relativeTo xs.length))
      (o.run o' xs) where
  start_le := Nat.le_add_right _ _
  stop_le := by
    -- the place lies in the sequence, and the count is cut down to what is left of it
    have hstart := o.relativeTo_le xs.length
    have hcount := o'.clampTo_le (xs.length - o.relativeTo xs.length)
    omega
  eq := by rw [List.drop_take, Nat.add_sub_cancel_left, run]

/-- Two slices that cut a sequence in one place. -/
theorem slice_append_slice (xs : List α) :
    slice (.at 0) o xs ++ slice o .beyond xs = xs := by
  -- the first begins at the start, and the second ends at the end
  have hzero : (Offset.at 0).relativeTo xs.length = 0 := Nat.zero_min xs.length
  rw [slice, slice, hzero, List.drop_zero, relativeTo, List.take_length, List.take_append_drop]

/-- The same for what lies between two places. -/
theorem between_append_between (xs : List α) :
    between (.at 0) o xs ++ between o .beyond xs = xs := by
  -- the first part begins at the start, and the second ends at the end
  have hzero : (Offset.at 0).clampTo xs.length = 0 := Nat.zero_min xs.length
  have hend : (Offset.beyond).clampTo xs.length = xs.length := rfl
  rw [between, between, hzero, hend, Nat.zero_max, Nat.zero_min, List.drop_zero,
    Nat.max_eq_right (o.clampTo_le _), Nat.min_eq_left (o.clampTo_le _), List.take_length,
    List.take_append_drop]

end Offset

end Descramble
