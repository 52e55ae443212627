import Descramble.Evaluation.Native
import Descramble.Proofs.Evaluation.Doing
import Descramble.Proofs.Value.Section

/-!
# Methods of arrays and strings keep to what they have

A method that changes an array leaves it, and gives back, exactly the items that the array had and
those that were put in; a method that cuts something out of an array or a string takes it from inside,
and the two sides of a cut put together are the whole.

Main statement: `Store.methods_lossless`.
-/

namespace Descramble

open Descramble.Action

namespace Store

variable {s : Store} {ref : ObjectRef} {items : Array Value}

/-- The store after other items were put into an array. -/
def withItems (s : Store) (ref : ObjectRef) (items : List Value) : Store :=
  s.modifyObject ref (·.withItems items)

/-- The items of an object are those of an array, if it is one. -/
theorem items?_object_eq_some_iff :
    s.items? (.object ref) = some items ↔ (s.object ref).kind = .list items := by
  simp only [items?, objectOf?, Option.bind_some, Object.items?]
  cases (s.object ref).kind <;> simp

/-- What has items is an array with them, with properties and a parent of its own. -/
theorem exists_object_of_items? (h : s.items? (.object ref) = some items) :
    ∃ properties parent, s.object ref = ⟨.list items, properties, parent⟩ := by
  have hkind := items?_object_eq_some_iff.mp h
  -- its kind is known, and the rest is whatever it is
  cases hobject : s.object ref with
  | mk kind properties parent =>
    rw [hobject] at hkind
    exact ⟨properties, parent, by rw [← hkind]⟩

/-- What has items is an object of the store. -/
theorem lt_of_items? (h : s.items? (.object ref) = some items) : ref.index < s.objects.size := by
  rw [items?_object_eq_some_iff] at h
  exact lt_of_kind_ne_plain fun hplain => nomatch h.symm.trans hplain

/-- An array with other items keeps its properties and its parent. -/
theorem object_withItems (h : s.items? (.object ref) = some items) (left : List Value) :
    (s.withItems ref left).object ref =
      ⟨.list left.toArray, (s.object ref).properties, (s.object ref).parent⟩ := by
  obtain ⟨properties, parent, hlist⟩ := exists_object_of_items? h
  rw [withItems, object_modifyObject (lt_of_items? h), hlist]
  rfl

/-- Putting the items of an array into it changes nothing. -/
theorem withItems_self (h : s.items? (.object ref) = some items) :
    s.withItems ref items.toList = s := by
  have hlt := lt_of_items? h
  have hsame : (s.object ref).withItems items.toList = s.object ref := by
    obtain ⟨properties, parent, hlist⟩ := exists_object_of_items? h
    rw [hlist]
    rfl
  have hobject : s.objects[ref.index]? = some (s.object ref) := by
    rw [object, Array.getElem?_eq_getElem hlt, Option.getD_some]
  -- the array itself gets its own items, and no other place is touched
  have hobjects : s.objects.modify ref.index (·.withItems items.toList) = s.objects := by
    apply Array.ext_getElem?
    intro i
    rw [Array.getElem?_modify]
    split
    · rename_i heq
      rw [← heq, hobject, Option.map_some, hsame]
    · rfl
  rw [withItems, modifyObject, hobjects]

/-- A store that a method has left, in which an array has other items and nothing else that was
    there has changed. -/
structure LeftWith (s : Store) (ref : ObjectRef) (left : List Value) (s' : Store) : Prop where
  items : s'.items? (.object ref) = some left.toArray
  properties : (s'.object ref).properties = (s.object ref).properties
  parent : (s'.object ref).parent = (s.object ref).parent
  other : ∀ other : ObjectRef, other ≠ ref → other.index < s.objects.size →
    s'.object other = s.object other
  objects_le : s.objects.size ≤ s'.objects.size
  scopes : s'.scopes = s.scopes

/-- A store in which nothing was put into the array. -/
theorem leftWith_self (h : s.items? (.object ref) = some items) :
    s.LeftWith ref items.toList s where
  items := h
  properties := rfl
  parent := rfl
  other := fun _ _ _ => rfl
  objects_le := Nat.le_refl _
  scopes := rfl

/-- A store in which other items were put into the array. -/
theorem leftWith_withItems (h : s.items? (.object ref) = some items) (left : List Value) :
    s.LeftWith ref left (s.withItems ref left) where
  items := by rw [items?_object_eq_some_iff, object_withItems h]
  properties := by rw [object_withItems h]
  parent := by rw [object_withItems h]
  other := fun _ hne _ => s.object_modifyObject_of_ne hne _
  objects_le := by simp [withItems, modifyObject]
  scopes := rfl

/-- What is made after that changes nothing that was there. -/
theorem LeftWith.addObject {s' : Store} {left : List Value} (h : s.LeftWith ref left s')
    (o : Object) : s.LeftWith ref left (s'.addObject o).2 := by
  have hsame {other : ObjectRef} (hlt : other.index < s'.objects.size) :
      (s'.addObject o).2.object other = s'.object other :=
    object_addObject_of_lt hlt o
  -- the array was there before, so it is not the new object
  have href := hsame (lt_of_items? h.items)
  exact {
    items := by
      rw [items?_object_eq_some_iff, href]
      exact items?_object_eq_some_iff.mp h.items
    properties := by rw [href, h.properties]
    parent := by rw [href, h.parent]
    other := fun other hne hlt => by
      rw [hsame (Nat.lt_of_lt_of_le hlt h.objects_le), h.other other hne hlt]
    objects_le := Nat.le_trans h.objects_le (by simp [Store.addObject])
    scopes := h.scopes }

/-- The items of a new array. -/
theorem items?_addObject_list (s : Store) (xs : List Value) :
    (s.addObject (.list xs.toArray)).2.items? (.object ⟨s.objects.size⟩) = some xs.toArray := by
  have hobject : (s.addObject (.list xs.toArray)).2.object ⟨s.objects.size⟩ = .list xs.toArray :=
    s.object_addObject _
  rw [items?_object_eq_some_iff, hobject]
  rfl

/-! ## The laws -/

/-- What the methods of an array come to: each leaves it and gives back together the items that it
    had and those that were put in, in their order, and looks at no place outside. -/
structure ListLaws (s : Store) (ref : ObjectRef) (items : List Value) : Prop where
  splice : ∀ args : List Value,
    let start := (s.offsetOf (argument args 0)).relativeTo items.length
    let count := if args.length < 2 then items.length - start
      else (s.offsetOf (argument args 1)).clampTo (items.length - start)
    start + count ≤ items.length ∧ ∃ removed s',
      runNative (.list .splice) (.object ref) args s = .done (.ok (.object removed)) s' ∧
      s.LeftWith ref (items.take start ++ args.drop 2 ++ items.drop (start + count)) s' ∧
      s.objects.size ≤ removed.index ∧
      s'.items? (.object removed) = some ((items.drop start).take count).toArray
  push : ∀ args, ∃ s', runNative (.list .push) (.object ref) args s =
    .done (.ok (.number (.ofNat (items ++ args).length))) s' ∧ s.LeftWith ref (items ++ args) s'
  unshift : ∀ args, ∃ s', runNative (.list .unshift) (.object ref) args s =
    .done (.ok (.number (.ofNat (args ++ items).length))) s' ∧ s.LeftWith ref (args ++ items) s'
  pop : ∀ args front last, items = front ++ [last] → ∃ s',
    runNative (.list .pop) (.object ref) args s = .done (.ok last) s' ∧ s.LeftWith ref front s'
  pop_nil : ∀ args, items = [] →
    runNative (.list .pop) (.object ref) args s = .done (.ok .undefined) s
  shift : ∀ args first rest, items = first :: rest → ∃ s',
    runNative (.list .shift) (.object ref) args s = .done (.ok first) s' ∧ s.LeftWith ref rest s'
  shift_nil : ∀ args, items = [] →
    runNative (.list .shift) (.object ref) args s = .done (.ok .undefined) s
  reverse : ∀ args, ∃ s', runNative (.list .reverse) (.object ref) args s =
    .done (.ok (.object ref)) s' ∧ s.LeftWith ref items.reverse s'
  slice : ∀ args,
    let start := (s.offsetOf (argument args 0)).relativeTo items.length
    let stop := (s.stopOf (argument args 1)).relativeTo items.length
    ∃ made s' part, runNative (.list .slice) (.object ref) args s = .done (.ok (.object made)) s' ∧
      s.LeftWith ref items s' ∧ s.objects.size ≤ made.index ∧
      s'.items? (.object made) = some part.toArray ∧ IsSection items start (max start stop) part
  slice_append : ∀ n : Number, ∃ front middle back s' xs ys,
    runNative (.list .slice) (.object ref) [.number .zero, .number n] s =
      .done (.ok (.object front)) middle ∧
    runNative (.list .slice) (.object ref) [.number n] middle = .done (.ok (.object back)) s' ∧
    s.LeftWith ref items s' ∧ s'.items? (.object front) = some xs.toArray ∧
    s'.items? (.object back) = some ys.toArray ∧ xs ++ ys = items

/-- A method picks out a character of a text by its place, if it has one there. -/
def PicksAt (s : Store) (t : String) (m : TextMethod) (found : Char → Value) (missing : Value) :
    Prop :=
  ∀ args : List Value,
    (∃ (i : Nat) (c : Char), s.offsetOf (argument args 0) = .at i ∧ t.toList[i]? = some c ∧
      runNative (.text m) (.text t) args s = .done (.ok (found c)) s) ∨
    ((∀ i : Nat, s.offsetOf (argument args 0) = .at i → t.toList.length ≤ i) ∧
      runNative (.text m) (.text t) args s = .done (.ok missing) s)

/-- What the methods of a text come to that take something out of it: each looks at no place
    outside, and two that cut it in the same place give all of it. -/
structure TextLaws (s : Store) (t : String) : Prop where
  slice : ∀ args,
    let start := (s.offsetOf (argument args 0)).relativeTo t.toList.length
    let stop := (s.stopOf (argument args 1)).relativeTo t.toList.length
    ∃ part, runNative (.text .slice) (.text t) args s =
      .done (.ok (.text (String.ofList part))) s ∧ IsSection t.toList start (max start stop) part
  substring : ∀ args,
    let one := (s.offsetOf (argument args 0)).clampTo t.toList.length
    let other := (s.stopOf (argument args 1)).clampTo t.toList.length
    ∃ part, runNative (.text .substring) (.text t) args s =
      .done (.ok (.text (String.ofList part))) s ∧
      IsSection t.toList (min one other) (max one other) part
  substr : ∀ args,
    let start := (s.offsetOf (argument args 0)).relativeTo t.toList.length
    let count := (s.stopOf (argument args 1)).clampTo (t.toList.length - start)
    ∃ part, runNative (.text .substr) (.text t) args s =
      .done (.ok (.text (String.ofList part))) s ∧ IsSection t.toList start (start + count) part
  charAt : s.PicksAt t .charAt (fun c => .text (String.singleton c)) (.text "")
  charCodeAt : s.PicksAt t .charCodeAt (fun c => .number (.ofNat c.toNat)) (.number .nan)
  slice_append : ∀ n : Number, ∃ front back,
    runNative (.text .slice) (.text t) [.number .zero, .number n] s = .done (.ok (.text front)) s ∧
    runNative (.text .slice) (.text t) [.number n] s = .done (.ok (.text back)) s ∧
    front ++ back = t
  substring_append : ∀ n : Number, ∃ front back,
    runNative (.text .substring) (.text t) [.number .zero, .number n] s =
      .done (.ok (.text front)) s ∧
    runNative (.text .substring) (.text t) [.number n] s = .done (.ok (.text back)) s ∧
    front ++ back = t

end Store

namespace Action

variable {s : Store} {ref : ObjectRef} {items : Array Value} {args : List Value}

/-- A method that is called on an array works on its items. -/
theorem runNative_list (h : s.items? (.object ref) = some items) (m : ListMethod)
    (args : List Value) :
    runNative (.list m) (.object ref) args s = m.run ref items.toList args s := by
  -- the receiver is looked up first
  simp only [runNative, runMethod]
  rw [read_bind, h]

/-! ## Arrays -/

/-- What a splice comes to, whether or not it is given a count. -/
theorem run_splice (ref : ObjectRef) (args : List Value) (s : Store) (xs : List Value) :
    let start := (s.offsetOf (argument args 0)).relativeTo xs.length
    let count := if args.length < 2 then xs.length - start
      else (s.offsetOf (argument args 1)).clampTo (xs.length - start)
    let left := s.withItems ref (xs.take start ++ args.drop 2 ++ xs.drop (start + count))
    ListMethod.splice.run ref xs args s = .done (.ok (.object ⟨left.objects.size⟩))
      (left.addObject (.list ((xs.drop start).take count).toArray)).2 := by
  -- without a count everything up to the end is removed
  by_cases hfew : args.length < 2
  · simp only [ListMethod.run, if_pos hfew]
    rfl
  · simp only [ListMethod.run, if_neg hfew]
    rfl

/-- A slice of an array is made as a new array. -/
theorem run_slice (args : List Value) (s : Store) (xs : List Value) :
    ListMethod.slice.run ref xs args s = .done (.ok (.object ⟨s.objects.size⟩))
      (s.addObject (.list ((s.offsetOf (argument args 0)).slice (s.stopOf (argument args 1))
        xs).toArray)).2 :=
  rfl

/-! ## Texts -/

/-- A slice of a text changes nothing. -/
theorem runNative_slice (t : String) (args : List Value) (s : Store) :
    runNative (.text .slice) (.text t) args s = .done (.ok (.text (String.ofList
      ((s.offsetOf (argument args 0)).slice (s.stopOf (argument args 1)) t.toList)))) s :=
  rfl

/-- Between two places of a text. -/
theorem runNative_substring (t : String) (args : List Value) (s : Store) :
    runNative (.text .substring) (.text t) args s = .done (.ok (.text (String.ofList
      ((s.offsetOf (argument args 0)).between (s.stopOf (argument args 1)) t.toList)))) s :=
  rfl

/-- From a place of a text on, as many characters as asked for. -/
theorem runNative_substr (t : String) (args : List Value) (s : Store) :
    runNative (.text .substr) (.text t) args s = .done (.ok (.text (String.ofList
      ((s.offsetOf (argument args 0)).run (s.stopOf (argument args 1)) t.toList)))) s :=
  rfl

end Action

namespace Store

variable {s : Store} {ref : ObjectRef} {items : Array Value}

/-- Zero counts from the start. -/
theorem offsetOf_zero (s : Store) : s.offsetOf (.number .zero) = .at 0 := by
  have hzero : Number.zero.toOffset = .at 0 := by decide
  exact hzero

/-- Every method of an array, in a store that has the array. -/
theorem listLaws (h : s.items? (.object ref) = some items) : s.ListLaws ref items.toList where
  splice := by
    intro args start count
    have hstart : start ≤ items.toList.length := Offset.relativeTo_le _ _
    -- without a count, all that is left; otherwise what is asked for, cut down to that
    have hcount : count ≤ items.toList.length - start := by
      simp only [count]
      split
      · exact Nat.le_refl _
      · exact Offset.clampTo_le _ _
    -- the array is written first; what was removed goes into an array made after that
    have hleft := leftWith_withItems h
      (items.toList.take start ++ args.drop 2 ++ items.toList.drop (start + count))
    exact ⟨by omega, _, _, (runNative_list h _ _).trans (run_splice ref args s items.toList),
      hleft.addObject _, hleft.objects_le, items?_addObject_list _ _⟩
  push := fun args => ⟨s.withItems ref (items.toList ++ args), by
    rw [runNative_list h, List.length_append]
    rfl, leftWith_withItems h _⟩
  unshift := fun args => ⟨s.withItems ref (args ++ items.toList), by
    rw [runNative_list h, List.length_append]
    rfl, leftWith_withItems h _⟩
  -- dropping the last item of what ends in one leaves what was before it
  pop := fun args front last hitems => ⟨s.withItems ref front, by
    have hrun : ListMethod.pop.run ref (front ++ [last]) args s =
        .done (.ok ((front ++ [last]).getLast?.getD .undefined))
          (s.withItems ref (front ++ [last]).dropLast) := rfl
    rw [runNative_list h, hitems, hrun, List.getLast?_concat, List.dropLast_concat]
    rfl, leftWith_withItems h _⟩
  pop_nil := fun args hitems => by
    have hrun : ListMethod.pop.run ref [] args s =
        .done (.ok .undefined) (s.withItems ref []) := rfl
    -- an empty array is written back as it is
    rw [runNative_list h, hitems, hrun, ← hitems, withItems_self h]
  shift := fun args first rest hitems => ⟨s.withItems ref rest, by
    rw [runNative_list h, hitems]
    rfl, leftWith_withItems h _⟩
  shift_nil := fun args hitems => by
    have hrun : ListMethod.shift.run ref [] args s =
        .done (.ok .undefined) (s.withItems ref []) := rfl
    rw [runNative_list h, hitems, hrun, ← hitems, withItems_self h]
  reverse := fun args => ⟨s.withItems ref items.toList.reverse, by
    rw [runNative_list h]
    rfl, leftWith_withItems h _⟩
  slice := fun args => ⟨⟨s.objects.size⟩, _, _, by rw [runNative_list h, run_slice],
    (leftWith_self h).addObject _, Nat.le_refl _, s.items?_addObject_list _,
    Offset.isSection_slice _ _ _⟩
  slice_append := by
    intro n
    -- the second cut is made in the store that the first one has left, where the array is as before
    let front := Offset.slice (.at 0) n.toOffset items.toList
    let middle := (s.addObject (.list front.toArray)).2
    have hmiddle : s.LeftWith ref items.toList middle := (leftWith_self h).addObject _
    have hfront := leftWith_self (s.items?_addObject_list front)
    refine ⟨⟨s.objects.size⟩, middle, ⟨middle.objects.size⟩, _, front,
      Offset.slice n.toOffset .beyond items.toList, ?_, ?_, hmiddle.addObject _,
      (hfront.addObject _).items, middle.items?_addObject_list _, n.toOffset.slice_append_slice _⟩
    · have hstart : s.offsetOf (argument [.number .zero, .number n] 0) = .at 0 := s.offsetOf_zero
      rw [runNative_list h, run_slice, hstart]
      rfl
    · rw [runNative_list hmiddle.items, run_slice]
      rfl

/-- A method that goes by the place of its argument picks out a character. -/
theorem picksAt_of_run {t : String} {m : TextMethod} {found : Char → Value} {missing : Value}
    (hsome : ∀ args i c, (s.offsetOf (argument args 0)).index? t.toList.length = some i →
      t.toList[i]? = some c → m.run t args s = .done (.ok (found c)) s)
    (hnone : ∀ args, (s.offsetOf (argument args 0)).index? t.toList.length = none →
      m.run t args s = .done (.ok missing) s) : s.PicksAt t m found missing := by
  intro args
  -- the place lies in the text, or it does not
  cases hi : (s.offsetOf (argument args 0)).index? t.toList.length with
  | none =>
    refine .inr ⟨fun i hat => Nat.not_lt.mp fun hlt => ?_, hnone args hi⟩
    rw [Offset.index?_eq_some_iff.mpr ⟨hat, hlt⟩] at hi
    cases hi
  | some i =>
    obtain ⟨hat, hlt⟩ := Offset.index?_eq_some_iff.mp hi
    have hchar : t.toList[i]? = some t.toList[i] := List.getElem?_eq_getElem hlt
    exact .inl ⟨i, _, hat, hchar, hsome args i _ hi hchar⟩

/-- Every method that takes something out of a text. -/
theorem textLaws (s : Store) (t : String) : s.TextLaws t where
  slice := fun args => ⟨_, runNative_slice t args s, Offset.isSection_slice _ _ _⟩
  substring := fun args => ⟨_, runNative_substring t args s, Offset.isSection_between _ _ _⟩
  substr := fun args => ⟨_, runNative_substr t args s, Offset.isSection_run _ _ _⟩
  charAt := by
    apply picksAt_of_run
    · intro args i c hi hc
      simp only [TextMethod.run]
      -- the argument is read for its place, which then picks the character
      rw [read_bind, hi]
      show Step.done _ _ = _
      rw [hc, Option.toList_some, String.singleton_eq_ofList]
    · intro args hi
      simp only [TextMethod.run]
      rw [read_bind, hi]
      rfl
  charCodeAt := by
    apply picksAt_of_run
    · intro args i c hi hc
      simp only [TextMethod.run]
      rw [read_bind, hi]
      show Step.done _ _ = _
      rw [hc, Option.map_some, Option.getD_some]
    · intro args hi
      simp only [TextMethod.run]
      rw [read_bind, hi]
      rfl
  slice_append := fun n => by
    have hstart : s.offsetOf (argument [.number .zero, .number n] 0) = .at 0 := s.offsetOf_zero
    refine ⟨_, _, runNative_slice t _ s, runNative_slice t _ s, ?_⟩
    rw [hstart, ← String.ofList_append]
    exact (congrArg String.ofList (n.toOffset.slice_append_slice t.toList)).trans
      String.ofList_toList
  substring_append := fun n => by
    have hstart : s.offsetOf (argument [.number .zero, .number n] 0) = .at 0 := s.offsetOf_zero
    refine ⟨_, _, runNative_substring t _ s, runNative_substring t _ s, ?_⟩
    rw [hstart, ← String.ofList_append]
    exact (congrArg String.ofList (n.toOffset.between_append_between t.toList)).trans
      String.ofList_toList

/-- Methods of arrays and of strings neither lose nor double anything, and never look outside. -/
theorem methods_lossless (s : Store) :
    (∀ ref items, s.items? (.object ref) = some items → s.ListLaws ref items.toList) ∧
      ∀ t, s.TextLaws t :=
  ⟨fun _ _ h => listLaws h, textLaws s⟩

/-- The second of three items, counted from the end, makes room for a text. -/
theorem methods_lossless_spliced :
    let s := (Store.empty.addObject (.list #[.flag true, .null, .flag false])).2
    ∃ removed s', runNative (.list .splice) (.object ⟨1⟩)
        [.number (.ofInt (-2)), .number (.ofNat 1), .text "x"] s = .done (.ok (.object removed)) s' ∧
      s'.items? (.object ⟨1⟩) = some #[.flag true, .text "x", .flag false] ∧
      s'.items? (.object removed) = some #[.null] := by
  intro s
  -- the array is the only object beside the global one
  have hitems : s.items? (.object ⟨1⟩) = some #[.flag true, .null, .flag false] := by decide
  obtain ⟨-, removed, s', hrun, hleft, -, hremoved⟩ := ((methods_lossless s).1 _ _ hitems).splice
    [.number (.ofInt (-2)), .number (.ofNat 1), .text "x"]
  refine ⟨removed, s', hrun, hleft.items.trans ?_, hremoved.trans ?_⟩
  · decide +kernel
  · decide +kernel

end Store

end Descramble
