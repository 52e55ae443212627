import Descramble.Proofs.Evaluation.Method

/-!
# Methods that visit every item

Two methods of arrays call a function with one item after the other. They go by the items that the
array has when the method is called: the function may put others in, take some out or visit the
array itself, and is still called once with each of those.

`Visits` says of a list of items that every visit ends in a value, and `StopsVisiting` that one does
not, after others that do. The calls themselves may do anything: each starts in the store that the
one before it has left.

Main statements: `Action.ends_callForEach_iff`, what calling a function for every item comes to, and
`Store.visits_snapshot`, what the two methods come to.
-/

namespace Descramble

open Descramble.Action

/-- A call of a function with an item of an array, its place and the array. -/
def Action.visit (f this : Value) (ref : ObjectRef) (place : Nat) (item : Value) : Action Value :=
  call f this [item, .number (.ofNat place), .object ref]

/-- Items from a place of an array on are visited once each, in order, and every visit ends in a
    value: the values in the same order, and the store after the last visit. -/
inductive Visits (d : Nat) (f this : Value) (ref : ObjectRef) :
    Nat → List Value → Store → List Value → Store → Prop where
  | nil {place : Nat} {s : Store} : Visits d f this ref place [] s [] s
  | cons {place : Nat} {item v : Value} {rest values : List Value} {s middle s' : Store}
      (hcall : (visit f this ref place item s).Ends d (.ok v) middle d)
      (hrest : Visits d f this ref (place + 1) rest middle values s') :
      Visits d f this ref place (item :: rest) s (v :: values) s'

/-- Items are visited up to one whose visit ends in a fault: the fault, and the store that this visit
    has left. -/
def StopsVisiting (d : Nat) (f this : Value) (ref : ObjectRef) (place : Nat) (items : List Value)
    (s : Store) (fault : Fault) (s' : Store) : Prop :=
  ∃ front item back values middle, items = front ++ item :: back ∧
    Visits d f this ref place front s values middle ∧
    (visit f this ref (place + front.length) item middle).Ends d (.error fault) s' d

section

variable {d place : Nat} {f this : Value} {ref : ObjectRef} {items results : List Value}
  {s s' : Store}

/-- There is one value for every item. -/
theorem Visits.length_eq {values : List Value} (h : Visits d f this ref place items s values s') :
    values.length = items.length := by
  induction h with
  | nil => rfl
  | cons _ _ ih => rw [List.length_cons, List.length_cons, ih]

/-- Without items nothing is visited and nothing changes. -/
theorem visits_nil_iff {values : List Value} :
    Visits d f this ref place [] s values s' ↔ values = [] ∧ s' = s := by
  constructor
  · intro h
    cases h
    exact ⟨rfl, rfl⟩
  · rintro ⟨rfl, rfl⟩
    exact .nil

/-- Without items no visit can end in a fault. -/
theorem not_stopsVisiting_nil {fault : Fault} :
    ¬ StopsVisiting d f this ref place [] s fault s' := by
  rintro ⟨front, item, back, _, _, hitems, _⟩
  cases front <;> cases hitems

/-- The first visit ends in the fault, or it ends in a value and a later one in the fault. -/
theorem stopsVisiting_cons_iff {item : Value} {rest : List Value} {fault : Fault} :
    StopsVisiting d f this ref place (item :: rest) s fault s' ↔
      (visit f this ref place item s).Ends d (.error fault) s' d ∨
      ∃ v middle, (visit f this ref place item s).Ends d (.ok v) middle d ∧
        StopsVisiting d f this ref (place + 1) rest middle fault s' := by
  constructor
  · rintro ⟨front, last, back, values, middle, hitems, hvisits, hlast⟩
    -- the one in front of the fault is the first item, or there is none in front
    cases hvisits with
    | nil =>
      cases hitems
      exact .inl hlast
    | cons hcall hrest =>
      cases hitems
      -- places count from the item that comes first
      rw [List.length_cons, ← Nat.add_assoc, Nat.add_right_comm] at hlast
      exact .inr ⟨_, _, hcall, _, _, _, _, _, rfl, hrest, hlast⟩
  · rintro (hcall | ⟨v, middle, hcall, front, last, back, values, before, rfl, hvisits, hlast⟩)
    · exact ⟨[], item, rest, [], s, rfl, .nil, hcall⟩
    · refine ⟨item :: front, last, back, v :: values, before, rfl, .cons hcall hvisits, ?_⟩
      rw [List.length_cons, ← Nat.add_assoc, Nat.add_right_comm]
      exact hlast

/-- What one turn comes to: the visit of the first item, and where that ends in a value the turns
    for the others. -/
theorem Action.ends_callForEach_cons_iff {item : Value} {rest : List Value}
    {r : Except Fault (List Value)} :
    (callForEach f this ref place results (item :: rest) s).Ends d r s' d ↔
      (∃ v middle, (visit f this ref place item s).Ends d (.ok v) middle d ∧
        (callForEach f this ref (place + 1) (v :: results) rest middle).Ends d r s' d) ∨
      ∃ fault : Fault, (visit f this ref place item s).Ends d (.error fault) s' d ∧
        r = .error fault :=
  Step.Ends.bind_iff

/-- Calling a function for every item comes to the values of all visits, or to the fault of one. -/
theorem Action.ends_callForEach_iff {r : Except Fault (List Value)} :
    (callForEach f this ref place results items s).Ends d r s' d ↔
      (∃ values, Visits d f this ref place items s values s' ∧
        r = .ok (results.reverse ++ values)) ∨
      ∃ fault, StopsVisiting d f this ref place items s fault s' ∧ r = .error fault := by
  -- whatever a visit does to the array, the items still to come are those of the list
  induction items generalizing place results s with
  | nil =>
    have hdone : callForEach f this ref place results [] s = .done (.ok results.reverse) s := rfl
    rw [hdone, Step.Ends.done_iff]
    simp only [visits_nil_iff, not_stopsVisiting_nil, false_and, exists_false, or_false]
    constructor
    · rintro ⟨rfl, rfl⟩
      exact ⟨[], ⟨rfl, rfl⟩, by rw [List.append_nil]⟩
    · rintro ⟨_, ⟨rfl, rfl⟩, rfl⟩
      exact ⟨by rw [List.append_nil], rfl⟩
  | cons item rest ih =>
    rw [ends_callForEach_cons_iff]
    simp only [ih, List.reverse_cons, List.append_assoc, List.singleton_append]
    constructor
    · rintro (⟨v, middle, hcall, ⟨values, hrest, rfl⟩ | ⟨fault, hstop, rfl⟩⟩ | ⟨fault, hcall, rfl⟩)
      · exact .inl ⟨_, .cons hcall hrest, rfl⟩
      · exact .inr ⟨fault, stopsVisiting_cons_iff.mpr (.inr ⟨v, middle, hcall, hstop⟩), rfl⟩
      · exact .inr ⟨fault, stopsVisiting_cons_iff.mpr (.inl hcall), rfl⟩
    · rintro (⟨values, hvisits, rfl⟩ | ⟨fault, hstop, rfl⟩)
      · cases hvisits with
        | cons hcall hrest => exact .inl ⟨_, _, hcall, .inl ⟨_, hrest, rfl⟩⟩
      · obtain hcall | ⟨v, middle, hcall, hrest⟩ := stopsVisiting_cons_iff.mp hstop
        · exact .inr ⟨fault, hcall, rfl⟩
        · exact .inl ⟨v, middle, hcall, .inr ⟨fault, hrest, rfl⟩⟩

end

namespace Store

variable {s : Store} {ref : ObjectRef} {items : Array Value} {args : List Value}

/-- With a function as its first argument a method that visits every item calls it from the first
    item on. -/
theorem mapItems_of_isFunction (hf : s.isFunction (argument args 0) = true) (xs : List Value) :
    mapItems ref xs args s = callForEach (argument args 0) (argument args 1) ref 0 [] xs s := by
  unfold mapItems
  rw [read_bind, if_pos hf]

/-- What a method comes to that does something with the values of all visits. -/
theorem ends_mapItems_bind_iff (hf : s.isFunction (argument args 0) = true) {xs : List Value}
    {g : List Value → Action Value} {d : Nat} {r : Except Fault Value} {s' : Store} :
    ((mapItems ref xs args >>= g) s).Ends d r s' d ↔
      (∃ values after, Visits d (argument args 0) (argument args 1) ref 0 xs s values after ∧
        (g values after).Ends d r s' d) ∨
      ∃ fault, StopsVisiting d (argument args 0) (argument args 1) ref 0 xs s fault s' ∧
        r = .error fault := by
  rw [Step.Ends.bind_iff, mapItems_of_isFunction hf]
  simp only [ends_callForEach_iff, List.reverse_nil, List.nil_append]
  constructor
  · rintro (⟨_, after, ⟨values, hvisits, hvalues⟩ | ⟨fault, -, hfault⟩, hg⟩ |
      ⟨fault, ⟨values, -, hvalues⟩ | ⟨fault', hstop, hfault⟩, rfl⟩)
    · cases hvalues
      exact .inl ⟨_, after, hvisits, hg⟩
    -- the turns gave values, so their fault is none of the first kind
    · cases hfault
    · cases hvalues
    · cases hfault
      exact .inr ⟨_, hstop, rfl⟩
  · rintro (⟨values, after, hvisits, hg⟩ | ⟨fault, hstop, rfl⟩)
    · exact .inl ⟨values, after, .inl ⟨values, hvisits, rfl⟩, hg⟩
    · exact .inr ⟨fault, .inr ⟨fault, hstop, rfl⟩, rfl⟩

/-- The two methods that visit every item of an array visit those that it has when the method is
    called, once each and in order, whatever the visits do to it. Where all visits end in a value,
    `map` ends in a new array of these values and `forEach` in `undefined`; otherwise both end in
    the first fault, as soon as there is one, with what the visits up to it have left. -/
theorem visits_snapshot (h : s.items? (.object ref) = some items)
    (hf : s.isFunction (argument args 0) = true) (d : Nat) (r : Except Fault Value)
    (s' : Store) :
    let f := argument args 0
    let this := argument args 1
    ((runNative (.list .map) (.object ref) args s).Ends d r s' d ↔
      (∃ values after, Visits d f this ref 0 items.toList s values after ∧
        values.length = items.size ∧ r = .ok (.object ⟨after.objects.size⟩) ∧
        s' = (after.addObject (.list values.toArray)).2 ∧
        s'.items? (.object ⟨after.objects.size⟩) = some values.toArray) ∨
      ∃ fault, StopsVisiting d f this ref 0 items.toList s fault s' ∧ r = .error fault) ∧
    ((runNative (.list .forEach) (.object ref) args s).Ends d r s' d ↔
      (∃ values, Visits d f this ref 0 items.toList s values s' ∧ r = .ok .undefined) ∨
      ∃ fault, StopsVisiting d f this ref 0 items.toList s fault s' ∧ r = .error fault) := by
  intro f this
  rw [runNative_list h, runNative_list h]
  constructor
  -- `map` makes an array of the values that the visits ended in
  · have hrun : ListMethod.map.run ref items.toList args =
        (mapItems ref items.toList args >>= makeList) := rfl
    rw [hrun, ends_mapItems_bind_iff hf]
    apply or_congr_left
    constructor
    · rintro ⟨values, after, hvisits, hmade⟩
      obtain ⟨rfl, rfl⟩ := Step.Ends.done_iff.mp hmade
      exact ⟨values, after, hvisits, hvisits.length_eq, rfl, rfl, after.items?_addObject_list values⟩
    · rintro ⟨values, after, hvisits, -, rfl, rfl, -⟩
      exact ⟨values, after, hvisits, .done⟩
  -- `forEach` has no use for them
  · have hrun : ListMethod.forEach.run ref items.toList args =
        (mapItems ref items.toList args >>= fun _ => pure .undefined) := rfl
    rw [hrun, ends_mapItems_bind_iff hf]
    apply or_congr_left
    constructor
    · rintro ⟨values, after, hvisits, hdone⟩
      obtain ⟨rfl, rfl⟩ := Step.Ends.done_iff.mp hdone
      exact ⟨values, hvisits, rfl⟩
    · rintro ⟨values, hvisits, rfl⟩
      exact ⟨values, s', hvisits, .done⟩

/-- What the function does to the array: it appends the item, its place and the array itself. Two
    items are visited, not the eight that there are in the end. -/
theorem visits_snapshot_pushed :
    let s := ((Store.empty.addObject (.list #[.flag true, .null])).2.addObject
      (.function (.native (.list .push)))).2
    let args : List Value := [.object ⟨2⟩, .object ⟨1⟩]
    s.items? (.object ⟨1⟩) = some #[.flag true, .null] ∧
      s.isFunction (argument args 0) = true ∧
      ∃ s', (runNative (.list .map) (.object ⟨1⟩) args s).Ends 0 (.ok (.object ⟨3⟩)) s' 0 ∧
        s'.items? (.object ⟨3⟩) = some #[.number (.ofNat 5), .number (.ofNat 8)] ∧
        (s'.items? (.object ⟨1⟩)).map Array.size = some 8 := by
  intro s args
  have hitems : s.items? (.object ⟨1⟩) = some #[.flag true, .null] := by decide
  have hf : s.isFunction (argument args 0) = true := by decide
  obtain ⟨after, hvisits, hsize, hpushed⟩ :
      ∃ after, Visits 0 (.object ⟨2⟩) (.object ⟨1⟩) ⟨1⟩ 0 [.flag true, .null] s
          [.number (.ofNat 5), .number (.ofNat 8)] after ∧
        after.objects.size = 3 ∧ (after.items? (.object ⟨1⟩)).map Array.size = some 8 :=
    -- each visit is a call of `push` with three arguments
    ⟨_, .cons (.call (by decide) .done .done) (.cons (.call (by decide) .done .done) .nil),
      by decide, by decide⟩
  let results : Object := .list #[.number (.ofNat 5), .number (.ofNat 8)]
  have hmade : (⟨after.objects.size⟩ : ObjectRef) = ⟨3⟩ := congrArg _ hsize
  have hnew : (after.addObject results).2.items? (.object ⟨3⟩) =
      some #[.number (.ofNat 5), .number (.ofNat 8)] := by
    rw [← hmade]
    exact after.items?_addObject_list [.number (.ofNat 5), .number (.ofNat 8)]
  have hold : (after.addObject results).2.items? (.object ⟨1⟩) = after.items? (.object ⟨1⟩) := by
    have hlt : (⟨1⟩ : ObjectRef).index < after.objects.size := by
      rw [hsize]
      decide
    rw [items?, items?, objectOf?, objectOf?, object_addObject_of_lt hlt]
  refine ⟨hitems, hf, (after.addObject results).2, ?_, hnew, by rw [hold, hpushed]⟩
  rw [← hmade] at hnew ⊢
  exact (visits_snapshot hitems hf 0 _ _).1.mpr
    (.inl ⟨_, after, hvisits, rfl, rfl, rfl, hnew⟩)

end Store

end Descramble
