import Descramble.Value.Text
import Mathlib.Logic.Relation

/-!
# The texts of cyclic objects

`Written` says how a value is written inside arrays, however deep they are nested: an item is left
blank if it has no text of its own or is one of the arrays around it, and every other item is
written in full. An array that is written inside others is new among them, so the objects of the
store run out in the end, in whatever way they refer to each other.

Main statements: `Store.object_texts`, every object has exactly one such text, the one that the
conversions compute; and `Store.looksAt_iff`, writing an object looks at exactly those that it has
inside.
-/

namespace Descramble

/-- Whether a value is left blank as an item inside the arrays `around`. -/
def Value.IsBlank (around : List ObjectRef) : Value → Prop
  | .undefined | .null => True
  | .object ref => ref ∈ around
  | _ => False

namespace Store

mutual

/-- How a value is written inside the arrays `around`, the innermost first. -/
inductive Written (s : Store) : List ObjectRef → Value → String → Prop
  | blank {around v} (h : v.IsBlank around) : Written s around v ""
  | primitive {around v} (h : ¬ v.IsBlank around) (hv : ∀ ref, v ≠ .object ref) :
      Written s around v (s.textOf v)
  | plain {around ref} (h : ref ∉ around) (hkind : (s.object ref).kind = .plain) :
      Written s around (.object ref) "[object Object]"
  | function {around ref c} (h : ref ∉ around) (hkind : (s.object ref).kind = .function c) :
      Written s around (.object ref) "function () \x7b [native code] \x7d"
  | list {around ref items texts} (h : ref ∉ around) (hkind : (s.object ref).kind = .list items)
      (hitems : AllWritten s (ref :: around) items.toList texts) :
      Written s around (.object ref) (joined "," texts)

/-- How several values are written inside the arrays `around`, one after the other. -/
inductive AllWritten (s : Store) : List ObjectRef → List Value → List String → Prop
  | nil {around} : AllWritten s around [] []
  | cons {around v vs t ts} (head : Written s around v t) (tail : AllWritten s around vs ts) :
      AllWritten s around (v :: vs) (t :: ts)

end

/-- Whether an object is another one or an array that has it inside, directly or in an item. -/
inductive Encloses (s : Store) : ObjectRef → ObjectRef → Prop
  | self {ref} : Encloses s ref ref
  | item {ref items next other} (hkind : (s.object ref).kind = .list items)
      (hmem : .object next ∈ items.toList) (h : Encloses s next other) : Encloses s ref other

variable {s : Store} {around others : List ObjectRef} {v : Value} {vs : List Value} {t : String}
  {ts : List String} {ref other : ObjectRef} {items : Array Value} {bound : Nat}
  {inside : List ObjectRef → ObjectRef → String}

/-! ## What is computed -/

/-- A blank item has the empty text. -/
theorem itemTextBy_of_isBlank (h : v.IsBlank around) : itemTextBy inside around v = "" := by
  cases v with
  | undefined | null => rfl
  | object ref => exact if_pos h
  | _ => cases h

/-- A primitive item that is not blank has its own text. -/
theorem itemTextBy_of_primitive (h : ¬ v.IsBlank around) (hv : ∀ ref, v ≠ .object ref) :
    itemTextBy inside around v = s.textOf v := by
  cases v with
  | undefined | null => exact absurd trivial h
  | object ref => exact absurd rfl (hv ref)
  | _ => rfl

/-- An object that is not among those being written is written inside itself. -/
theorem itemTextBy_of_not_mem (h : ref ∉ around) :
    itemTextBy inside around (.object ref) = inside (ref :: around) ref :=
  if_neg h

/-- An array has the texts of its items, with commas between them. -/
theorem objectTextWithin_list (hkind : (s.object ref).kind = .list items) :
    s.objectTextWithin (bound + 1) around ref =
      joined "," (items.toList.map (itemTextBy (s.objectTextWithin bound) around)) := by
  simp only [objectTextWithin, hkind]

/-! ## Objects that are not written yet -/

/-- The objects of the store that are not among those being written, by their places. -/
def unwritten (s : Store) (around : List ObjectRef) : List Nat :=
  (List.range s.objects.size).filter fun i => ⟨i⟩ ∉ around

/-- There are no more objects left to write than objects. -/
theorem length_unwritten_le : (s.unwritten around).length ≤ s.objects.size := by
  have hle := List.length_filter_le (fun i => decide (⟨i⟩ ∉ around)) (List.range s.objects.size)
  rwa [List.length_range] at hle

/-- An array is an object of the store. -/
theorem lt_of_kind_eq_list (hkind : (s.object ref).kind = .list items) :
    ref.index < s.objects.size :=
  lt_of_kind_ne_plain fun hplain => nomatch hkind.symm.trans hplain

/-- Entering an array leaves fewer objects. -/
theorem length_unwritten_cons_lt (h : ref ∉ around) (hlt : ref.index < s.objects.size) :
    (s.unwritten (ref :: around)).length < (s.unwritten around).length := by
  -- the objects left are those left before, less the one entered
  have hsplit : s.unwritten (ref :: around) =
      (s.unwritten around).filter fun i => decide (i ≠ ref.index) := by
    unfold unwritten
    rw [List.filter_filter]
    refine List.filter_congr fun i _ => ?_
    rw [← Bool.decide_and]
    refine decide_eq_decide.mpr ?_
    rw [List.mem_cons, not_or]
    exact and_congr_left fun _ => not_congr ⟨fun heq => by rw [← heq], fun heq => by rw [heq]⟩
  rw [hsplit, List.length_filter_lt_length_iff_exists]
  exact ⟨ref.index, by simpa [unwritten] using ⟨hlt, h⟩, by simp⟩

/-! ## One text each -/

/-- If each value is written as a function says, so are several. -/
theorem allWritten_map {f : Value → String} (h : ∀ v ∈ vs, s.Written around v (f v)) :
    s.AllWritten around vs (vs.map f) := by
  induction vs with
  | nil => exact .nil
  | cons v vs ih =>
    rw [List.forall_mem_cons] at h
    exact .cons h.1 (ih h.2)

/-- If the texts of the values can only be those of a function, so can their list. -/
theorem AllWritten.eq_map {f : Value → String} (h : s.AllWritten around vs ts)
    (hall : ∀ v ∈ vs, ∀ t, s.Written around v t → t = f v) : ts = vs.map f := by
  induction vs generalizing ts with
  | nil => cases h; rfl
  | cons v vs ih =>
    rw [List.forall_mem_cons] at hall
    cases h with
    | cons head tail => rw [List.map_cons, hall.1 _ head, ih tail hall.2]

/-- The bound on the nesting is never met as long as it exceeds the number of objects that are
    left. -/
theorem written_itemTextBy (h : (s.unwritten around).length < bound) :
    s.Written around v (itemTextBy (s.objectTextWithin bound) around v) := by
  -- on the bound: entering an array costs one, and leaves an object less
  induction bound generalizing around v with
  | zero => exact absurd h (Nat.not_lt_zero _)
  | succ bound ih =>
    by_cases hblank : v.IsBlank around
    · rw [itemTextBy_of_isBlank hblank]
      exact .blank hblank
    by_cases hv : ∀ ref, v ≠ .object ref
    · rw [itemTextBy_of_primitive hblank hv]
      exact .primitive hblank hv
    obtain ⟨ref, rfl⟩ := Classical.not_forall_not.mp hv
    rw [itemTextBy_of_not_mem hblank]
    cases hkind : (s.object ref).kind with
    | plain =>
      simp only [objectTextWithin, hkind]
      exact .plain hblank hkind
    | function c =>
      simp only [objectTextWithin, hkind]
      exact .function hblank hkind
    | list items =>
      -- inside the array one object less is left, the array itself
      have hfewer := length_unwritten_cons_lt hblank (lt_of_kind_eq_list hkind)
      rw [objectTextWithin_list hkind]
      exact .list hblank hkind (allWritten_map fun item _ => ih (by omega))

/-- A text that a value is written as is the one that is computed. -/
theorem Written.eq_itemTextBy (hw : s.Written around v t)
    (h : (s.unwritten around).length < bound) :
    t = itemTextBy (s.objectTextWithin bound) around v := by
  -- along the same bound, now by how the value is written
  induction bound generalizing around v t with
  | zero => exact absurd h (Nat.not_lt_zero _)
  | succ bound ih =>
    cases hw with
    | blank hblank => rw [itemTextBy_of_isBlank hblank]
    | primitive hblank hv => rw [itemTextBy_of_primitive hblank hv]
    | plain hmem hkind =>
      rw [itemTextBy_of_not_mem hmem]
      simp only [objectTextWithin, hkind]
    | function hmem hkind =>
      rw [itemTextBy_of_not_mem hmem]
      simp only [objectTextWithin, hkind]
    | list hmem hkind hitems =>
      have hfewer := length_unwritten_cons_lt hmem (lt_of_kind_eq_list hkind)
      rw [itemTextBy_of_not_mem hmem, objectTextWithin_list hkind,
        hitems.eq_map fun item _ t hw => ih hw (by omega)]

/-- So a value is written in exactly one way. -/
theorem written_iff (h : (s.unwritten around).length < bound) :
    s.Written around v t ↔ t = itemTextBy (s.objectTextWithin bound) around v :=
  ⟨fun hw => hw.eq_itemTextBy h, fun heq => heq ▸ written_itemTextBy h⟩

/-- Several values are written in exactly the way that is computed. -/
theorem allWritten_iff (h : (s.unwritten around).length < bound) :
    s.AllWritten around vs ts ↔ ts = vs.map (itemTextBy (s.objectTextWithin bound) around) :=
  ⟨fun hw => hw.eq_map fun _ _ _ hw => hw.eq_itemTextBy h,
    fun heq => heq ▸ allWritten_map fun _ _ => written_itemTextBy h⟩

/-! ## Shared objects -/

mutual

/-- Of the arrays around a value only those matter that the value has inside. -/
theorem Written.congr {s : Store} {around others : List ObjectRef} {v : Value} {t : String} :
    s.Written around v t →
    (∀ ref other, v = .object ref → s.Encloses ref other → (other ∈ around ↔ other ∈ others)) →
    s.Written others v t
  | .blank h, hsame => .blank <| by
    cases v with
    | object ref => exact (hsame ref ref rfl .self).mp h
    | _ => exact h
  | .primitive h hv, hsame => .primitive (by
    cases v with
    | object ref => exact absurd rfl (hv ref)
    | _ => exact h) hv
  | .plain h hkind, hsame => .plain (fun hmem => h ((hsame _ _ rfl .self).mpr hmem)) hkind
  | .function h hkind, hsame => .function (fun hmem => h ((hsame _ _ rfl .self).mpr hmem)) hkind
  -- the array is entered on both sides, so the sides still agree on what an item has inside
  | .list h hkind hitems, hsame =>
    .list (fun hmem => h ((hsame _ _ rfl .self).mpr hmem)) hkind <|
      hitems.congr fun next other hnext hinside => by
        rw [List.mem_cons, List.mem_cons, hsame _ other rfl (.item hkind hnext hinside)]

theorem AllWritten.congr {s : Store} {around others : List ObjectRef} {vs : List Value}
    {ts : List String} :
    s.AllWritten around vs ts →
    (∀ ref other, .object ref ∈ vs → s.Encloses ref other → (other ∈ around ↔ other ∈ others)) →
    s.AllWritten others vs ts
  | .nil, _ => .nil
  | .cons head tail, hsame =>
    .cons (head.congr fun ref other hv => hsame ref other (hv ▸ List.mem_cons_self ..))
      (tail.congr fun ref other hmem => hsame ref other (List.mem_cons_of_mem _ hmem))

end

/-- Every object of every store has exactly one text, and so have the items of an array with any
    separator between them; both are computed. An object that has none of the arrays around it
    inside is written there with the text that it has on its own, however often it is shared. -/
theorem object_texts (s : Store) :
    (∀ ref t, s.Written [] (.object ref) t ↔ t = s.objectText ref) ∧
    (∀ ref items separator t,
      (∃ texts, s.AllWritten [ref] items.toList texts ∧ t = joined separator texts) ↔
        t = s.join ref items separator) ∧
    ∀ around ref, (∀ other ∈ around, ¬ s.Encloses ref other) →
      s.Written around (.object ref) (s.objectText ref) := by
  have hbound (around : List ObjectRef) : (s.unwritten around).length < s.objects.size + 1 :=
    Nat.lt_succ_of_le length_unwritten_le
  have halone (ref : ObjectRef) (t : String) :
      s.Written [] (.object ref) t ↔ t = s.objectText ref := by
    rw [written_iff (hbound []), itemTextBy_of_not_mem List.not_mem_nil]
    rfl
  refine ⟨halone, fun ref items separator t => ?_, fun around ref hnone => ?_⟩
  · simp only [allWritten_iff (hbound [ref]), exists_eq_left]
    rfl
  -- what is around it is not inside it, so it makes no difference to the text
  · refine Written.congr ((halone ref _).mpr rfl) fun _ other href hinside => ?_
    cases href
    exact ⟨fun hmem => absurd hmem List.not_mem_nil, fun hmem => absurd hinside (hnone other hmem)⟩

/-! ## Objects that are looked at -/

/-- Whether a value is an object that has another inside. -/
def HasInside (s : Store) (v : Value) (other : ObjectRef) : Prop :=
  ∃ ref, v = .object ref ∧ s.Encloses ref other

/-- One object is an item of another one and none of those around. -/
def Enters (s : Store) (around : List ObjectRef) (ref next : ObjectRef) : Prop :=
  (∃ items, (s.object ref).kind = .list items ∧ .object next ∈ items.toList) ∧ next ∉ around

/-- A way to an object need not come by a given place again: it goes around that, or begins
    there. -/
theorem reaches_avoiding (place : ObjectRef)
    (h : Relation.ReflTransGen (s.Enters around) ref other) :
    Relation.ReflTransGen (s.Enters (place :: around)) ref other ∨
      Relation.ReflTransGen (s.Enters (place :: around)) place other := by
  induction h using Relation.ReflTransGen.head_induction_on with
  | refl => exact .inl .refl
  | @head ref next hstep _ ih =>
    -- a way that goes around the place may step onto it first, and then it begins there
    rcases ih with ih | ih
    · by_cases hnext : next = place
      · exact .inr (hnext ▸ ih)
      · exact .inl (.head ⟨hstep.1, List.not_mem_cons_of_ne_of_not_mem hnext hstep.2⟩ ih)
    · exact .inr ih

/-- Where it begins, a way need not come by again. -/
theorem reaches_cons_self_iff : Relation.ReflTransGen (s.Enters (ref :: around)) ref other ↔
    Relation.ReflTransGen (s.Enters around) ref other := by
  constructor
  · exact Relation.ReflTransGen.mono (fun _ _ hstep =>
      ⟨hstep.1, fun hmem => hstep.2 (List.mem_cons_of_mem _ hmem)⟩) _ _
  · exact fun h => (reaches_avoiding ref h).elim id id

/-- An object has another inside if a way leads there from item to item. -/
theorem encloses_iff : s.Encloses ref other ↔ Relation.ReflTransGen (s.Enters []) ref other := by
  constructor
  · intro h
    induction h with
    | self => exact .refl
    | item hkind hmem _ ih => exact .head ⟨⟨_, hkind, hmem⟩, List.not_mem_nil⟩ ih
  · intro h
    -- a way is followed from its first step on
    induction h using Relation.ReflTransGen.head_induction_on with
    | refl => exact .self
    | head hstep _ ih =>
      obtain ⟨⟨items, hkind, hmem⟩, -⟩ := hstep
      exact .item hkind hmem ih

/-- The bound is not met here either: every array that is entered is one object less to enter. -/
theorem looksAtWithin_iff (hmem : ref ∉ around) (h : (s.unwritten around).length < bound) :
    s.looksAtWithin other bound (ref :: around) ref = true ↔
      Relation.ReflTransGen (s.Enters (ref :: around)) ref other := by
  induction bound generalizing around ref with
  | zero => exact absurd h (Nat.not_lt_zero _)
  | succ bound ih =>
    rw [Relation.ReflTransGen.cases_head_iff]
    simp only [looksAtWithin, Bool.or_eq_true, beq_iff_eq]
    refine or_congr Iff.rfl ?_
    cases hkind : (s.object ref).kind with
    | plain | function c => simp [Enters, hkind]
    | list items =>
      have hfewer := length_unwritten_cons_lt hmem (lt_of_kind_eq_list hkind)
      -- an item is looked into with itself among those around, which cuts off no way that begins
      -- there
      have hitem (next : ObjectRef) (hnext : next ∉ ref :: around) :
          s.looksAtWithin other bound (next :: ref :: around) next = true ↔
            Relation.ReflTransGen (s.Enters (ref :: around)) next other :=
        (ih hnext (by omega)).trans reaches_cons_self_iff
      rw [List.any_eq_true]
      constructor
      · rintro ⟨v, hv, hlooks⟩
        cases v with
        | object next =>
          rw [Bool.and_eq_true, decide_eq_true_iff] at hlooks
          exact ⟨next, ⟨⟨items, hkind, hv⟩, hlooks.1⟩, (hitem next hlooks.1).mp hlooks.2⟩
        | _ => cases hlooks
      · rintro ⟨next, ⟨⟨items', hkind', hv⟩, hnext⟩, hreach⟩
        rw [hkind] at hkind'
        cases hkind'
        refine ⟨.object next, hv, ?_⟩
        rw [Bool.and_eq_true, decide_eq_true_iff]
        exact ⟨hnext, (hitem next hnext).mpr hreach⟩

/-- Writing a value looks at those objects that the value has inside. -/
theorem looksAt_iff : s.looksAt v other = true ↔ s.HasInside v other := by
  -- only an object has others inside
  cases v with
  | object ref =>
    have hbound : (s.unwritten []).length < s.objects.size + 1 :=
      Nat.lt_succ_of_le length_unwritten_le
    have hlooks : s.looksAtWithin other (s.objects.size + 1) [ref] ref = true ↔
        Relation.ReflTransGen (s.Enters [ref]) ref other :=
      looksAtWithin_iff List.not_mem_nil hbound
    rw [reaches_cons_self_iff, ← encloses_iff] at hlooks
    constructor
    · exact fun h => ⟨ref, rfl, hlooks.mp h⟩
    · rintro ⟨_, ⟨⟩, h⟩
      exact hlooks.mpr h
  | _ => simp [looksAt, HasInside]

/-- Of two arrays that hold each other, the first holds the second twice. -/
example :
    objectText ⟨#[.list #[.text "x", .object ⟨0⟩, .object ⟨1⟩, .object ⟨1⟩],
      .list #[.text "y", .object ⟨0⟩]], #[]⟩ ⟨0⟩ = "x,,y,,y," := by
  decide +kernel

end Store

end Descramble
