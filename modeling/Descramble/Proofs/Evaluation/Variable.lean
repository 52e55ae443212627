import Descramble.Proofs.Evaluation.Reachable
import Descramble.Proofs.Value.Property

/-!
# Reading and writing variables

A name stands for the variable of the innermost scope that binds it, or else for a property of the
global object. Reading and writing look for it apart from each other, and find the same: after a
write the name has the value in every scope where it stands for the same, and nothing else has
changed anywhere.

Main statement: `Store.Reachable.assigns`.
-/

namespace Descramble

/-- Where a name can be bound: in a scope, or on the global object. -/
inductive Slot where
  | scope (ref : ScopeRef)
  | global

/-- The scope of a slot, if it is one. -/
def Slot.scope? : Slot → Option ScopeRef
  | .scope ref => some ref
  | .global => none

namespace Store

/-- What a name stands for in a scope: the variable of the innermost scope that binds it, and a
    property of the global object if none does. -/
inductive Resolves (s : Store) (name : Name) : ScopeRef → Slot → Prop
  | own {ref} (h : (s.scope ref).names.contains name) : Resolves s name ref (.scope ref)
  | outer {ref outer slot} (h : ¬ (s.scope ref).names.contains name)
      (hinside : s.Inside ref outer) (hslot : Resolves s name outer slot) :
      Resolves s name ref slot
  | global {ref} (h : ¬ (s.scope ref).names.contains name)
      (hroot : (s.scope ref).parent = none) : Resolves s name ref .global

/-- What a slot holds under a name. -/
def held? (s : Store) (name : Name) : Slot → Option Value
  | .scope ref => (s.scope ref).names.get? name
  | .global => (s.object .global).get? name

/-- Puts a value under a name where a slot is. -/
def put (s : Store) (name : Name) (v : Value) : Slot → Store
  | .scope ref => s.bind ref name v
  | .global => s.setOwn .global name v

/-- What a write to a variable changes, from a store to the one after it. -/
structure Assigns (s s' : Store) (ref : ScopeRef) (name : Name) (v : Value) (slot : Slot) :
    Prop where
  /-- The write goes where a read before it would have looked, and a read after it looks. -/
  before : s.Resolves name ref slot
  after : s'.Resolves name ref slot
  self : s'.lookup? ref name = some v
  shared : ∀ other, s'.Resolves name other slot → s'.lookup? other name = some v
  /-- A name means something else only where it stands for what was written. -/
  changed : ∀ other y, s'.lookup? other y ≠ s.lookup? other y →
    y = name ∧ s'.Resolves name other slot
  /-- A new binding is one of the global object, for a name that no scope on the chain binds. -/
  made : ∀ y slot', s.held? y slot' = none → s'.held? y slot' ≠ none →
    y = name ∧ slot' = .global ∧
      ∀ outer, Relation.ReflTransGen s.Inside ref outer → ¬ (s.scope outer).names.contains name
  scopes : s'.scopes.size = s.scopes.size
  objects : ∀ other, other ≠ .global → s'.object other = s.object other

variable {s : Store} {ref other : ScopeRef} {name y : Name} {slot slot' : Slot} {v : Value}

/-! ## What a name stands for -/

/-- A name stands for one thing in a scope. -/
theorem Resolves.unique (h : s.Resolves name ref slot) (h' : s.Resolves name ref slot') :
    slot = slot' := by
  -- on the way from the scope outwards, which the second one follows step by step
  induction h with
  | own hown =>
    cases h' with
    | own _ => rfl
    | outer hnot _ _ => exact absurd hown hnot
    | global hnot _ => exact absurd hown hnot
  | outer hnot hinside _ ih =>
    cases h' with
    | own hown => exact absurd hown hnot
    | outer _ hinside' hslot' =>
      cases hinside.symm.trans hinside'
      exact ih hslot'
    | global _ hroot => cases hinside.symm.trans hroot
  | global hnot hroot =>
    cases h' with
    | own hown => exact absurd hown hnot
    | outer _ hinside _ => cases hroot.symm.trans hinside
    | global _ _ => rfl

/-- A name stands for something in every scope. -/
theorem Nested.exists_resolves (hs : s.Nested) (ref : ScopeRef) (name : Name) :
    ∃ slot, s.Resolves name ref slot := by
  obtain ⟨i⟩ := ref
  -- by the number of the scope: the one around it has a smaller one
  induction i using Nat.strongRecOn with
  | ind i ih =>
    by_cases hown : (s.scope ⟨i⟩).names.contains name
    · exact ⟨_, .own hown⟩
    cases hparent : (s.scope ⟨i⟩).parent with
    | none => exact ⟨_, .global hown hparent⟩
    | some outer =>
      obtain ⟨slot, hslot⟩ := ih outer.index (hs.parent_lt hparent)
      exact ⟨slot, .outer hown hparent hslot⟩

/-- The scope of the slot is the one that a search for the name comes to. -/
theorem Resolves.binder?_eq (h : s.Resolves name ref slot) (hs : s.Nested) :
    s.binder? ref name = slot.scope? := by
  induction h with
  | own hown =>
    obtain ⟨w, hw⟩ := Option.isSome_iff_exists.mp hown
    exact binder?_of_get?_eq_some hw
  | outer hnot hinside _ ih =>
    rw [hs.binder?_of_get?_eq_none (Option.not_isSome_iff_eq_none.mp hnot) hinside, ih]
  | @global ref hnot hroot =>
    unfold binder?
    simp [binderWithin, hnot, hroot, Slot.scope?]

/-- What is read is what the slot holds. -/
theorem Resolves.lookup?_eq (h : s.Resolves name ref slot) (hs : s.Nested) :
    s.lookup? ref name = s.held? name slot := by
  unfold lookup?
  rw [h.binder?_eq hs]
  cases slot with
  | scope binder => rfl
  | global =>
    -- the global object is the oldest, so nothing is asked but itself
    show s.inheritedWithin name 1 .global = (s.object .global).get? name
    rw [inheritedWithin]
    cases (s.object .global).get? name with
    | some w => rfl
    | none => cases (s.object .global).parent <;> rfl

/-- What is written goes into the slot. -/
theorem Resolves.assign_eq (h : s.Resolves name ref slot) (hs : s.Nested) (v : Value) :
    s.assign ref name v = s.put name v slot := by
  unfold assign
  rw [h.binder?_eq hs]
  cases slot <;> rfl

/-- The scope of a slot binds the name. -/
theorem Resolves.contains {binder : ScopeRef} (h : s.Resolves name ref (.scope binder)) :
    (s.scope binder).names.contains name := by
  -- the slot is an index of the derivation, so it is made a variable for the induction
  generalize hslot : Slot.scope binder = slot at h
  induction h with
  | own hown =>
    cases hslot
    exact hown
  | outer _ _ _ ih => exact ih hslot
  | global _ _ => cases hslot

/-- A name that stands for a global property is bound by no scope on the chain. -/
theorem Resolves.not_contains (h : s.Resolves name ref .global) {outer : ScopeRef}
    (hreach : Relation.ReflTransGen s.Inside ref outer) :
    ¬ (s.scope outer).names.contains name := by
  induction hreach using Relation.ReflTransGen.head_induction_on with
  | refl =>
    cases h with
    | outer hnot _ _ => exact hnot
    | global hnot _ => exact hnot
  | head hinside _ ih =>
    cases h with
    | outer _ hinside' hslot =>
      cases hinside.symm.trans hinside'
      exact ih hslot
    | global _ hroot => cases hinside.symm.trans hroot

/-! ## What a write changes -/

/-- A scope that binds a name is one of the store. -/
theorem lt_of_contains (h : (s.scope ref).names.contains name) : ref.index < s.scopes.size := by
  apply Nat.lt_of_not_le
  intro hle
  have hnone : s.scopes[ref.index]? = none := Array.getElem?_eq_none hle
  rw [Store.scope, hnone] at h
  cases h

/-- A write to an object leaves the scopes as they are. -/
theorem scope_setOwn (s : Store) (object : ObjectRef) (key : String) (v : Value) (ref : ScopeRef) :
    (s.setOwn object key v).scope ref = s.scope ref := by
  unfold scope
  rw [scopes_setOwn]

/-- A write moves no scope. -/
theorem parent_put (s : Store) (name : Name) (v : Value) (slot : Slot) (ref : ScopeRef) :
    ((s.put name v slot).scope ref).parent = (s.scope ref).parent := by
  cases slot with
  | scope binder => exact s.parent_modifyScope binder (·.insert name v) ref
  | global => rw [put, scope_setOwn]

/-- A write makes no scope. -/
theorem scopes_size_put (s : Store) (name : Name) (v : Value) (slot : Slot) :
    (s.put name v slot).scopes.size = s.scopes.size := by
  cases slot with
  | scope binder => exact s.size_modifyScope binder _
  | global => rw [put, scopes_setOwn]

/-- So scopes are nested after a write as they were before. -/
theorem Nested.put (hs : s.Nested) (name : Name) (v : Value) (slot : Slot) :
    (s.put name v slot).Nested where
  root_lt := by
    rw [scopes_size_put]
    exact hs.root_lt
  root_parent := by rw [parent_put, hs.root_parent]
  parent := fun ref hne hlt => by
    rw [scopes_size_put] at hlt
    rw [parent_put]
    exact hs.parent ref hne hlt

/-- A write to a variable leaves all objects but the global one. -/
theorem object_put_of_ne (s : Store) (name : Name) (v : Value) (slot : Slot) {object : ObjectRef}
    (hne : object ≠ .global) : (s.put name v slot).object object = s.object object := by
  cases slot with
  | scope binder => rfl
  | global => exact object_setOwn_of_ne name v hne

section

variable (hs : s.Sound) (hglobal : (s.object .global).isList = false)

include hs hglobal

/-- The slot that is written holds the value. -/
theorem held?_put_self (h : s.Resolves name ref slot) (v : Value) :
    (s.put name v slot).held? name slot = some v := by
  -- a bound name is bound again; a property is put under its name, the global object being no array
  cases slot with
  | scope binder => exact get?_bind_self (lt_of_contains h.contains) v
  | global =>
    rw [put, held?, object_setOwn hs.global_lt (isListLength_of_not_list hglobal)]
    exact Object.get?_insert_self hglobal name v

/-- Nothing else is held anywhere but there under that name. -/
theorem held?_put_of_ne (v : Value) (hne : y = name → slot' ≠ slot) :
    (s.put name v slot).held? y slot' = s.held? y slot' := by
  -- the scopes and the objects are apart in a store, so only slots of one sort could meet
  cases slot with
  | scope binder =>
    cases slot' with
    | global => rfl
    | scope other =>
      by_cases hname : y = name
      · have hother : other ≠ binder := fun heq => hne hname (by rw [heq])
        rw [put, held?, bind, scope_modifyScope_of_ne s hother]
        rfl
      · exact get?_modifyScope s binder (·.insert name v)
          (fun names => names.get?_insert_of_ne v hname) other
  | global =>
    cases slot' with
    | scope other => rw [put, held?, scope_setOwn, held?]
    | global =>
      have hname : y ≠ name := fun heq => hne heq rfl
      rw [put, held?, object_setOwn hs.global_lt (isListLength_of_not_list hglobal)]
      exact Object.get?_insert_of_ne hglobal v hname

/-- A write binds no name in a scope that did not bind it. -/
theorem contains_put (h : s.Resolves name ref slot) (v : Value) (other : ScopeRef) (y : Name) :
    ((s.put name v slot).scope other).names.contains y = (s.scope other).names.contains y := by
  -- to bind a name is to hold something under it
  show ((s.put name v slot).held? y (.scope other)).isSome = (s.held? y (.scope other)).isSome
  by_cases hwritten : y = name ∧ Slot.scope other = slot
  · obtain ⟨rfl, rfl⟩ := hwritten
    rw [held?_put_self hs hglobal h]
    exact h.contains.symm
  · rw [held?_put_of_ne hs hglobal v fun hname hslot => hwritten ⟨hname, hslot⟩]

/-- So every name stands for the same as before. -/
theorem Resolves.put (h : s.Resolves name ref slot) (v : Value) (h' : s.Resolves y other slot') :
    (s.put name v slot).Resolves y other slot' := by
  have hcontains := contains_put hs hglobal h v
  -- along the scopes that were passed: each of them binds the name or passes it on as before
  induction h' with
  | own hown => exact .own (by rwa [hcontains])
  | outer hnot hinside _ ih =>
    exact .outer (by rwa [hcontains]) ((parent_put ..).trans hinside) ih
  | global hnot hroot => exact .global (by rwa [hcontains]) ((parent_put ..).trans hroot)

/-- What holds something else after a write is what was written. -/
theorem eq_of_held?_put_ne (v : Value) (hne : (s.put name v slot).held? y slot' ≠ s.held? y slot') :
    y = name ∧ slot' = slot := by
  -- the name and the slot must both be those of the write
  by_cases hname : y = name
  · by_cases hslot : slot' = slot
    · exact ⟨hname, hslot⟩
    · exact absurd (held?_put_of_ne hs hglobal v fun _ => hslot) hne
  · exact absurd (held?_put_of_ne hs hglobal v fun heq => absurd heq hname) hne

end

/-! ## Reachable stores -/

/-- An object that was there is an array later if it was one then. -/
theorem Grows.isList_eq {s' : Store} (h : s.Grows s') {object : ObjectRef}
    (hlt : object.index < s.objects.size) :
    (s'.object object).isList = (s.object object).isList := by
  rw [Bool.eq_iff_iff, Object.isList_iff_shape, Object.isList_iff_shape, h.shapes object hlt]

/-- The global object never becomes an array, so each of its properties is found where it is put. -/
theorem Reachable.global_not_list (h : s.Reachable) : (s.object .global).isList = false := by
  have hfresh : (Store.initial.object .global).isList = false := by decide +kernel
  rw [h.grows.isList_eq sound_initial.global_lt, hfresh]

/-- A write to a variable goes where the name stands for it, and changes no more than that. -/
theorem Reachable.assigns (h : s.Reachable) (ref : ScopeRef) (name : Name) (v : Value) :
    ∃ slot, s.Assigns (s.assign ref name v) ref name v slot := by
  have hs := h.sound
  have hglobal := h.global_not_list
  -- read and write go by one slot, which is still the one afterwards
  obtain ⟨slot, hslot⟩ := hs.toNested.exists_resolves ref name
  have hafter := hslot.put hs hglobal v hslot
  have hnested := hs.toNested.put name v slot
  have hself := held?_put_self hs hglobal hslot v
  rw [hslot.assign_eq hs.toNested v]
  exact ⟨slot, {
    before := hslot
    after := hafter
    self := (hafter.lookup?_eq hnested).trans hself
    shared := fun other hother => (hother.lookup?_eq hnested).trans hself
    changed := fun other y hchanged => by
      -- the other name stands for the same after the write, so what it stands for has changed
      obtain ⟨slot', hslot'⟩ := hs.toNested.exists_resolves other y
      have hafter' := hslot.put hs hglobal v hslot'
      rw [hafter'.lookup?_eq hnested, hslot'.lookup?_eq hs.toNested] at hchanged
      obtain ⟨rfl, rfl⟩ := eq_of_held?_put_ne hs hglobal v hchanged
      exact ⟨rfl, hafter'⟩
    made := fun y slot' hnone hsome => by
      rw [← hnone] at hsome
      obtain ⟨rfl, rfl⟩ := eq_of_held?_put_ne hs hglobal v hsome
      -- a scope would have bound the name before
      cases slot' with
      | scope binder => exact absurd hnone (Option.isSome_iff_ne_none.mp hslot.contains)
      | global => exact ⟨rfl, rfl, fun outer hreach => hslot.not_contains hreach⟩
    scopes := s.scopes_size_put name v slot
    objects := fun other hne => s.object_put_of_ne name v slot hne }⟩

/-- A parameter with the name of a global property. -/
def shadowing : Program where
  body := [
    .function "f" ⟨["x"], []⟩,
    .expr (.assign none (.ident "x") (.literal .null)),
    .expr (.call (.ident "f") [])]

/-- A write inside the function leaves the property alone. -/
theorem Reachable.assigns_shadowing :
    let s := (Store.initial.run shadowing).2
    let s' := s.assign ⟨1⟩ "x" (.flag true)
    s.Reachable ∧ s.Assigns s' ⟨1⟩ "x" (.flag true) (.scope ⟨1⟩) ∧
      s.lookup? .root "x" = some .null ∧ s'.lookup? .root "x" = some .null := by
  intro s s'
  have hs : s.Reachable := Reachable.initial.run shadowing
  obtain ⟨slot, hassigns⟩ := Reachable.assigns hs ⟨1⟩ "x" (.flag true)
  have hslot : slot = .scope ⟨1⟩ := hassigns.before.unique (.own (by decide +kernel))
  exact ⟨hs, hslot ▸ hassigns, by decide +kernel, by decide +kernel⟩

end Store

end Descramble
