import Descramble.Proofs.Value.Growth

/-!
# Stores in which everything exists

A value that is an object names one by its place in the store, and so does a scope. `Store.Sound`
says that every place that is named anywhere in a store is one of the store, that scopes lie inside
older ones and that objects inherit from older ones. So each walk along a chain of scopes or parents
gets to older and older places.

Main statements: `Sound.inherited?_eq`, `Sound.descendsFrom_eq` and `Sound.binder?_eq`, the bounds
on the walks do not cut them short; `Sound.has_inherited` and `Sound.has_lookup`, what a walk finds
exists.
-/

namespace Descramble

namespace Store

/-! ## What exists in a store -/

/-- Whether a store has the object that a value is, if it is one. -/
def Has (s : Store) : Value → Prop
  | .object ref => ref.index < s.objects.size
  | _ => True

/-- Whether a store has what a function closes over. -/
def HasCallable (s : Store) : Callable → Prop
  | .closure _ scope => scope.index < s.scopes.size
  | .arrow _ _ scope this => scope.index < s.scopes.size ∧ s.Has this
  | .native _ => True

/-- Whether a store has what an object is made of by its kind. -/
def HasKind (s : Store) : ObjectKind → Prop
  | .plain => True
  | .list items => ∀ v ∈ items, s.Has v
  | .function c => s.HasCallable c

/-- Whether a store has all values under names. -/
def HasBindings (s : Store) (b : Bindings) : Prop :=
  ∀ name v, b.get? name = some v → s.Has v

/-- Whether a store has what an object consists of, its parent apart. -/
structure HasContents (s : Store) (o : Object) : Prop where
  kind : s.HasKind o.kind
  properties : s.HasBindings o.properties

/-- A store that has whatever is named in it, where parents are older than their children. -/
structure Sound (s : Store) : Prop extends s.Nested where
  global_lt : ObjectRef.global.index < s.objects.size
  names : ∀ ref : ScopeRef, s.HasBindings (s.scope ref).names
  contents : ∀ ref : ObjectRef, s.HasContents (s.object ref)
  older : ∀ ref parent : ObjectRef, (s.object ref).parent = some parent → parent.index < ref.index

/-- Whether a store has at least the places of another. -/
structure SizeLe (s s' : Store) : Prop where
  objects : s.objects.size ≤ s'.objects.size
  scopes : s.scopes.size ≤ s'.scopes.size

variable {s s' s'' : Store}

/-- A store has its own places. -/
theorem SizeLe.refl (s : Store) : s.SizeLe s :=
  ⟨Nat.le_refl _, Nat.le_refl _⟩

/-- Places that are kept twice are kept. -/
theorem SizeLe.trans (h : s.SizeLe s') (h' : s'.SizeLe s'') : s.SizeLe s'' :=
  ⟨Nat.le_trans h.objects h'.objects, Nat.le_trans h.scopes h'.scopes⟩

/-- A value exists where there are more places. -/
theorem Has.mono {v : Value} (hv : s.Has v) (h : s.SizeLe s') : s'.Has v := by
  cases v with
  | object ref => exact Nat.lt_of_lt_of_le hv h.objects
  | _ => trivial

/-- So does what a function closes over. -/
theorem HasCallable.mono {c : Callable} (hc : s.HasCallable c) (h : s.SizeLe s') :
    s'.HasCallable c := by
  cases c with
  | closure definition scope => exact Nat.lt_of_lt_of_le hc h.scopes
  | arrow params body scope this => exact ⟨Nat.lt_of_lt_of_le hc.1 h.scopes, hc.2.mono h⟩
  | native n => trivial

/-- So do values under names. -/
theorem HasBindings.mono {b : Bindings} (hb : s.HasBindings b) (h : s.SizeLe s') :
    s'.HasBindings b :=
  fun name v hv => (hb name v hv).mono h

/-- So does what an object consists of. -/
theorem HasContents.mono {o : Object} (ho : s.HasContents o) (h : s.SizeLe s') :
    s'.HasContents o where
  properties := ho.properties.mono h
  kind := by
    have hkind := ho.kind
    cases hk : o.kind with
    | plain => trivial
    | list items =>
      rw [hk] at hkind
      exact fun v hv => (hkind v hv).mono h
    | function c =>
      rw [hk] at hkind
      exact hkind.mono h

/-- No names, no values. -/
theorem hasBindings_empty : s.HasBindings .empty :=
  fun _ _ h => by cases h

/-- A value that exists may be put under a name. -/
theorem HasBindings.insert {b : Bindings} (hb : s.HasBindings b) (name : Name) {v : Value}
    (hv : s.Has v) : s.HasBindings (b.insert name v) := by
  intro other w h
  -- the name itself holds the new value, and every other name what it held
  by_cases heq : other = name
  · subst heq
    rw [Bindings.get?_insert_self] at h
    cases h
    exact hv
  · rw [b.get?_insert_of_ne v heq] at h
    exact hb other w h

/-- It may be put there only if the name is new. -/
theorem HasBindings.insertIfNew {b : Bindings} (hb : s.HasBindings b) (name : Name) {v : Value}
    (hv : s.Has v) : s.HasBindings (b.insertIfNew name v) := by
  unfold Bindings.insertIfNew
  split
  · exact hb
  · exact hb.insert name hv

/-- A name may be taken out. -/
theorem HasBindings.erase {b : Bindings} (hb : s.HasBindings b) (name : Name) :
    s.HasBindings (b.erase name) := by
  intro other w h
  by_cases heq : other = name
  · subst heq
    rw [Bindings.get?_erase_self] at h
    cases h
  · rw [b.get?_erase_of_ne heq] at h
    exact hb other w h

/-! ## Changes of an object -/

/-- An array of another length holds what exists. -/
theorem has_resize {items : Array Value} (hitems : ∀ v ∈ items, s.Has v) (len : Nat) :
    ∀ v ∈ resize items len, s.Has v := by
  intro v hv
  unfold resize at hv
  -- a shorter array keeps its first items, a longer one is filled up with `undefined`
  split at hv
  · obtain ⟨k, hk, rfl⟩ := Array.mem_extract_iff_getElem.mp hv
    exact hitems _ (Array.getElem_mem _)
  · rcases Array.mem_append.mp hv with hv | hv
    · exact hitems v hv
    · rw [(Array.mem_replicate.mp hv).2]
      trivial

/-- An array with another item holds what exists. -/
theorem has_setIfInBounds {items : Array Value} (hitems : ∀ v ∈ items, s.Has v) (i : Nat)
    {v : Value} (hv : s.Has v) : ∀ w ∈ items.setIfInBounds i v, s.Has w := by
  intro w hw
  rcases Array.mem_or_eq_of_mem_setIfInBounds hw with hw | rfl
  · exact hitems w hw
  · exact hv

namespace HasContents

variable {o : Object}

/-- An object with a property more consists of what exists. -/
theorem insert (ho : s.HasContents o) (key : String) {v : Value} (hv : s.Has v) :
    s.HasContents (o.insert key v) := by
  obtain ⟨kind, properties, parent⟩ := o
  have hproperties := ho.properties.insert key hv
  cases kind with
  | list items =>
    simp only [Object.insert]
    -- an index below the limit is that of an item, anything else is a property
    split
    · split
      · refine ⟨has_setIfInBounds ?_ _ hv, ho.properties⟩
        split
        · exact ho.kind
        · exact has_resize ho.kind _
      · exact ⟨ho.kind, hproperties⟩
    · exact ⟨ho.kind, hproperties⟩
  | plain => exact ⟨ho.kind, hproperties⟩
  | function c => exact ⟨ho.kind, hproperties⟩

/-- An array with another length consists of what exists. -/
theorem setLength? {o' : Object} {len : Number} (ho : s.HasContents o)
    (h : o.setLength? len = some o') : s.HasContents o' := by
  obtain ⟨kind, properties, parent⟩ := o
  cases kind with
  | list items =>
    simp only [Object.setLength?] at h
    -- only a length in bounds is taken, and one that changes nothing is left
    split at h
    · split at h
      · split at h
        · cases h
          exact ⟨has_resize ho.kind _, ho.properties⟩
        · cases h
          exact ho
      · cases h
    · cases h
  | plain => cases h
  | function c => cases h

/-- An object with a property less consists of what exists. -/
theorem erase (ho : s.HasContents o) (key : String) : s.HasContents (o.erase key) := by
  obtain ⟨kind, properties, parent⟩ := o
  have hproperties := ho.properties.erase key
  cases kind with
  | list items =>
    simp only [Object.erase]
    -- an item that is erased becomes `undefined`, so the others keep their places
    split
    · split
      · exact ⟨has_setIfInBounds ho.kind _ trivial, ho.properties⟩
      · exact ⟨ho.kind, hproperties⟩
    · exact ⟨ho.kind, hproperties⟩
  | plain => exact ⟨ho.kind, hproperties⟩
  | function c => exact ⟨ho.kind, hproperties⟩

/-- An array with other items consists of what exists. -/
theorem withItems (ho : s.HasContents o) {items : List Value} (hitems : ∀ v ∈ items, s.Has v) :
    s.HasContents (o.withItems items) := by
  obtain ⟨kind, properties, parent⟩ := o
  cases kind with
  | list old => exact ⟨fun v hv => hitems v (List.mem_toArray.mp hv), ho.properties⟩
  | plain => exact ho
  | function c => exact ho

/-- A property of an object's own exists. -/
theorem has_get? (ho : s.HasContents o) {key : String} {v : Value} (h : o.get? key = some v) :
    s.Has v := by
  obtain ⟨kind, properties, parent⟩ := o
  cases kind with
  | list items =>
    simp only [Object.get?] at h
    -- the length is a number, an index leads to an item, any other key to a property
    split at h
    · cases h
      trivial
    · split at h
      · rename_i hitem
        cases h
        obtain ⟨i, -, hi⟩ := Option.bind_eq_some_iff.mp hitem
        exact ho.kind v (Array.mem_of_getElem? hi)
      · exact ho.properties key v h
  | plain => exact ho.properties key v h
  | function c => exact ho.properties key v h

end HasContents

end Store

namespace Object

/-- A property more does not change the parent. -/
theorem parent_insert (o : Object) (key : String) (v : Value) :
    (o.insert key v).parent = o.parent := by
  obtain ⟨kind, properties, parent⟩ := o
  cases kind with
  | list items =>
    simp only [insert]
    split
    · split <;> rfl
    · rfl
  | plain => rfl
  | function c => rfl

/-- Another length does not change the parent. -/
theorem parent_setLength? {o o' : Object} {len : Number} (h : o.setLength? len = some o') :
    o'.parent = o.parent := by
  obtain ⟨kind, properties, parent⟩ := o
  cases kind with
  | list items =>
    simp only [setLength?] at h
    split at h
    · split at h
      · split at h <;> (cases h; rfl)
      · cases h
    · cases h
  | plain => cases h
  | function c => cases h

/-- A property less does not change the parent. -/
theorem parent_erase (o : Object) (key : String) : (o.erase key).parent = o.parent := by
  obtain ⟨kind, properties, parent⟩ := o
  cases kind with
  | list items =>
    simp only [erase]
    split
    · split <;> rfl
    · rfl
  | plain => rfl
  | function c => rfl

/-- Other items do not change the parent. -/
theorem parent_withItems (o : Object) (items : List Value) :
    (o.withItems items).parent = o.parent := by
  obtain ⟨kind, properties, parent⟩ := o
  cases kind <;> rfl

end Object

namespace Store

variable {s : Store}

namespace Sound

/-! ## Walks along the parents of objects -/

/-- The search for a property goes through older and older objects, so a bound above the number of
    the object it starts at is enough. -/
theorem inheritedWithin_eq (h : s.Sound) {key : String} {ref : ObjectRef} {bound bound' : Nat}
    (hbound : ref.index < bound) (hbound' : ref.index < bound') :
    s.inheritedWithin key bound ref = s.inheritedWithin key bound' ref := by
  induction bound generalizing ref bound' with
  | zero => omega
  | succ bound ih =>
    cases bound' with
    | zero => omega
    | succ bound' =>
      simp only [inheritedWithin]
      -- found at the object itself, or searched for at its parent, which is older
      cases (s.object ref).get? key with
      | some v => rfl
      | none =>
        cases hparent : (s.object ref).parent with
        | none => rfl
        | some parent =>
          have hlt := h.older ref parent hparent
          exact ih (by omega) (by omega)

/-- A property is the object's own, or else whatever its parent has or inherits. -/
theorem inherited?_eq (h : s.Sound) (ref : ObjectRef) (key : String) :
    s.inherited? ref key = ((s.object ref).get? key).or
      ((s.object ref).parent.bind (s.inherited? · key)) := by
  show s.inheritedWithin key (ref.index + 1) ref = _
  rw [inheritedWithin]
  cases (s.object ref).get? key with
  | some v => rfl
  | none =>
    cases hparent : (s.object ref).parent with
    | none => rfl
    | some parent => exact h.inheritedWithin_eq (h.older ref parent hparent) (Nat.lt_succ_self _)

/-- The search for an ancestor goes through older and older objects, too. -/
theorem descendsWithin_eq (h : s.Sound) {ancestor ref : ObjectRef} {bound bound' : Nat}
    (hbound : ref.index < bound) (hbound' : ref.index < bound') :
    s.descendsWithin ancestor bound ref = s.descendsWithin ancestor bound' ref := by
  induction bound generalizing ref bound' with
  | zero => omega
  | succ bound ih =>
    cases bound' with
    | zero => omega
    | succ bound' =>
      simp only [descendsWithin]
      cases hparent : (s.object ref).parent with
      | none => rfl
      | some parent =>
        have hlt := h.older ref parent hparent
        -- the parent is the ancestor, or descends from it
        show (_ || _) = (_ || _)
        rw [ih (show parent.index < bound by omega) (show parent.index < bound' by omega)]

/-- The ancestors of an object are its parent and the ancestors of that. -/
theorem descendsFrom_eq (h : s.Sound) (ref ancestor : ObjectRef) :
    s.descendsFrom ref ancestor = (s.object ref).parent.any
      fun parent => parent == ancestor || s.descendsFrom parent ancestor := by
  show s.descendsWithin ancestor (ref.index + 1) ref = _
  rw [descendsWithin]
  cases hparent : (s.object ref).parent with
  | none => rfl
  | some parent =>
    show (_ || _) = (_ || s.descendsWithin ancestor (parent.index + 1) parent)
    rw [h.descendsWithin_eq (h.older ref parent hparent) (Nat.lt_succ_self _)]

/-- A property that is found exists. -/
theorem has_inherited (h : s.Sound) {ref : ObjectRef} {key : String} {v : Value}
    (hv : s.inherited? ref key = some v) : s.Has v := by
  -- by the number of the object: its parent is older
  obtain ⟨i⟩ := ref
  induction i using Nat.strongRecOn with
  | ind i ih =>
    rw [h.inherited?_eq] at hv
    cases hown : (s.object ⟨i⟩).get? key with
    | some w =>
      rw [hown] at hv
      cases hv
      exact (h.contents ⟨i⟩).has_get? hown
    | none =>
      rw [hown, Option.none_or] at hv
      obtain ⟨parent, hparent, hv⟩ := Option.bind_eq_some_iff.mp hv
      exact ih parent.index (h.older ⟨i⟩ parent hparent) hv

/-! ## Walks along scopes -/

/-- A name is bound by the scope itself, or else by whatever binds it around that. -/
theorem binder?_eq (h : s.Sound) (ref : ScopeRef) (name : Name) :
    s.binder? ref name =
      if (s.scope ref).names.contains name then some ref
      else (s.scope ref).parent.bind (s.binder? · name) := by
  show s.binderWithin name (ref.index + 1) ref = _
  rw [binderWithin]
  split
  · rfl
  · cases hparent : (s.scope ref).parent with
    | none => rfl
    | some outer => exact h.binderWithin_eq (h.parent_lt hparent) (Nat.lt_succ_self _)

/-- A variable that is found exists. -/
theorem has_lookup (h : s.Sound) {ref : ScopeRef} {name : Name} {v : Value}
    (hv : s.lookup? ref name = some v) : s.Has v := by
  unfold lookup? at hv
  -- a name that no scope binds is a property of the global object, or one that it inherits
  split at hv
  · exact h.names _ name v hv
  · exact h.has_inherited hv

end Sound

/-! ## What is read off a value -/

/-- The items of an array that exists exist. -/
theorem Sound.has_items (h : s.Sound) {v : Value} {items : Array Value}
    (hitems : s.items? v = some items) : ∀ item ∈ items, s.Has item := by
  unfold items? objectOf? at hitems
  cases v with
  | object ref =>
    have hkind := (h.contents ref).kind
    rw [Option.bind_some] at hitems
    unfold Object.items? at hitems
    split at hitems
    · rename_i hlist
      cases hitems
      rw [hlist] at hkind
      exact hkind
    · cases hitems
  | _ => cases hitems

/-- The function that a value is closes over what exists. -/
theorem Sound.has_callable (h : s.Sound) {v : Value} {c : Callable}
    (hc : s.callable? v = some c) : s.HasCallable c := by
  obtain ⟨ref, -, hkind⟩ := callable?_eq_some_iff.mp hc
  have hcontents := (h.contents ref).kind
  rw [hkind] at hcontents
  exact hcontents

/-- What an array is spread into exists, and so does a value that stands for itself. -/
theorem Sound.has_spread (h : s.Sound) {v : Value} (hv : s.Has v) :
    ∀ item ∈ s.spread v, s.Has item := by
  intro item hitem
  unfold spread at hitem
  -- an array stands for its items, anything else for itself
  split at hitem
  · rename_i hitems
    exact h.has_items hitems item (Array.mem_toList_iff.mp hitem)
  · rw [List.mem_singleton.mp hitem]
    exact hv

/-- An argument exists, also where it is left out. -/
theorem has_argument {args : List Value} (hargs : ∀ v ∈ args, s.Has v) (i : Nat) :
    s.Has (argument args i) := by
  unfold argument
  cases h : args[i]? with
  | none => trivial
  | some v => exact hargs v (List.mem_of_getElem? h)

/-- An operation gives a number or a text, which is no object. -/
theorem has_arithmetic (op : Arithmetic) (a b : Value) : s.Has (s.arithmetic op a b) := by
  cases op with
  | add =>
    unfold arithmetic sum
    dsimp only
    -- a sum of texts is a text
    split <;> trivial
  | _ => trivial

end Store

end Descramble
