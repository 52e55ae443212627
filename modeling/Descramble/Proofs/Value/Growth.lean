import Descramble.Evaluation.ListMethod
import Descramble.Proofs.Script.Binding
import Descramble.Value.Global
import Descramble.Value.Variable

/-!
# How a store grows

A run only adds to the store: scopes lie inside older ones, functions keep the code and the scope
they were made with, and arrays stay arrays. `Store.WellScoped` says of a name that only the root
scope binds it and that no function in the store binds it or writes to it; `Store.Leads` says what a
store and a later one have in common.

Main statements: `WellScoped.lookup?_eq`, the name then means what the root scope says, in every
scope; and for every change that a run makes, such as `leads_setOwn` and `leads_bind`, that it leads
from a store to one with the same binding.
-/

namespace Descramble

/-! ## Kinds of objects -/

/-- The kind of an object without the items of an array. -/
def ObjectKind.shape : ObjectKind → ObjectKind
  | .list _ => .list #[]
  | kind => kind

/-- A function is the function that it is, without anything left out. -/
theorem ObjectKind.shape_eq_function {kind : ObjectKind} {c : Callable} :
    kind.shape = .function c ↔ kind = .function c := by
  cases kind <;> simp [shape]

namespace Object

/-- Arrays are told by their shape. -/
theorem isList_iff_shape {o : Object} : o.isList = true ↔ o.kind.shape = .list #[] := by
  obtain ⟨kind, properties, parent⟩ := o
  cases kind <;> simp [isList, ObjectKind.shape]

/-- A property more does not change the shape. -/
theorem shape_insert (o : Object) (key : String) (value : Value) :
    (o.insert key value).kind.shape = o.kind.shape := by
  obtain ⟨kind, properties, parent⟩ := o
  -- an array may get another item instead, and stays an array
  cases kind with
  | list items =>
    simp only [insert]
    split
    · split <;> rfl
    · rfl
  | plain => rfl
  | function c => rfl

/-- A property less does not change the shape. -/
theorem shape_erase (o : Object) (key : String) : (o.erase key).kind.shape = o.kind.shape := by
  obtain ⟨kind, properties, parent⟩ := o
  cases kind with
  | list items =>
    simp only [erase]
    split
    · split <;> rfl
    · rfl
  | plain => rfl
  | function c => rfl

/-- Another length does not change the shape. -/
theorem shape_setLength? {o o' : Object} {len : Number} (h : o.setLength? len = some o') :
    o'.kind.shape = o.kind.shape := by
  obtain ⟨kind, properties, parent⟩ := o
  cases kind with
  | list items =>
    simp only [setLength?] at h
    split at h
    · split at h
      · split at h <;> (cases h; rfl)
      · cases h
    · cases h
  | plain => cases h
  | function c => cases h

/-- Other items do not change the shape. -/
theorem shape_withItems (o : Object) (items : List Value) :
    (o.withItems items).kind.shape = o.kind.shape := by
  obtain ⟨kind, properties, parent⟩ := o
  cases kind <;> rfl

end Object

/-! ## Well-scoped stores -/

/-- Whether a function can be called where there are `bound` scopes: its scope exists, and its code
    spares a name. -/
def Callable.Fits (name : Name) (bound : Nat) : Callable → Prop
  | .closure definition scope => definition.Spares name ∧ scope.index < bound
  | .arrow params body scope _ =>
    (name ∉ params ∧ ∀ part ∈ body.inner, Part.Everywhere (Part.Spares name) part) ∧
      scope.index < bound
  | .native _ => True

/-- A function that can be called can be called where there are more scopes. -/
theorem Callable.Fits.mono {name : Name} {bound bound' : Nat} {c : Callable}
    (h : c.Fits name bound) (hle : bound ≤ bound') : c.Fits name bound' := by
  -- only functions that were written have a scope
  cases c with
  | closure definition scope => exact ⟨h.1, Nat.lt_of_lt_of_le h.2 hle⟩
  | arrow params body scope this => exact ⟨h.1, Nat.lt_of_lt_of_le h.2 hle⟩
  | native n => trivial

namespace Store

/-- Every scope lies inside an older one, except the root. -/
structure Nested (s : Store) : Prop where
  root_lt : 0 < s.scopes.size
  root_parent : (s.scope .root).parent = none
  parent : ∀ ref : ScopeRef, ref ≠ .root → ref.index < s.scopes.size →
    ∃ outer, (s.scope ref).parent = some outer ∧ outer.index < ref.index

/-- A store in which only the root scope binds a name, and no function does or writes to it. -/
structure WellScoped (name : Name) (s : Store) : Prop extends s.Nested where
  spared : ∀ ref : ScopeRef, ref ≠ .root → (s.scope ref).names.get? name = none
  code : ∀ (ref : ObjectRef) (c : Callable), (s.object ref).kind = .function c →
    c.Fits name s.scopes.size

/-- What a store leads to while a script runs that spares a name. -/
structure Leads (name : Name) (s s' : Store) : Prop where
  wellScoped : s'.WellScoped name
  scopes_le : s.scopes.size ≤ s'.scopes.size
  objects_le : s.objects.size ≤ s'.objects.size
  shape_eq : ∀ ref : ObjectRef, ref.index < s.objects.size →
    (s'.object ref).kind.shape = (s.object ref).kind.shape
  root_eq : (s'.scope .root).names.get? name = (s.scope .root).names.get? name

variable {name : Name} {s s' s'' : Store}

/-- A well-scoped store leads to itself. -/
theorem WellScoped.leads (h : s.WellScoped name) : s.Leads name s :=
  ⟨h, Nat.le_refl _, Nat.le_refl _, fun _ _ => rfl, rfl⟩

/-- What leads on leads all the way. -/
theorem Leads.trans (h : s.Leads name s') (h' : s'.Leads name s'') : s.Leads name s'' where
  wellScoped := h'.wellScoped
  scopes_le := Nat.le_trans h.scopes_le h'.scopes_le
  objects_le := Nat.le_trans h.objects_le h'.objects_le
  shape_eq := fun ref hlt =>
    (h'.shape_eq ref (Nat.lt_of_lt_of_le hlt h.objects_le)).trans (h.shape_eq ref hlt)
  root_eq := h'.root_eq.trans h.root_eq

/-- A value can be called if it is an object that is a function. -/
theorem callable?_eq_some_iff {v : Value} {c : Callable} :
    s.callable? v = some c ↔ ∃ ref, v = .object ref ∧ (s.object ref).kind = .function c := by
  -- only an object can be called
  cases v with
  | object ref =>
    have hkind : s.callable? (.object ref) = some c ↔ (s.object ref).kind = .function c := by
      simp only [callable?, objectOf?]
      generalize s.object ref = o
      obtain ⟨kind, properties, parent⟩ := o
      cases kind <;> simp
    simpa using hkind
  | _ => simp [callable?, objectOf?]

/-- A function is an object of the store. -/
theorem lt_of_kind_eq_function {ref : ObjectRef} {c : Callable}
    (h : (s.object ref).kind = .function c) : ref.index < s.objects.size :=
  lt_of_kind_ne_plain fun hplain => nomatch h.symm.trans hplain

/-- A function stays the function it is. -/
theorem Leads.callable?_eq (h : s.Leads name s') {v : Value} {c : Callable}
    (hc : s.callable? v = some c) : s'.callable? v = some c := by
  obtain ⟨ref, rfl, hkind⟩ := callable?_eq_some_iff.mp hc
  -- a function has the shape of itself only
  have hshape := h.shape_eq ref (lt_of_kind_eq_function hkind)
  rw [hkind] at hshape
  exact callable?_eq_some_iff.mpr ⟨ref, rfl, ObjectKind.shape_eq_function.mp hshape⟩

/-! ## The scope that binds a name -/

/-- The scope around another is older. -/
theorem Nested.parent_lt (h : s.Nested) {ref outer : ScopeRef}
    (hparent : (s.scope ref).parent = some outer) : outer.index < ref.index := by
  -- neither the root nor a scope that is not there has a parent
  by_cases hroot : ref = .root
  · rw [hroot, h.root_parent] at hparent
    cases hparent
  · by_cases hlt : ref.index < s.scopes.size
    · obtain ⟨other, hother, hlt⟩ := h.parent ref hroot hlt
      rw [hother] at hparent
      cases hparent
      exact hlt
    · have hnone : s.scopes[ref.index]? = none := Array.getElem?_eq_none (Nat.not_lt.mp hlt)
      rw [scope, hnone] at hparent
      cases hparent

/-- The search for a name goes through older and older scopes, so a bound above the number of the
    scope it starts at is enough. -/
theorem Nested.binderWithin_eq (h : s.Nested) {ref : ScopeRef} {bound bound' : Nat}
    (hbound : ref.index < bound) (hbound' : ref.index < bound') :
    s.binderWithin name bound ref = s.binderWithin name bound' ref := by
  -- each turn of the search goes to an older scope, so either bound outlasts it
  induction bound generalizing ref bound' with
  | zero => omega
  | succ bound ih =>
    cases bound' with
    | zero => omega
    | succ bound' =>
      simp only [binderWithin]
      split
      · rfl
      · cases hparent : (s.scope ref).parent with
        | none => rfl
        | some outer =>
          have hlt := h.parent_lt hparent
          exact ih (by omega) (by omega)

/-- The search for a name in a scope that does not bind it goes on in the one around it. -/
theorem Nested.binder?_of_get?_eq_none (h : s.Nested) {ref outer : ScopeRef}
    (hnone : (s.scope ref).names.get? name = none) (hparent : (s.scope ref).parent = some outer) :
    s.binder? ref name = s.binder? outer name := by
  have hlt := h.parent_lt hparent
  unfold binder?
  rw [binderWithin, Bindings.contains, hnone, hparent]
  -- the search goes on with one turn less, which is still enough
  exact h.binderWithin_eq hlt (Nat.lt_succ_self _)

/-- A scope that binds a name is where the search for it ends. -/
theorem binder?_of_get?_eq_some {ref : ScopeRef} {v : Value}
    (h : (s.scope ref).names.get? name = some v) : s.binder? ref name = some ref := by
  unfold binder?
  rw [binderWithin, Bindings.contains, h]
  rfl

/-- A name means what the scope itself binds it to. -/
theorem lookup?_of_get?_eq_some {ref : ScopeRef} {v : Value}
    (h : (s.scope ref).names.get? name = some v) : s.lookup? ref name = some v := by
  rw [lookup?, binder?_of_get?_eq_some h]
  exact h

/-- A name that a scope does not bind means there what it means in the scope around it. -/
theorem Nested.lookup?_of_get?_eq_none (h : s.Nested) {ref outer : ScopeRef}
    (hnone : (s.scope ref).names.get? name = none) (hparent : (s.scope ref).parent = some outer) :
    s.lookup? ref name = s.lookup? outer name := by
  rw [lookup?, lookup?, h.binder?_of_get?_eq_none hnone hparent]

/-- A search for a name ends in no scope younger than the one it starts at. -/
theorem Nested.le_of_binderWithin (h : s.Nested) {bound : Nat} {ref binder : ScopeRef}
    (hbinder : s.binderWithin name bound ref = some binder) : binder.index ≤ ref.index := by
  induction bound generalizing ref with
  | zero => cases hbinder
  | succ bound ih =>
    simp only [binderWithin] at hbinder
    -- the search ends here or goes on in an older scope
    split at hbinder
    · cases hbinder
      exact Nat.le_refl _
    · cases hparent : (s.scope ref).parent with
      | none => simp [hparent] at hbinder
      | some outer =>
        rw [hparent] at hbinder
        exact Nat.le_of_lt (Nat.lt_of_le_of_lt (ih hbinder) (h.parent_lt hparent))

/-- A search for a name sees no scope younger than the one it starts at. -/
theorem Nested.binderWithin_congr (h : s.Nested) {bound : Nat} {ref : ScopeRef}
    (hscope : ∀ other : ScopeRef, other.index ≤ ref.index → s'.scope other = s.scope other) :
    s'.binderWithin name bound ref = s.binderWithin name bound ref := by
  induction bound generalizing ref with
  | zero => rfl
  | succ bound ih =>
    simp only [binderWithin, hscope ref (Nat.le_refl _)]
    split
    · rfl
    · cases hparent : (s.scope ref).parent with
      | none => rfl
      | some outer =>
        -- what is older than the scope around it is older than the scope
        have hlt := h.parent_lt hparent
        exact ih fun other hle => hscope other (by omega)

/-- A name means the same where the scopes up to the one that it stands in are the same, and the
    global object. -/
theorem Nested.lookup?_congr (h : s.Nested) {ref : ScopeRef}
    (hscope : ∀ other : ScopeRef, other.index ≤ ref.index → s'.scope other = s.scope other)
    (hglobal : s'.object .global = s.object .global) :
    s'.lookup? ref name = s.lookup? ref name := by
  have hbinder : s'.binder? ref name = s.binder? ref name := h.binderWithin_congr hscope
  unfold lookup?
  rw [hbinder]
  cases hfound : s.binder? ref name with
  | none =>
    -- the global object is the oldest, so nothing is asked but itself
    simp only [inherited?, inheritedWithin, ObjectRef.global]
    rw [show s'.object ⟨0⟩ = s.object ⟨0⟩ from hglobal]
  | some binder => simp only [hscope binder (h.le_of_binderWithin hfound)]

/-- The name means in every scope what the root scope says. -/
theorem WellScoped.lookup?_eq (h : s.WellScoped name) {v : Value}
    (hroot : (s.scope .root).names.get? name = some v) {ref : ScopeRef}
    (hlt : ref.index < s.scopes.size) : s.lookup? ref name = some v := by
  -- by the number of the scope: each is inside an older one
  obtain ⟨i⟩ := ref
  induction i using Nat.strongRecOn with
  | ind i ih =>
    by_cases hne : (⟨i⟩ : ScopeRef) = .root
    · rw [hne]
      exact lookup?_of_get?_eq_some hroot
    · obtain ⟨⟨j⟩, hparent, hj⟩ := h.parent ⟨i⟩ hne hlt
      rw [h.lookup?_of_get?_eq_none (h.spared ⟨i⟩ hne) hparent]
      exact ih j hj (Nat.lt_trans hj hlt)

/-! ## Changes -/

/-- Changes of objects that leave their shapes do so in a store. -/
theorem shape_modifyObject (s : Store) (ref : ObjectRef) {f : Object → Object}
    (hf : ∀ o, (f o).kind.shape = o.kind.shape) (other : ObjectRef) :
    ((s.modifyObject ref f).object other).kind.shape = (s.object other).kind.shape := by
  by_cases hne : other = ref
  · subst hne
    by_cases hlt : other.index < s.objects.size
    · rw [object_modifyObject hlt, hf]
    · simp [object, modifyObject, Array.getElem?_modify,
        Array.getElem?_eq_none (Nat.not_lt.mp hlt)]
  · rw [object_modifyObject_of_ne s hne]

/-- A change of an object that leaves its shape. -/
theorem WellScoped.leads_modifyObject (h : s.WellScoped name) (ref : ObjectRef)
    {f : Object → Object} (hf : ∀ o, (f o).kind.shape = o.kind.shape) :
    s.Leads name (s.modifyObject ref f) := by
  have hshape := s.shape_modifyObject ref hf
  exact
    { wellScoped :=
        { root_lt := h.root_lt
          root_parent := h.root_parent
          parent := h.parent
          spared := h.spared
          -- a function has the shape of itself only, so it was one before
          code := fun other c hc => h.code other c (ObjectKind.shape_eq_function.mp (by
            rw [← hshape other, hc]
            rfl)) }
      scopes_le := Nat.le_refl _
      objects_le := by simp [modifyObject]
      shape_eq := fun other _ => hshape other
      root_eq := rfl }

/-- What a write to the length of an array makes of an object. -/
theorem shape_setLength?_getD (o : Object) (key : String) (value : Value) (len : Number) :
    ((o.setLength? len).getD (o.insert key value)).kind.shape = o.kind.shape := by
  cases hlen : o.setLength? len with
  | none => exact o.shape_insert key value
  | some o' => exact Object.shape_setLength? hlen

/-- A property that is written, also the length of an array. -/
theorem WellScoped.leads_setOwn (h : s.WellScoped name) (ref : ObjectRef) (key : String)
    (value : Value) : s.Leads name (s.setOwn ref key value) := by
  unfold setOwn
  split
  · exact h.leads_modifyObject ref fun o => shape_setLength?_getD o key value _
  · exact h.leads_modifyObject ref fun o => o.shape_insert key value

/-- A new object, a function only if it fits. -/
theorem WellScoped.leads_addObject (h : s.WellScoped name) {o : Object}
    (ho : ∀ c, o.kind = .function c → c.Fits name s.scopes.size) :
    s.Leads name (s.addObject o).2 := by
  -- every object is one that was there, or the new one
  have hobject : ∀ ref, (s.addObject o).2.object ref = s.object ref ∨
      (s.addObject o).2.object ref = o := by
    intro ref
    simp only [addObject, object, Array.getElem?_push]
    split
    · exact .inr rfl
    · exact .inl rfl
  exact
    { wellScoped :=
        { root_lt := h.root_lt
          root_parent := h.root_parent
          parent := h.parent
          spared := h.spared
          code := fun ref c hc => by
            obtain hold | hnew := hobject ref
            · exact h.code ref c (hold ▸ hc)
            · exact ho c (hnew ▸ hc) }
      scopes_le := Nat.le_refl _
      objects_le := by simp [addObject]
      shape_eq := fun ref hlt => by rw [object_addObject_of_lt hlt]
      root_eq := rfl }

/-- Every scope but a new one is as it was. -/
theorem scope_addScope_of_ne (s : Store) (outer : ScopeRef) {ref : ScopeRef}
    (hne : ref.index ≠ s.scopes.size) : (s.addScope outer).2.scope ref = s.scope ref := by
  simp [addScope, scope, Array.getElem?_push, hne]

/-- A new scope is one more. -/
theorem size_addScope (s : Store) (outer : ScopeRef) :
    (s.addScope outer).2.scopes.size = s.scopes.size + 1 := by
  simp [addScope]

/-- A new scope lies inside an older one if it is made in one. -/
theorem Nested.addScope (h : s.Nested) {outer : ScopeRef} (houter : outer.index < s.scopes.size) :
    (s.addScope outer).2.Nested where
  root_lt := by
    rw [size_addScope]
    omega
  root_parent := by
    have hroot : ScopeRef.root.index < s.scopes.size := h.root_lt
    rw [scope_addScope_of_lt hroot, h.root_parent]
  parent := fun ref hne hlt => by
    rw [size_addScope] at hlt
    -- the new scope, or one that was there
    by_cases hnew : ref.index = s.scopes.size
    · obtain rfl : ref = (s.addScope outer).1 := by cases ref; cases hnew; rfl
      exact ⟨outer, by rw [scope_addScope], houter⟩
    · rw [scope_addScope_of_ne s outer hnew]
      exact h.parent ref hne (by omega)

/-- A new scope inside one that exists. -/
theorem WellScoped.leads_addScope (h : s.WellScoped name) {outer : ScopeRef}
    (houter : outer.index < s.scopes.size) : s.Leads name (s.addScope outer).2 where
  wellScoped :=
    { toNested := h.toNested.addScope houter
      spared := fun ref hne => by
        -- the new scope binds nothing at all
        by_cases hnew : ref.index = s.scopes.size
        · obtain rfl : ref = (s.addScope outer).1 := by cases ref; cases hnew; rfl
          rw [scope_addScope]
          rfl
        · rw [scope_addScope_of_ne s outer hnew]
          exact h.spared ref hne
      code := fun ref c hc => by
        rw [size_addScope]
        exact (h.code ref c hc).mono (Nat.le_succ _) }
  scopes_le := by
    rw [size_addScope]
    exact Nat.le_succ _
  objects_le := Nat.le_refl _
  shape_eq := fun _ _ => rfl
  root_eq := by
    have hroot : ScopeRef.root.index < s.scopes.size := h.root_lt
    rw [scope_addScope_of_lt hroot]

section

variable (s) (ref : ScopeRef) (f : Bindings → Bindings)

/-- A change of the names in a scope leaves the scopes inside each other. -/
theorem parent_modifyScope (other : ScopeRef) :
    ((s.modifyScope ref fun scope => { scope with names := f scope.names }).scope other).parent =
      (s.scope other).parent := by
  -- only the scope that is changed could differ, and it differs in its names only
  by_cases hne : other = ref
  · subst hne
    by_cases hlt : other.index < s.scopes.size
    · rw [scope_modifyScope hlt]
    · simp [scope, modifyScope, Array.getElem?_modify,
        Array.getElem?_eq_none (Nat.not_lt.mp hlt)]
  · rw [scope_modifyScope_of_ne s hne]

/-- Changing a scope makes none. -/
theorem size_modifyScope (f : Scope → Scope) :
    (s.modifyScope ref f).scopes.size = s.scopes.size := by
  simp [modifyScope]

/-- A change of the names in a scope that leaves one of them alone leaves it alone everywhere. -/
theorem get?_modifyScope (hf : ∀ names, (f names).get? name = names.get? name) (other : ScopeRef) :
    ((s.modifyScope ref fun scope => { scope with names := f scope.names }).scope other).names.get?
      name = (s.scope other).names.get? name := by
  -- the scope that is changed, and any other
  by_cases hne : other = ref
  · subst hne
    by_cases hlt : other.index < s.scopes.size
    · rw [scope_modifyScope hlt]
      exact hf _
    · simp [scope, modifyScope, Array.getElem?_modify,
        Array.getElem?_eq_none (Nat.not_lt.mp hlt)]
  · rw [scope_modifyScope_of_ne s hne]

end

/-- Changing the names of a scope leaves the scopes inside each other. -/
theorem Nested.modifyScope (h : s.Nested) (ref : ScopeRef) (f : Bindings → Bindings) :
    (s.modifyScope ref fun scope => { scope with names := f scope.names }).Nested where
  root_lt := by
    rw [size_modifyScope]
    exact h.root_lt
  root_parent := by rw [parent_modifyScope, h.root_parent]
  parent := fun other hne hlt => by
    rw [size_modifyScope] at hlt
    rw [parent_modifyScope]
    exact h.parent other hne hlt

/-- A change of the names in a scope that spares the name. -/
theorem WellScoped.leads_modifyScope (h : s.WellScoped name) (ref : ScopeRef)
    {f : Bindings → Bindings} (hf : ∀ names, (f names).get? name = names.get? name) :
    s.Leads name (s.modifyScope ref fun scope => { scope with names := f scope.names }) where
  wellScoped :=
    { toNested := h.toNested.modifyScope ref f
      spared := fun other hne => by
        rw [get?_modifyScope s ref f hf]
        exact h.spared other hne
      code := fun other c hc => by
        rw [size_modifyScope]
        exact h.code other c hc }
  scopes_le := Nat.le_of_eq (size_modifyScope s ref _).symm
  objects_le := Nat.le_refl _
  shape_eq := fun _ _ => rfl
  root_eq := get?_modifyScope s ref f hf .root

section

variable {other : Name} (hne : name ≠ other)

include hne

/-- Another name that is bound in a scope. -/
theorem WellScoped.leads_bind (h : s.WellScoped name) (ref : ScopeRef) (value : Value) :
    s.Leads name (s.bind ref other value) :=
  h.leads_modifyScope ref fun names => names.get?_insert_of_ne value hne

/-- Another name that is bound unless it is bound there. -/
theorem WellScoped.leads_bindIfNew (h : s.WellScoped name) (ref : ScopeRef) (value : Value) :
    s.Leads name (s.bindIfNew ref other value) :=
  h.leads_modifyScope ref fun names => names.get?_insertIfNew_of_ne value hne

/-- Another name that is assigned to, wherever it is bound. -/
theorem WellScoped.leads_assign (h : s.WellScoped name) (ref : ScopeRef) (value : Value) :
    s.Leads name (s.assign ref other value) := by
  unfold assign
  -- a name that is bound nowhere becomes a property of the global object
  split
  · exact h.leads_bind hne _ value
  · exact h.leads_setOwn _ _ value

/-- Another name that is defined in a scope. -/
theorem WellScoped.leads_define (h : s.WellScoped name) (ref : ScopeRef) (value : Value) :
    s.Leads name (s.define ref other value) := by
  unfold define
  -- in the root scope names are properties of the global object
  split
  · exact h.leads_setOwn _ _ value
  · exact h.leads_bind hne ref value

/-- Another name that is declared without a value. -/
theorem WellScoped.leads_declare (h : s.WellScoped name) (ref : ScopeRef) :
    s.Leads name (s.declare ref other) := by
  unfold declare
  split
  · split
    · exact h.leads
    · exact h.leads_setOwn _ _ _
  · exact h.leads_bindIfNew hne ref _

end

/-- The root may bind the name to anything. -/
theorem WellScoped.bind_root (h : s.WellScoped name) (value : Value) :
    (s.bind .root name value).WellScoped name where
  toNested := h.toNested.modifyScope .root fun names => names.insert name value
  spared := fun ref hne => by
    unfold bind
    rw [scope_modifyScope_of_ne s hne]
    exact h.spared ref hne
  code := fun ref c hc => by
    unfold bind
    rw [size_modifyScope]
    exact h.code ref c hc

/-- A name that is bound in a scope has its value there. -/
theorem get?_bind_self {ref : ScopeRef} (hlt : ref.index < s.scopes.size) (value : Value) :
    ((s.bind ref name value).scope ref).names.get? name = some value := by
  unfold bind
  rw [scope_modifyScope hlt]
  exact Bindings.get?_insert_self _ _ _

/-- Parameters with other names that are bound to arguments. -/
theorem WellScoped.leads_bindParams (h : s.WellScoped name) (ref : ScopeRef) {params : List Name}
    (hparams : name ∉ params) (args : List Value) :
    s.Leads name (s.bindParams ref params args) := by
  -- parameter by parameter; arguments that are left out are `undefined`
  induction params generalizing s args with
  | nil => exact h.leads
  | cons param params ih =>
    rw [List.mem_cons, not_or] at hparams
    have hbind := h.leads_bind hparams.1 ref (args.head?.getD .undefined)
    exact hbind.trans (ih hbind.wellScoped hparams.2 args.tail)

/-! ## The store of a fresh run -/

/-- The store with its root scope and its global object only. -/
theorem wellScoped_empty : empty.WellScoped name where
  root_lt := Nat.zero_lt_one
  root_parent := rfl
  parent := fun ref hne hlt => absurd (by cases ref; cases Nat.lt_one_iff.mp hlt; rfl) hne
  spared := fun ref hne => by
    -- there is one scope, the root, and one object, which is no function
    obtain ⟨i⟩ := ref
    cases i with
    | zero => exact absurd rfl hne
    | succ i => rfl
  code := fun ref c hc => by
    obtain ⟨i⟩ := ref
    cases i <;> cases hc

/-- Native functions that are put in an object one by one. -/
theorem WellScoped.leads_addNatives (h : s.WellScoped name) (ref : ObjectRef)
    (members : List (Name × Native)) : s.Leads name (s.addNatives ref members) := by
  -- one by one: the function is made and then put in
  induction members generalizing s with
  | nil => exact h.leads
  | cons member rest ih =>
    obtain ⟨key, n⟩ := member
    have hadd := h.leads_addObject (o := .function (.native n)) (by rintro c ⟨⟩; trivial)
    have hset := hadd.wellScoped.leads_setOwn ref key
      (.object (s.addObject (.function (.native n))).1)
    exact (hadd.trans hset).trans (ih hset.wellScoped)

/-- An object with native functions that is put in the global object. -/
theorem WellScoped.leads_addNamespace (h : s.WellScoped name) (key : Name) {o : Object}
    (ho : ∀ c, o.kind = .function c → c.Fits name s.scopes.size) (members : List (Name × Native)) :
    s.Leads name (s.addNamespace key o members) := by
  have hadd := h.leads_addObject ho
  have hmembers := hadd.wellScoped.leads_addNatives (s.addObject o).1 members
  exact (hadd.trans hmembers).trans (hmembers.wellScoped.leads_setOwn _ _ _)

/-- A fresh store has no scope but the root, and no function but native ones. -/
theorem wellScoped_initial : initial.WellScoped name := by
  have hempty : empty.WellScoped name := wellScoped_empty
  -- in the order in which the store is filled
  have htexts := hempty.leads_addNamespace "String"
    (o := .function (.native .textOf)) (by rintro c ⟨⟩; trivial) [("fromCharCode", .fromCharCode)]
  have hmath := htexts.wellScoped.leads_addNamespace "Math" (o := .plain) nofun mathMembers
  have hlists := hmath.wellScoped.leads_addNamespace "Array" (o := .plain) nofun
    [("isArray", .isArray)]
  have hglobals := hlists.wellScoped.leads_addNatives .global globalFunctions
  have hundefined := hglobals.wellScoped.leads_setOwn .global "undefined" .undefined
  have hnan := hundefined.wellScoped.leads_setOwn .global "NaN" (.number .nan)
  exact (hnan.wellScoped.leads_setOwn .global "Infinity" _).wellScoped

end Store

end Descramble
