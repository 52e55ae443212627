import Descramble.Proofs.Value.Sound
import Mathlib.Logic.Relation

/-!
# How a run changes a store

A run changes one thing at a time: what an object consists of, but not its parent; the names that a
scope binds, but not the scope around it; or it makes a new object or scope. A name that a scope
binds stays bound there. `Store.Grows` is any number of such changes of a sound store, in which no
object changes its kind.

Main statements: `Change.sound`, a change keeps a store sound; `Grows.parent_scope`,
`Grows.parent_object` and `Grows.contains`, what stays as it is; and for everything that a run does
to a store, such as `Sound.grows_setOwn` and `Sound.grows_assign`, that it consists of such changes.
-/

namespace Descramble

/-! ## Names that stay bound -/

namespace Bindings

variable {b : Bindings} {other : Name}

/-- A name that has a value keeps having one, whatever is put under another name. -/
theorem contains_insert (h : b.contains other) (name : Name) (v : Value) :
    (b.insert name v).contains other := by
  by_cases heq : other = name
  · subst heq
    rw [contains, get?_insert_self]
    rfl
  · rwa [contains, b.get?_insert_of_ne v heq]

/-- A name that was to get a value has one. -/
theorem contains_insertIfNew_self (b : Bindings) (name : Name) (v : Value) :
    (b.insertIfNew name v).contains name := by
  rw [contains, get?_insertIfNew_self]
  rfl

/-- A name that has a value keeps having one. -/
theorem contains_insertIfNew (h : b.contains other) (name : Name) (v : Value) :
    (b.insertIfNew name v).contains other := by
  by_cases heq : other = name
  · subst heq
    exact b.contains_insertIfNew_self other v
  · rwa [contains, b.get?_insertIfNew_of_ne v heq]

end Bindings

namespace Store

variable {s s' s'' : Store}

/-! ## Where a change is seen -/

/-- An object is left as it is, or changed if it is the one in question and exists. -/
theorem object_modifyObject_or (s : Store) (ref : ObjectRef) (f : Object → Object)
    (other : ObjectRef) : (s.modifyObject ref f).object other = s.object other ∨
      (s.modifyObject ref f).object other = f (s.object other) := by
  by_cases heq : other = ref
  · subst heq
    -- a reference to nothing changes nothing
    by_cases hlt : other.index < s.objects.size
    · exact .inr (object_modifyObject hlt f)
    · left
      simp [object, modifyObject, Array.getElem?_modify,
        Array.getElem?_eq_none (Nat.not_lt.mp hlt)]
  · exact .inl (s.object_modifyObject_of_ne heq f)

/-- A scope is left as it is, or changed if it is the one in question and exists. -/
theorem scope_modifyScope_or (s : Store) (ref : ScopeRef) (f : Scope → Scope) (other : ScopeRef) :
    (s.modifyScope ref f).scope other = s.scope other ∨
      (s.modifyScope ref f).scope other = f (s.scope other) := by
  by_cases heq : other = ref
  · subst heq
    by_cases hlt : other.index < s.scopes.size
    · exact .inr (scope_modifyScope hlt f)
    · left
      simp [scope, modifyScope, Array.getElem?_modify,
        Array.getElem?_eq_none (Nat.not_lt.mp hlt)]
  · exact .inl (s.scope_modifyScope_of_ne heq f)

/-- A new object is seen under its own reference, and every other object as before. -/
theorem object_addObject_or (s : Store) (o : Object) (ref : ObjectRef) :
    (s.addObject o).2.object ref = s.object ref ∨
      ref.index = s.objects.size ∧ (s.addObject o).2.object ref = o := by
  by_cases heq : ref.index = s.objects.size
  · obtain rfl : ref = (s.addObject o).1 := by cases ref; cases heq; rfl
    exact .inr ⟨heq, s.object_addObject o⟩
  · left
    simp [object, addObject, Array.getElem?_push, heq]

/-- A new scope binds nothing yet and has the outer scope it was made with. -/
theorem scope_addScope_or (s : Store) (outer ref : ScopeRef) :
    (s.addScope outer).2.scope ref = s.scope ref ∨
      ref.index = s.scopes.size ∧ (s.addScope outer).2.scope ref = ⟨.empty, some outer⟩ := by
  by_cases heq : ref.index = s.scopes.size
  · obtain rfl : ref = (s.addScope outer).1 := by cases ref; cases heq; rfl
    exact .inr ⟨heq, s.scope_addScope outer⟩
  · exact .inl (s.scope_addScope_of_ne outer heq)

/-- A new object exists. -/
theorem has_addObject (s : Store) (o : Object) :
    (s.addObject o).2.Has (.object (s.addObject o).1) := by
  simp [Has, addObject]

/-- A new scope exists. -/
theorem lt_size_addScope (s : Store) (outer : ScopeRef) :
    (s.addScope outer).1.index < (s.addScope outer).2.scopes.size := by
  simp [addScope]

/-! ## One change -/

/-- One change of a store during a run. Only a new object gets a parent, and only a new scope an
    outer one. -/
inductive Change (s : Store) : Store → Prop
  | contents (ref : ObjectRef) {f : Object → Object} (hparent : ∀ o, (f o).parent = o.parent)
      (hf : ∀ o, s.HasContents o → s.HasContents (f o)) : Change s (s.modifyObject ref f)
  | names (ref : ScopeRef) {f : Bindings → Bindings}
      (hkeep : ∀ b name, b.contains name → (f b).contains name)
      (hf : ∀ b, s.HasBindings b → s.HasBindings (f b)) :
      Change s (s.modifyScope ref fun scope => { scope with names := f scope.names })
  | object {o : Object} (ho : s.HasContents o)
      (hparent : ∀ parent ∈ o.parent, parent.index < s.objects.size) : Change s (s.addObject o).2
  | scope {outer : ScopeRef} (h : outer.index < s.scopes.size) : Change s (s.addScope outer).2

namespace Change

/-- A change takes away no object and no scope. -/
theorem sizeLe (h : s.Change s') : s.SizeLe s' := by
  cases h with
  | contents ref hparent hf => exact ⟨by simp [modifyObject], Nat.le_refl _⟩
  | names ref hkeep hf => exact ⟨Nat.le_refl _, by simp [modifyScope]⟩
  | object ho hparent => exact ⟨by simp [addObject], Nat.le_refl _⟩
  | scope hlt => exact ⟨Nat.le_refl _, by simp [addScope]⟩

/-- An object keeps its parent. -/
theorem parent_object (h : s.Change s') {ref : ObjectRef} (hlt : ref.index < s.objects.size) :
    (s'.object ref).parent = (s.object ref).parent := by
  cases h with
  | contents other hparent hf =>
    -- what the object consists of may change, but not its parent
    rcases s.object_modifyObject_or other _ ref with heq | heq
    · rw [heq]
    · rw [heq, hparent]
  | names ref hkeep hf => rfl
  | object ho hparent => rw [object_addObject_of_lt hlt]
  | scope hlt => rfl

/-- A scope keeps its outer scope. -/
theorem parent_scope (h : s.Change s') {ref : ScopeRef} (hlt : ref.index < s.scopes.size) :
    (s'.scope ref).parent = (s.scope ref).parent := by
  cases h with
  | contents other hparent hf => rfl
  | names other hkeep hf => exact s.parent_modifyScope other _ ref
  | object ho hparent => rfl
  | scope houter => rw [scope_addScope_of_lt hlt]

/-- A name that is bound in a scope stays bound there. -/
theorem contains (h : s.Change s') {ref : ScopeRef} {name : Name}
    (hname : (s.scope ref).names.contains name) : (s'.scope ref).names.contains name := by
  cases h with
  | contents other hparent hf => exact hname
  | names other hkeep hf =>
    rcases s.scope_modifyScope_or other _ ref with heq | heq
    · rw [heq]
      exact hname
    · rw [heq]
      exact hkeep _ _ hname
  | object ho hparent => exact hname
  | @scope outer houter =>
    rcases s.scope_addScope_or outer ref with heq | ⟨hnew, -⟩
    · rw [heq]
      exact hname
    -- there was no such scope, so it bound nothing
    · have hnone : s.scopes[ref.index]? = none := Array.getElem?_eq_none (Nat.le_of_eq hnew.symm)
      rw [Store.scope, hnone] at hname
      cases hname

/-- A change keeps a store sound. -/
theorem sound (h : s.Change s') (hs : s.Sound) : s'.Sound := by
  have hsize := h.sizeLe
  -- for each change, everything but what it changes carries over to the larger store
  cases h with
  | contents ref hparent hf =>
    refine ⟨⟨hs.root_lt, hs.root_parent, hs.parent⟩,
      Nat.lt_of_lt_of_le hs.global_lt hsize.objects, fun other => ?_, fun other => ?_,
      fun other parent hother => ?_⟩
    · exact (hs.names other).mono hsize
    · rcases s.object_modifyObject_or ref _ other with heq | heq
      · rw [heq]
        exact (hs.contents other).mono hsize
      · rw [heq]
        exact (hf _ (hs.contents other)).mono hsize
    · apply hs.older other parent
      rcases s.object_modifyObject_or ref _ other with heq | heq
      · rwa [heq] at hother
      · rwa [heq, hparent] at hother
  | @names ref f hkeep hf =>
    refine ⟨hs.toNested.modifyScope ref f, hs.global_lt, fun other => ?_,
      fun other => (hs.contents other).mono hsize, hs.older⟩
    rcases s.scope_modifyScope_or ref _ other with heq | heq
    · rw [heq]
      exact (hs.names other).mono hsize
    · rw [heq]
      exact (hf _ (hs.names other)).mono hsize
  | @object o ho hparent =>
    refine ⟨⟨hs.root_lt, hs.root_parent, hs.parent⟩,
      Nat.lt_of_lt_of_le hs.global_lt hsize.objects, fun other => (hs.names other).mono hsize,
      fun other => ?_,
      fun other parent hother => ?_⟩
    · rcases s.object_addObject_or o other with heq | ⟨-, heq⟩
      · rw [heq]
        exact (hs.contents other).mono hsize
      · rw [heq]
        exact ho.mono hsize
    -- the new object is younger than any parent it can have
    · rcases s.object_addObject_or o other with heq | ⟨hnew, heq⟩
      · rw [heq] at hother
        exact hs.older other parent hother
      · rw [heq] at hother
        rw [hnew]
        exact hparent parent hother
  | @scope outer houter =>
    refine ⟨hs.toNested.addScope houter, hs.global_lt, fun other => ?_,
      fun other => (hs.contents other).mono hsize, hs.older⟩
    rcases s.scope_addScope_or outer other with heq | ⟨-, heq⟩
    · rw [heq]
      exact (hs.names other).mono hsize
    · rw [heq]
      exact hasBindings_empty

end Change

/-! ## Any number of changes -/

/-- A sound store and what changes of another lead to. An array stays an array meanwhile, and a
    function the function it is. -/
structure Grows (s s' : Store) : Prop where
  sound : s'.Sound
  changes : Relation.ReflTransGen Change s s'
  shapes : ∀ ref : ObjectRef, ref.index < s.objects.size →
    (s'.object ref).kind.shape = (s.object ref).kind.shape

/-- A sound store grows to itself. -/
theorem Sound.grows (hs : s.Sound) : s.Grows s :=
  ⟨hs, .refl, fun _ _ => rfl⟩

/-- One change that leaves the shapes of objects alone. -/
theorem Change.grows (h : s.Change s') (hs : s.Sound)
    (hshapes : ∀ ref : ObjectRef, ref.index < s.objects.size →
      (s'.object ref).kind.shape = (s.object ref).kind.shape) : s.Grows s' :=
  ⟨h.sound hs, .single h, hshapes⟩

namespace Grows

/-- What each change keeps is kept by all of them. There is always room for what was there. -/
theorem induction {motive : Store → Prop} (h : s.Grows s') (start : motive s)
    (step : ∀ t t', s.SizeLe t → t.Change t' → motive t → motive t') : motive s' := by
  -- the sizes are carried along, since a change is about what exists by then
  suffices hall : s.SizeLe s' ∧ motive s' from hall.2
  obtain ⟨-, hchanges, -⟩ := h
  induction hchanges with
  | refl => exact ⟨.refl s, start⟩
  | tail _ hlast ih => exact ⟨ih.1.trans hlast.sizeLe, step _ _ ih.1 hlast ih.2⟩

/-- Changes take away no object and no scope. -/
theorem sizeLe (h : s.Grows s') : s.SizeLe s' :=
  h.induction (.refl s) fun _ _ hle hchange _ => hle.trans hchange.sizeLe

/-- Changes after changes. -/
theorem trans (h : s.Grows s') (h' : s'.Grows s'') : s.Grows s'' where
  sound := h'.sound
  changes := h.changes.trans h'.changes
  shapes := fun ref hlt =>
    (h'.shapes ref (Nat.lt_of_lt_of_le hlt h.sizeLe.objects)).trans (h.shapes ref hlt)

/-- An object keeps its parent through all changes. -/
theorem parent_object (h : s.Grows s') {ref : ObjectRef} (hlt : ref.index < s.objects.size) :
    (s'.object ref).parent = (s.object ref).parent := by
  apply h.induction
  · rfl
  · intro t t' hle hchange ih
    rw [hchange.parent_object (Nat.lt_of_lt_of_le hlt hle.objects), ih]

/-- A scope keeps its outer scope through all changes. -/
theorem parent_scope (h : s.Grows s') {ref : ScopeRef} (hlt : ref.index < s.scopes.size) :
    (s'.scope ref).parent = (s.scope ref).parent := by
  apply h.induction
  · rfl
  · intro t t' hle hchange ih
    rw [hchange.parent_scope (Nat.lt_of_lt_of_le hlt hle.scopes), ih]

/-- A name that is bound in a scope stays bound there through all changes. -/
theorem contains (h : s.Grows s') {ref : ScopeRef} {name : Name}
    (hname : (s.scope ref).names.contains name) : (s'.scope ref).names.contains name :=
  h.induction hname fun _ _ _ hchange ih => hchange.contains ih

end Grows

/-- A value that exists goes on existing. -/
theorem Has.grows {v : Value} (hv : s.Has v) (h : s.Grows s') : s'.Has v :=
  hv.mono h.sizeLe

/-- Bindings of what exists go on being such. -/
theorem HasBindings.grows {b : Bindings} (hb : s.HasBindings b) (h : s.Grows s') :
    s'.HasBindings b :=
  hb.mono h.sizeLe

/-- What exists in a store exists in all that it grows to. -/
theorem Has.all_grows {vs : List Value} (hvs : ∀ v ∈ vs, s.Has v) (h : s.Grows s') :
    ∀ v ∈ vs, s'.Has v :=
  fun v hv => (hvs v hv).grows h

/-! ## What a run does to a store -/

namespace Sound

variable (hs : s.Sound)

include hs

/-- Changes of objects that leave their parents and their shapes. -/
theorem grows_modifyObject (ref : ObjectRef) {f : Object → Object}
    (hparent : ∀ o, (f o).parent = o.parent) (hshape : ∀ o, (f o).kind.shape = o.kind.shape)
    (hf : ∀ o, s.HasContents o → s.HasContents (f o)) : s.Grows (s.modifyObject ref f) :=
  (Change.contents ref hparent hf).grows hs fun other _ => s.shape_modifyObject ref hshape other

/-- A property that is put in an object as it stands. -/
theorem grows_insert (ref : ObjectRef) (key : String) {v : Value} (hv : s.Has v) :
    s.Grows (s.modifyObject ref (·.insert key v)) :=
  hs.grows_modifyObject ref (fun o => o.parent_insert key v) (fun o => o.shape_insert key v)
    fun _ ho => ho.insert key hv

/-- A property that is written, the length of an array included. -/
theorem grows_setOwn (ref : ObjectRef) (key : String) {v : Value} (hv : s.Has v) :
    s.Grows (s.setOwn ref key v) := by
  unfold setOwn
  -- the length of an array shortens or lengthens it; the parent stays in every case
  split
  · refine hs.grows_modifyObject ref (fun o => ?_) (fun o => shape_setLength?_getD o key v _)
      fun o ho => ?_
    · cases hlen : o.setLength? (s.numberOf v) with
      | none => exact o.parent_insert key v
      | some o' => exact Object.parent_setLength? hlen
    · cases hlen : o.setLength? (s.numberOf v) with
      | none => exact ho.insert key hv
      | some o' => exact ho.setLength? hlen
  · exact hs.grows_insert ref key hv

/-- A property that is taken out. -/
theorem grows_erase (ref : ObjectRef) (key : String) :
    s.Grows (s.modifyObject ref (·.erase key)) :=
  hs.grows_modifyObject ref (fun o => o.parent_erase key) (fun o => o.shape_erase key)
    fun _ ho => ho.erase key

/-- Other items of an array. -/
theorem grows_withItems (ref : ObjectRef) {items : List Value} (hitems : ∀ v ∈ items, s.Has v) :
    s.Grows (s.modifyObject ref (·.withItems items)) :=
  hs.grows_modifyObject ref (fun o => o.parent_withItems items) (fun o => o.shape_withItems items)
    fun _ ho => ho.withItems hitems

/-- A new object, whose parent exists if it has one. -/
theorem grows_addObject {o : Object} (ho : s.HasContents o)
    (hparent : ∀ parent ∈ o.parent, parent.index < s.objects.size) :
    s.Grows (s.addObject o).2 :=
  (Change.object ho hparent).grows hs fun _ hlt => by rw [object_addObject_of_lt hlt]

/-- A new scope, whose outer scope exists. -/
theorem grows_addScope {outer : ScopeRef} (h : outer.index < s.scopes.size) :
    s.Grows (s.addScope outer).2 :=
  (Change.scope h).grows hs fun _ _ => rfl

/-- A name that is bound in a scope. -/
theorem grows_bind (ref : ScopeRef) (name : Name) {v : Value} (hv : s.Has v) :
    s.Grows (s.bind ref name v) :=
  (Change.names ref (fun _ _ h => Bindings.contains_insert h name v)
    fun _ hb => hb.insert name hv).grows hs fun _ _ => rfl

/-- A name that is bound in a scope unless it is bound there. -/
theorem grows_bindIfNew (ref : ScopeRef) (name : Name) {v : Value} (hv : s.Has v) :
    s.Grows (s.bindIfNew ref name v) :=
  (Change.names ref (fun _ _ h => Bindings.contains_insertIfNew h name v)
    fun _ hb => hb.insertIfNew name hv).grows hs fun _ _ => rfl

/-- A name that is assigned to, wherever it is bound. -/
theorem grows_assign (ref : ScopeRef) (name : Name) {v : Value} (hv : s.Has v) :
    s.Grows (s.assign ref name v) := by
  unfold assign
  -- a name that nothing binds becomes a property of the global object
  split
  · exact hs.grows_bind _ name hv
  · exact hs.grows_setOwn _ name hv

/-- A name that is defined in a scope; at the root it is a property of the global object. -/
theorem grows_define (ref : ScopeRef) (name : Name) {v : Value} (hv : s.Has v) :
    s.Grows (s.define ref name v) := by
  unfold define
  split
  · exact hs.grows_setOwn _ name hv
  · exact hs.grows_bind ref name hv

/-- A name that is declared without a value. -/
theorem grows_declare (ref : ScopeRef) (name : Name) : s.Grows (s.declare ref name) := by
  unfold declare
  -- at the root a property that is there already is left alone
  split
  · split
    · exact hs.grows
    · exact hs.grows_setOwn _ name trivial
  · exact hs.grows_bindIfNew ref name trivial

/-- Parameters that are bound to arguments. -/
theorem grows_bindParams (ref : ScopeRef) (params : List Name) {args : List Value}
    (hargs : ∀ v ∈ args, s.Has v) : s.Grows (s.bindParams ref params args) := by
  induction params generalizing s args with
  | nil => exact hs.grows
  | cons param params ih =>
    -- a parameter without an argument is bound to `undefined`
    have hfirst : s.Has (args.head?.getD .undefined) := by
      cases args with
      | nil => trivial
      | cons v args => exact hargs v (.head _)
    have hbind := hs.grows_bind ref param hfirst
    exact hbind.trans (ih hbind.sound fun v hv => (hargs v (List.mem_of_mem_tail hv)).grows hbind)

/-! ## The store of a fresh run -/

/-- Native functions that are put in an object one by one. -/
theorem grows_addNatives (ref : ObjectRef) (members : List (Name × Native)) :
    s.Grows (s.addNatives ref members) := by
  induction members generalizing s with
  | nil => exact hs.grows
  | cons member rest ih =>
    obtain ⟨key, n⟩ := member
    have hadd : s.Grows (s.addObject (.function (.native n))).2 :=
      hs.grows_addObject ⟨trivial, hasBindings_empty⟩ nofun
    have hset := hadd.sound.grows_setOwn ref key (v := .object ⟨s.objects.size⟩)
      (s.has_addObject _)
    exact (hadd.trans hset).trans (ih hset.sound)

/-- An object with native functions that is put in the global object. -/
theorem grows_addNamespace (key : Name) {o : Object} (ho : s.HasContents o)
    (hparent : o.parent = none) (members : List (Name × Native)) :
    s.Grows (s.addNamespace key o members) := by
  have hadd := hs.grows_addObject ho (by rw [hparent]; exact nofun)
  have hmembers := hadd.sound.grows_addNatives ⟨s.objects.size⟩ members
  -- the object is made first, then filled, and then written under its name
  have hnew : (s.addObject o).2.Has (.object ⟨s.objects.size⟩) := s.has_addObject o
  exact (hadd.trans hmembers).trans (hmembers.sound.grows_setOwn _ key (hnew.grows hmembers))

end Sound

/-- The store with nothing in it but its root scope and its global object. -/
theorem sound_empty : empty.Sound where
  toNested := (wellScoped_empty : empty.WellScoped "").toNested
  global_lt := Nat.zero_lt_one
  names := fun ref => by
    obtain ⟨i⟩ := ref
    cases i <;> exact hasBindings_empty
  contents := fun ref => by
    obtain ⟨i⟩ := ref
    cases i <;> exact ⟨trivial, hasBindings_empty⟩
  older := fun ref parent h => by
    obtain ⟨i⟩ := ref
    cases i <;> cases h

/-- The store of a fresh run is sound. -/
theorem sound_initial : initial.Sound := by
  have hplain {s : Store} : s.HasContents .plain := ⟨trivial, hasBindings_empty⟩
  have htexts := sound_empty.grows_addNamespace "String" (o := .function (.native .textOf))
    ⟨trivial, hasBindings_empty⟩ rfl [("fromCharCode", .fromCharCode)]
  have hmath := htexts.sound.grows_addNamespace "Math" hplain rfl mathMembers
  have hlists := hmath.sound.grows_addNamespace "Array" hplain rfl [("isArray", .isArray)]
  have hglobals := hlists.sound.grows_addNatives .global globalFunctions
  have hundefined := hglobals.sound.grows_setOwn .global "undefined" (v := .undefined) trivial
  have hnan := hundefined.sound.grows_setOwn .global "NaN" (v := .number .nan) trivial
  exact (hnan.sound.grows_setOwn .global "Infinity" (v := .number (.infinite false)) trivial).sound

end Store

end Descramble
