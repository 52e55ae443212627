import Descramble.Value.Bindings

/-!
# The store

An object has a kind, properties and perhaps a parent from which it inherits; a scope binds names
and perhaps has an enclosing scope. The store holds all objects and scopes of a run, in the order in
which they were made, and a reference is a place in it.

Main statements: `object_modifyObject` and `object_modifyObject_of_ne`, a change reaches one object
only; `object_addObject` and `object_addObject_of_lt`, a new object leaves the others as they are;
and the same for scopes.
-/

namespace Descramble

inductive ObjectKind where
  | plain
  | list (items : Array Value)
  | function (callable : Callable)

structure Object where
  kind : ObjectKind
  properties : Bindings
  parent : Option ObjectRef

namespace Object

def ofKind (kind : ObjectKind) : Object :=
  ⟨kind, .empty, none⟩

def plain : Object :=
  ofKind .plain

def list (items : Array Value) : Object :=
  ofKind (.list items)

def function (callable : Callable) : Object :=
  ofKind (.function callable)

def isFunction (o : Object) : Bool :=
  match o.kind with
  | .function _ => true
  | _ => false

def isList (o : Object) : Bool :=
  match o.kind with
  | .list _ => true
  | _ => false

def items? (o : Object) : Option (Array Value) :=
  match o.kind with
  | .list items => some items
  | _ => none

end Object

instance : Inhabited Object := ⟨.plain⟩

structure Scope where
  names : Bindings
  parent : Option ScopeRef

instance : Inhabited Scope := ⟨⟨.empty, none⟩⟩

/-- Everything that a run can change: the objects and the scopes. -/
structure Store where
  objects : Array Object
  scopes : Array Scope

/-- The object whose properties are the global variables. -/
def ObjectRef.global : ObjectRef :=
  ⟨0⟩

/-- The outermost scope. Its declarations become global variables; it holds bindings of its own only
    for names that a host provides. -/
def ScopeRef.root : ScopeRef :=
  ⟨0⟩

namespace Store

/-- The object that a reference names. -/
def object (s : Store) (ref : ObjectRef) : Object :=
  s.objects[ref.index]?.getD .plain

/-- The scope that a reference names. -/
def scope (s : Store) (ref : ScopeRef) : Scope :=
  s.scopes[ref.index]?.getD default

/-- Changes the object that a reference names. -/
def modifyObject (s : Store) (ref : ObjectRef) (f : Object → Object) : Store :=
  { s with objects := s.objects.modify ref.index f }

/-- Changes the scope that a reference names. -/
def modifyScope (s : Store) (ref : ScopeRef) (f : Scope → Scope) : Store :=
  { s with scopes := s.scopes.modify ref.index f }

/-- Adds an object. -/
def addObject (s : Store) (o : Object) : ObjectRef × Store :=
  let ref := ⟨s.objects.size⟩
  (ref, { s with objects := s.objects.push o })

/-- Adds an empty scope inside another. -/
def addScope (s : Store) (parent : ScopeRef) : ScopeRef × Store :=
  let ref := ⟨s.scopes.size⟩
  (ref, { s with scopes := s.scopes.push ⟨.empty, some parent⟩ })

/-- The object of a value, if it is one. -/
def objectOf? (s : Store) : Value → Option Object
  | .object ref => some (s.object ref)
  | _ => none

/-- What a call of a value runs, if the value is a function. -/
def callable? (s : Store) (v : Value) : Option Callable :=
  match s.objectOf? v with
  | some ⟨.function c, _, _⟩ => some c
  | _ => none

def isFunction (s : Store) (v : Value) : Bool :=
  (s.callable? v).isSome

/-- The items of a value, if it is an array. -/
def items? (s : Store) (v : Value) : Option (Array Value) :=
  (s.objectOf? v).bind Object.items?

/-! ## Laws -/

/-- A reference beyond the objects that there are reads as a plain object. -/
theorem lt_of_kind_ne_plain {s : Store} {ref : ObjectRef} (h : (s.object ref).kind ≠ .plain) :
    ref.index < s.objects.size := by
  by_cases hlt : ref.index < s.objects.size
  · exact hlt
  -- beyond the objects there is only the plain object that stands for them
  · have hnone : s.objects[ref.index]? = none := Array.getElem?_eq_none (Nat.not_lt.mp hlt)
    rw [object, hnone] at h
    exact absurd rfl h

/-- A change of an object in the store is seen at it. -/
theorem object_modifyObject {s : Store} {ref : ObjectRef} (h : ref.index < s.objects.size)
    (f : Object → Object) : (s.modifyObject ref f).object ref = f (s.object ref) := by
  simp [object, modifyObject, Array.getElem_modify, h]

/-- A change of an object is not seen at any other. -/
theorem object_modifyObject_of_ne (s : Store) {ref other : ObjectRef} (h : other ≠ ref)
    (f : Object → Object) : (s.modifyObject ref f).object other = s.object other := by
  -- different references are different places
  have hne : ref.index ≠ other.index := fun heq => h (by cases ref; cases other; simp_all)
  simp [object, modifyObject, Array.getElem?_modify, hne]

/-- A change of an object does not touch the scopes. -/
@[simp] theorem scope_modifyObject (s : Store) (ref : ObjectRef) (f : Object → Object)
    (scope : ScopeRef) : (s.modifyObject ref f).scope scope = s.scope scope :=
  rfl

/-- The reference to a new object names it. -/
@[simp] theorem object_addObject (s : Store) (o : Object) :
    (s.addObject o).2.object (s.addObject o).1 = o := by
  simp [object, addObject]

/-- A new object leaves those that were there as they are. -/
theorem object_addObject_of_lt {s : Store} {ref : ObjectRef} (h : ref.index < s.objects.size)
    (o : Object) : (s.addObject o).2.object ref = s.object ref := by
  simp [object, addObject, Array.getElem?_push, Nat.ne_of_lt h]

/-- A change of a scope in the store is seen at it. -/
theorem scope_modifyScope {s : Store} {ref : ScopeRef} (h : ref.index < s.scopes.size)
    (f : Scope → Scope) : (s.modifyScope ref f).scope ref = f (s.scope ref) := by
  simp [scope, modifyScope, Array.getElem_modify, h]

/-- A change of a scope is not seen at any other. -/
theorem scope_modifyScope_of_ne (s : Store) {ref other : ScopeRef} (h : other ≠ ref)
    (f : Scope → Scope) : (s.modifyScope ref f).scope other = s.scope other := by
  have hne : ref.index ≠ other.index := fun heq => h (by cases ref; cases other; simp_all)
  simp [scope, modifyScope, Array.getElem?_modify, hne]

/-- The reference to a new scope names an empty one inside its parent. -/
@[simp] theorem scope_addScope (s : Store) (parent : ScopeRef) :
    (s.addScope parent).2.scope (s.addScope parent).1 = ⟨.empty, some parent⟩ := by
  simp [scope, addScope]

/-- A new scope leaves those that were there as they are. -/
theorem scope_addScope_of_lt {s : Store} {ref : ScopeRef} (h : ref.index < s.scopes.size)
    (parent : ScopeRef) : (s.addScope parent).2.scope ref = s.scope ref := by
  simp [scope, addScope, Array.getElem?_push, Nat.ne_of_lt h]

end Store

end Descramble
