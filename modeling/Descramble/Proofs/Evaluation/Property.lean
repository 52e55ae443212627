import Descramble.Proofs.Evaluation.Length
import Descramble.Proofs.Evaluation.Reachable

/-!
# The store as a map

Writing and removing properties is what it is in a map: a change is seen under its key, in its
object, and nowhere else. An array can become longer than arrays can be written to; from the limit
on, its items hide what is written.

Main statement: `Store.keyed`.
-/

namespace Descramble

open Descramble.Action

namespace Store

variable {s : Store} {ref : ObjectRef} {key : String}

/-- A write or a removal under a key changes its object only, and there only what is seen under the
    key; the kinds of all objects stay as they are. -/
theorem keyed (s : Store) (ref : ObjectRef) (key : String) (value : Value) :
    (∀ other,
      ((s.setOwn ref key value).object other).kind.shape = (s.object other).kind.shape ∧
      ((s.modifyObject ref (·.erase key)).object other).kind.shape = (s.object other).kind.shape) ∧
    (∀ other, other ≠ ref → (s.setOwn ref key value).object other = s.object other ∧
      (s.modifyObject ref (·.erase key)).object other = s.object other) ∧
    (ref.index < s.objects.size → s.isListLength ref key = false →
      (s.object ref).Written key value ((s.setOwn ref key value).object ref) ∧
      (s.object ref).Erased key ((s.modifyObject ref (·.erase key)).object ref)) := by
  -- shapes and other objects first, and then the two changes to the object itself
  refine ⟨fun other => ⟨s.shape_setOwn ref key value other,
    s.shape_modifyObject ref (fun o => o.shape_erase key) other⟩,
    fun other hne => ⟨object_setOwn_of_ne key value hne, s.object_modifyObject_of_ne hne _⟩,
    fun hlt hkey => ?_⟩
  have hlength := isListLength_eq_false_iff.mp hkey
  rw [object_setOwn hlt hkey, object_modifyObject hlt]
  exact ⟨Object.written_insert hlength value, Object.erased_erase hlength⟩

/-- A write past the end of an array of two items, and a removal of the first. -/
theorem keyed_pastEnd :
    let s := (Store.initial.run pairing).2
    ((s.setOwn ⟨17⟩ "4" (.text "x")).object ⟨17⟩).get? "length" = some (.number (.ofNat 5)) ∧
      ((s.setOwn ⟨17⟩ "4" (.text "x")).object ⟨17⟩).get? (toString 3) = some .undefined ∧
      ((s.modifyObject ⟨17⟩ (·.erase "0")).object ⟨17⟩).get? "0" = some .undefined := by
  intro s
  have hitems : s.items? (.object ⟨17⟩) = some #[.flag true, .null] := by decide +kernel
  have hkind := items?_object_eq_some_iff.mp hitems
  have hkey {key : String} (hne : key ≠ "length") : s.isListLength ⟨17⟩ key = false :=
    isListLength_eq_false_iff.mpr fun h => hne h.1
  have hwritten := ((keyed s ⟨17⟩ "4" (.text "x")).2.2 (lt_of_items? hitems) (hkey (by decide))).1
  have herased := ((keyed s ⟨17⟩ "0" .null).2.2 (lt_of_items? hitems) (hkey (by decide))).2
  -- the key is an index beyond both items and below the limit
  have hend : (s.object ⟨17⟩).PastEnd "4" 2 4 :=
    ⟨_, hkind, rfl, by decide, by decide, by decide⟩
  have hfirst : (s.object ⟨17⟩).HasItem "0" := ⟨_, 0, hkind, by decide, by decide⟩
  exact ⟨hwritten.length 2 4 hend, hwritten.gap 2 4 hend 3 (by decide) (by decide),
    herased.item hfirst⟩

end Store

/-! ## An array that is too long -/

namespace Action

variable {s : Store} {ref : ObjectRef}

/-- An array has its methods as long as it has no properties. -/
theorem getProperty_of_list {items : Array Value} {parent : Option ObjectRef} {key : String}
    {n : Native} (h : s.object ref = ⟨.list items, .empty, parent⟩)
    (hn : Native.listMethod? key = some n) (hkey : listIndex? key = none)
    (hlength : key ≠ "length") : getProperty (.object ref) key s = makeNative n s := by
  show getOfObject ref key s = _
  unfold getOfObject
  have hget : (s.object ref).get? key = none := by
    rw [h, Object.get?_of_not_listIndex? hkey hlength, Bindings.get?_empty]
  rw [read_bind, hget, h]
  simp only [ObjectKind.method?, hn]

end Action

namespace Store

variable {s s' : Store} {ref : ObjectRef}

/-- What a name means at the top depends on the scopes and on the global object alone. -/
theorem lookup?_root_congr (hscopes : s'.scopes = s.scopes)
    (hglobal : s'.object .global = s.object .global) (name : Name) :
    s'.lookup? .root name = s.lookup? .root name := by
  have hscope (scope : ScopeRef) : s'.scope scope = s.scope scope := by
    rw [Store.scope, Store.scope, hscopes]
  have hbinder : s'.binder? .root name = s.binder? .root name := by
    simp only [binder?, ScopeRef.root, binderWithin, hscope]
  have hinherited : s'.inherited? .global name = s.inherited? .global name := by
    simp only [inherited?, ObjectRef.global, inheritedWithin] at hglobal ⊢
    rw [hglobal]
  -- the outermost scope has no other around it, so two places are looked at
  simp only [lookup?, hbinder, hinherited, hscope]

/-- A script that makes an array, sets its length and appends an item. -/
def growing (len : Nat) (l : Literal) : Program where
  body := [
    .expr (.assign none (.ident "a") (.array [])),
    .expr (.assign none (.member (.ident "a") "length") (.literal (.number (.ofNat len)))),
    .expr (.call (.member (.ident "a") "push") [.literal l])]

/-- A store in which a variable at the top has an array with certain items and no properties. -/
structure Holds (s : Store) (name : Name) (ref : ObjectRef) (items : Array Value) : Prop where
  lookup : s.lookup? .root name = some (.object ref)
  object : s.object ref = ⟨.list items, .empty, none⟩
  ne_global : ref ≠ .global

/-- The array is there with its items. -/
theorem Holds.items {name : Name} {items : Array Value} (h : s.Holds name ref items) :
    s.items? (.object ref) = some items := by
  rw [items?_object_eq_some_iff, h.object]

/-- An array of which the length is set is filled up to it. -/
theorem Holds.setLength {name : Name} {items : Array Value} (h : s.Holds name ref items) {len : Nat}
    (hlen : len ≤ maxListLength) :
    setProperty (.object ref) "length" (.number (.ofNat len)) s =
      .done (.ok ()) (s.setOwn ref "length" (.number (.ofNat len))) ∧
    (s.setOwn ref "length" (.number (.ofNat len))).Holds name ref (resize items len) := by
  have hsmall : len ≤ 2 ^ 53 := le_of_le_maxListLength hlen
  have hequals := (Number.equals_ofNat_iff hsmall).mpr (Number.truncate?_ofNat hsmall)
  -- a number has no array inside, so nothing is read while it is written
  refine ⟨setProperty_of_not_lt (v := .number (.ofNat len)) (Number.not_lt_of_equals hlen hequals)
    (not_hasInside fun _ => nofun), ?_, ?_, h.ne_global⟩
  · rw [lookup?_root_congr (s.scopes_setOwn _ _ _) (object_setOwn_of_ne _ _ h.ne_global.symm),
      h.lookup]
  · rw [object_setOwn_length h.items, h.object]
    exact congrArg (Option.getD · _) (Object.setLength?_of_equals hlen hequals)

/-- What the array's method for appending does when it is called. -/
theorem Holds.push {name : Name} {items : Array Value} (h : s.Holds name ref items)
    (l : Literal) : ∃ called s', eval ⟨.root, .object .global⟩
      (.call (.member (.ident name) "push") [.literal l]) s =
        .ask (.call (.native (.list .push)) (.object ref) [l.value]) called (fun answer s =>
          .done (answer.map Completion.value) s) ∧
      enter (.native (.list .push)) (.object ref) [l.value] called =
        .done (.ok (.gaveBack (.number (.ofNat (items.toList ++ [l.value]).length)))) s' ∧
      s'.items? (.object ref) = some (items.toList ++ [l.value]).toArray := by
  have hget : Action.getProperty (.object ref) "push" s = makeNative (.list .push) s :=
    getProperty_of_list h.object rfl (by decide) (by decide)
  -- the method that is read is a new function beside the array
  have hitems := ((leftWith_self h.items).addObject (.function (.native (.list .push)))).items
  rw [Array.toArray_toList] at hitems
  obtain ⟨s', hpush, hleft⟩ := (listLaws hitems).push [l.value]
  have hcall := @eval_call_method ⟨.root, .object .global⟩ s ref name "push" (.list .push) h.lookup
    hget [l]
  exact ⟨_, s', hcall, bind_of_done hpush _, hleft.items⟩

/-- The store after the first statement of the script. -/
def made : Store :=
  (Store.initial.addObject (.list #[])).2.assign .root "a" (.object ⟨Store.initial.objects.size⟩)

/-- The first statement makes the array and leaves it in the variable. -/
theorem holds_made : made.Holds "a" ⟨17⟩ #[] where
  lookup := by decide +kernel
  object := by
    have hbinder : (Store.initial.addObject (.list #[])).2.binder? .root "a" = none := by
      decide +kernel
    have hmade := Store.initial.object_addObject (.list #[])
    have href : (Store.initial.addObject (.list #[])).1 = ⟨17⟩ := by decide +kernel
    rw [href] at hmade
    simp only [made, assign, hbinder]
    rw [object_setOwn_of_ne _ _ (by decide), hmade]
    rfl
  ne_global := by decide

/-- The array is one longer than any length that could be set. -/
theorem items?_run_growing {len : Nat} (hlen : len ≤ maxListLength) (l : Literal) :
    (Store.initial.run (growing len l)).2.items? (.object ⟨17⟩) =
      some ((resize #[] len).toList ++ [l.value]).toArray := by
  -- the store after the first statement is named, as the array that follows is too long to compute
  -- with
  have hmade : eval ⟨.root, .object .global⟩ (.assign none (.ident "a") (.array [])) .initial =
      .done (.ok (.object ⟨Store.initial.objects.size⟩)) made := rfl
  have hstart := holds_made
  generalize made = s₁ at hmade hstart
  obtain ⟨hset, hlong⟩ := hstart.setLength hlen
  have hassign := @eval_assign_member ⟨.root, .object .global⟩ s₁ ⟨17⟩ "a" "length"
    (.number (.ofNat len)) _ hstart.lookup hset
  -- the length is set at once, and then the method is called
  obtain ⟨called, s', hcall, henter, hitems⟩ := hlong.push l
  rw [Store.run, growing, perform_exprs hmade hassign hcall henter]
  exact hitems

/-- What is appended to an array that was filled up stands behind everything else. -/
theorem getElem?_appended (items : Array Value) (len : Nat) (v : Value) :
    ((resize items len).toList ++ [v]).toArray.size = len + 1 ∧
      ((resize items len).toList ++ [v]).toArray[len]? = some v := by
  have hlength : (resize items len).toList.length = len := by
    rw [Array.length_toList, size_resize]
  refine ⟨?_, ?_⟩
  · rw [List.size_toArray, List.length_append, hlength, List.length_singleton]
  · rw [List.getElem?_toArray, List.getElem?_append_right (Nat.le_of_eq hlength), hlength,
      Nat.sub_self, List.getElem?_cons_zero]

/-- A value written to an item beyond the limit is not seen: the item is. -/
theorem keyed_farItem :
    (Store.initial.run (growing maxListLength (.text "x"))).2.Reachable ∧
      (Store.initial.run (growing maxListLength (.text "x"))).2.isListLength ⟨17⟩ "16777216" =
        false ∧
      (((Store.initial.run (growing maxListLength (.text "x"))).2.setOwn ⟨17⟩ "16777216"
        (.text "y")).object ⟨17⟩).get? "16777216" = some (.text "x") := by
  have hitems := items?_run_growing (Nat.le_refl maxListLength) (.text "x")
  -- the store is kept as a name from here on
  generalize hs : (Store.initial.run (growing maxListLength (.text "x"))).2 = s at hitems ⊢
  have hindex : listIndex? "16777216" = some maxListLength := by decide +kernel
  have hkey : s.isListLength ⟨17⟩ "16777216" = false :=
    isListLength_eq_false_iff.mpr fun h => absurd h.1 (by decide)
  refine ⟨hs ▸ Reachable.initial.run _, hkey, ?_⟩
  obtain ⟨hsize, hitem⟩ := getElem?_appended #[] maxListLength (Literal.text "x").value
  have hkind := items?_object_eq_some_iff.mp hitems
  -- the item that was appended has an index that cannot be written to
  have hfar : (s.object ⟨17⟩).HasFarItem "16777216" :=
    ⟨_, maxListLength, hkind, hindex, Nat.le_refl _, by rw [hsize]; exact Nat.lt_succ_self _⟩
  rw [object_setOwn (lt_of_items? hitems) hkey,
    (Object.written_insert (isListLength_eq_false_iff.mp hkey) _).unseen hfar]
  obtain ⟨properties, parent, hlist⟩ := exists_object_of_items? hitems
  rw [hlist, Object.get?_of_listIndex? hindex, hitem]
  rfl

end Store

end Descramble
