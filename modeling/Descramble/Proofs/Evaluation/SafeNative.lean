import Descramble.Evaluation.Native
import Descramble.Proofs.Evaluation.Safe

/-!
# Native functions and access are safe

Whatever a native function or an access gives is found in the store, made from what is found there,
or made anew. An object gets a parent only where it is constructed, and the parent is older.

Main statements: `getProperty_safe`, `setProperty_safe`, `construct_safe` and `runNative_safe`.
-/

namespace Descramble

/-! ## Sections of what exists -/

namespace Offset

variable {α : Type} {x : α}

/-- What a slice holds was in the list. -/
theorem mem_of_mem_slice {start stop : Offset} {xs : List α} (h : x ∈ start.slice stop xs) :
    x ∈ xs :=
  List.mem_of_mem_take (List.mem_of_mem_drop h)

/-- What a splice takes out was there, and what it leaves was there or is put in. -/
theorem mem_of_mem_splice {start count : Offset} {inserted xs : List α} :
    (x ∈ (start.splice count inserted xs).1 → x ∈ xs) ∧
      (x ∈ (start.splice count inserted xs).2 → x ∈ xs ∨ x ∈ inserted) := by
  constructor
  · exact fun h => List.mem_of_mem_drop (List.mem_of_mem_take h)
  · intro h
    simp only [splice, List.mem_append] at h
    -- left of the place, put in, or right of what is taken out
    rcases h with (h | h) | h
    · exact .inl (List.mem_of_mem_take h)
    · exact .inr h
    · exact .inl (List.mem_of_mem_drop h)

end Offset

namespace Action

variable {s : Store} (hs : s.Sound)

include hs

/-! ## Access -/

/-- A method is made anew. -/
theorem makeMethod_safe (n : Option Native) : (makeMethod n).Safe s Store.Has := by
  cases n with
  | none => exact .pure hs trivial
  | some n => exact .makeNative hs n

/-- What a string has as a property is no object, or a method made anew. -/
theorem getOfText_safe (t key : String) : (getOfText t key).Safe s Store.Has := by
  unfold getOfText
  split
  · exact .pure hs trivial
  · split
    · split <;> exact .pure hs trivial
    · exact makeMethod_safe hs _

/-- What an object has as a property was stored there, or is made for it. -/
theorem getOfObject_safe (ref : ObjectRef) (key : String) :
    (getOfObject ref key).Safe s Store.Has := by
  refine .of_read ?_
  -- own properties come first, then methods of the kind, the prototype and what is inherited
  split
  · rename_i v hv
    exact .pure hs ((hs.contents ref).has_get? hv)
  · split
    · exact .makeNative hs _
    · split
      -- the prototype of a function is made when it is first asked for, and is kept
      · refine .bind (.makeObject hs ⟨trivial, Store.hasBindings_empty⟩ nofun)
          fun prototype s₁ h₁ hprototype => ?_
        refine .bind (.modify (h₁.sound.grows_setOwn ref key hprototype)) fun _ s₂ h₂ _ => ?_
        exact .pure h₂.sound (hprototype.grows h₂)
      · split
        · rename_i parent _
          refine .of_read (.pure hs ?_)
          cases hv : s.inherited? parent key with
          | none => trivial
          | some v => exact hs.has_inherited hv
        · exact .pure hs trivial

/-- A property that is read gives what exists. -/
theorem getProperty_safe (target : Value) (key : String) :
    (getProperty target key).Safe s Store.Has := by
  cases target with
  | undefined | null => exact .of_read (.typeError hs _)
  | text t => exact getOfText_safe hs t key
  | number _ | flag _ => exact makeMethod_safe hs _
  | object ref => exact getOfObject_safe hs ref key

/-- A property that is written holds what exists. -/
theorem setProperty_safe (target : Value) (key : String) {v : Value} (hv : s.Has v) :
    (setProperty target key v).Safe s fun _ _ => True := by
  cases target with
  | object ref =>
    refine .of_read ?_
    -- only the length of an array can be rejected or conflict
    split
    · exact .fail hs _ _
    · refine .of_read ?_
      split
      · exact .fatal hs _
      · exact .modify (hs.grows_setOwn ref key hv)
  | undefined | null => exact .of_read (.typeError hs _)
  | text _ | number _ | flag _ => exact .pure hs trivial

/-- A variable that is read gives what exists. -/
theorem getVariable_safe (c : Context) (name : Name) :
    (getVariable c name).Safe s Store.Has := by
  refine .of_read ?_
  -- a name that is bound nowhere is an error
  cases hv : s.lookup? c.scope name with
  | none => exact .fail hs _ _
  | some v => exact .pure hs (hs.has_lookup hv)

/-- What stands at a place exists. -/
theorem getPlace_safe (c : Context) (place : Place) : (getPlace c place).Safe s Store.Has := by
  cases place with
  | «variable» name => exact getVariable_safe hs c name
  | property target key => exact getProperty_safe hs target key

/-- What is put at a place existed before, so the store stays sound. -/
theorem setPlace_safe (c : Context) {v : Value} (hv : s.Has v) (place : Place) :
    (setPlace c v place).Safe s fun _ _ => True := by
  cases place with
  | «variable» name => exact .modify (hs.grows_assign c.scope name hv)
  | property target key => exact setProperty_safe hs target key hv

/-- Asking what is an instance of what may make a prototype and nothing else. -/
theorem isInstance_safe (value function : Value) :
    (isInstance value function).Safe s fun _ _ => True := by
  refine .of_read ?_
  -- only a function has instances, and only objects can be such
  split
  · refine .bind (getProperty_safe hs _ _) fun prototype s₁ h₁ _ => ?_
    split
    · exact .read h₁.sound trivial
    · exact .pure h₁.sound trivial
  · exact .typeError hs _

/-- Asking for a key changes nothing. -/
theorem hasProperty_safe (key object : Value) :
    (hasProperty key object).Safe s fun _ _ => True := by
  refine .of_read ?_
  cases object with
  | object ref => exact .of_read (.pure hs trivial)
  | _ => exact .of_read (.typeError hs _)

/-- The prototype exists before the object that is constructed. -/
theorem construct_safe (f : Value) {args : List Value} (hargs : ∀ v ∈ args, s.Has v) :
    (construct f args).Safe s Store.Has := by
  refine .of_read ?_
  split
  · refine .bind (getProperty_safe hs _ _) fun prototype s₁ h₁ hprototype => ?_
    refine .bind (.makeObject h₁.sound ⟨trivial, Store.hasBindings_empty⟩ ?_)
      fun made s₂ h₂ hmade => ?_
    -- the prototype that was read is the parent if it is an object
    · intro parent hparent
      cases prototype with
      | object ref =>
        cases hparent
        exact hprototype
      | _ => cases hparent
    · have h := h₁.trans h₂
      refine .bind (.call h₂.sound f hmade (Store.Has.all_grows hargs h))
        fun result s₃ h₃ hresult => ?_
      -- an object that the constructor gives back replaces the one that was made
      split
      · exact .pure h₃.sound hresult
      · exact .pure h₃.sound (hmade.grows h₃)
  · exact .of_read (.typeError hs _)

/-! ## Methods of arrays -/

/-- An array may be given other items if they exist. -/
theorem setItems_safe (ref : ObjectRef) {items : List Value} (hitems : ∀ v ∈ items, s.Has v) :
    (setItems ref items).Safe s fun _ _ => True :=
  .modify (hs.grows_withItems ref hitems)

/-- The results of calls for each item exist when all calls are done. -/
theorem callForEach_safe (f : Value) {this : Value} (hthis : s.Has this) {ref : ObjectRef}
    (href : s.Has (.object ref)) (place : Nat) {results items : List Value}
    (hresults : ∀ v ∈ results, s.Has v) (hitems : ∀ v ∈ items, s.Has v) :
    (callForEach f this ref place results items).Safe s fun s vs => ∀ v ∈ vs, s.Has v := by
  -- on the items that are left; the store has grown by what the calls before it have made
  induction items generalizing s place results with
  | nil => exact .pure hs fun v hv => hresults v (List.mem_reverse.mp hv)
  | cons item rest ih =>
    rw [List.forall_mem_cons] at hitems
    have hargs : ∀ v ∈ [item, .number (.ofNat place), .object ref], s.Has v := by
      simp only [List.forall_mem_cons]
      exact ⟨hitems.1, trivial, href, nofun⟩
    refine .bind (.call hs f hthis hargs) fun v s₁ h₁ hv => ?_
    refine ih h₁.sound (hthis.grows h₁) (href.grows h₁) _ ?_ (Store.Has.all_grows hitems.2 h₁)
    rw [List.forall_mem_cons]
    exact ⟨hv, Store.Has.all_grows hresults h₁⟩

/-- The same for the calls that a method makes with its arguments. -/
theorem mapItems_safe {ref : ObjectRef} (href : s.Has (.object ref)) {items args : List Value}
    (hitems : ∀ v ∈ items, s.Has v) (hargs : ∀ v ∈ args, s.Has v) :
    (mapItems ref items args).Safe s fun s vs => ∀ v ∈ vs, s.Has v := by
  refine .of_read ?_
  split
  · exact callForEach_safe hs _ (Store.has_argument hargs 1) href _ nofun hitems
  · exact .of_read (.typeError hs _)

/-- Every method of arrays gives what exists. -/
theorem listMethod_safe (m : ListMethod) {ref : ObjectRef} (href : s.Has (.object ref))
    {items args : List Value} (hitems : ∀ v ∈ items, s.Has v) (hargs : ∀ v ∈ args, s.Has v) :
    (m.run ref items args).Safe s Store.Has := by
  -- what a method puts in the array was in it or is one of its arguments
  have hset {changed : List Value} (hchanged : ∀ v ∈ changed, v ∈ items ∨ v ∈ args) {result : Value}
      (hresult : s.Has result) :
      (do setItems ref changed; return result : Action Value).Safe s Store.Has := by
    refine .bind (setItems_safe hs ref fun v hv => ?_) fun _ s₁ h₁ _ =>
      .pure h₁.sound (hresult.grows h₁)
    exact (hchanged v hv).elim (hitems v) (hargs v)
  cases m with
  | push => exact hset (fun v hv => List.mem_append.mp hv) trivial
  | unshift => exact hset (fun v hv => (List.mem_append.mp hv).symm) trivial
  | pop =>
    -- an array without items gives no item
    refine hset (fun v hv => .inl (List.dropLast_subset _ hv)) ?_
    cases hlast : items.getLast? with
    | none => trivial
    | some v => exact hitems v (List.mem_of_getLast? hlast)
  | shift =>
    refine hset (fun v hv => .inl (List.mem_of_mem_tail hv)) ?_
    cases hfirst : items.head? with
    | none => trivial
    | some v => exact hitems v (List.mem_of_head? hfirst)
  | reverse => exact hset (fun v hv => .inl (List.mem_reverse.mp hv)) href
  | splice =>
    have hrest (start count : Offset) : (do
        setItems ref (start.splice count (args.drop 2) items).2
        makeList (start.splice count (args.drop 2) items).1 : Action Value).Safe s Store.Has := by
      refine .bind (setItems_safe hs ref fun v hv => ?_) fun _ s₁ h₁ _ => .makeList h₁.sound ?_
      · rcases Offset.mem_of_mem_splice.2 hv with hv | hv
        · exact hitems v hv
        · exact hargs v (List.mem_of_mem_drop hv)
      · exact fun v hv => (hitems v (Offset.mem_of_mem_splice.1 hv)).grows h₁
    refine .of_read ?_
    -- without a second argument everything from the start on is removed
    dsimp only
    split
    · exact hrest _ _
    · exact .of_read (hrest _ _)
  | slice =>
    exact .of_read <| .of_read <| .makeList hs fun v hv => hitems v (Offset.mem_of_mem_slice hv)
  | join =>
    have hrest (separator : String) : (do
        return .text (← read (·.join ref items.toArray separator)) : Action Value).Safe s
        Store.Has :=
      .of_read (.pure hs trivial)
    -- the separator is a comma where none is given
    dsimp only [ListMethod.run]
    split
    · exact hrest ","
    · exact .of_read (hrest _)
  | indexOf => exact .of_read (.pure hs trivial)
  | concat =>
    refine .of_read (.makeList hs fun v hv => ?_)
    rcases List.mem_append.mp hv with hv | hv
    · exact hitems v hv
    · obtain ⟨arg, harg, hv⟩ := List.mem_flatMap.mp hv
      exact hs.has_spread (hargs arg harg) v hv
  | forEach =>
    exact .bind (mapItems_safe hs href hitems hargs) fun _ s₁ h₁ _ => .pure h₁.sound trivial
  | map => exact .bind (mapItems_safe hs href hitems hargs) fun _ s₁ h₁ h => .makeList h₁.sound h

/-! ## Methods of strings -/

/-- An array of strings holds no objects. -/
theorem makeTexts_safe (texts : List String) : (makeTexts texts).Safe s Store.Has := by
  refine .makeList hs fun v hv => ?_
  obtain ⟨t, -, rfl⟩ := List.mem_map.mp hv
  trivial

/-- What replaces a text may call a function, and the store grows by what that makes. -/
theorem replacement_safe (pattern : String) (place : Nat) (t : String) (v : Value) :
    (replacement pattern place t v).Safe s fun _ _ => True := by
  refine .of_read ?_
  -- a replacement that is a function is called with what it replaces
  split
  · have hthis : s.Has .undefined := trivial
    have hargs : ∀ v ∈ [Value.text pattern, .number (.ofNat place), .text t], s.Has v := by
      simp only [List.forall_mem_cons]
      exact ⟨trivial, trivial, trivial, nofun⟩
    exact .bind (.call hs v hthis hargs) fun _ s₁ h₁ _ => .read h₁.sound trivial
  · exact .read hs trivial

/-- The text with its replacement is no object. -/
theorem replaceText_safe (pattern t : String) (substitute : Value) :
    (replaceText pattern t substitute).Safe s Store.Has := by
  unfold replaceText
  dsimp only
  -- a text without the pattern stays as it is
  split
  · exact .pure hs trivial
  · exact .bind (replacement_safe hs _ _ _ _) fun _ s₁ h₁ _ => .pure h₁.sound trivial

/-- Every method of strings gives what exists. -/
theorem textMethod_safe (m : TextMethod) (t : String) (args : List Value) :
    (m.run t args).Safe s Store.Has := by
  cases m with
  | split =>
    -- both the pattern and the limit may be left out
    dsimp only [TextMethod.run]
    split
    · rw [pure_bind]
      split
      · exact makeTexts_safe hs _
      · exact .of_read (makeTexts_safe hs _)
    · refine .of_read ?_
      split
      · exact makeTexts_safe hs _
      · exact .of_read (makeTexts_safe hs _)
  | charAt | charCodeAt =>
    refine .of_read ?_
    split <;> exact .pure hs trivial
  | indexOf | slice | substring | substr => exact .of_read (.of_read (.pure hs trivial))
  | concat => exact .of_read (.pure hs trivial)
  | replace => exact .of_read (replaceText_safe hs _ _ _)

/-! ## Native functions -/

/-- The items of an array exist if the array does. -/
theorem spreadArguments_safe (v : Value) :
    (spreadArguments v).Safe s fun s vs => ∀ v ∈ vs, s.Has v := by
  unfold spreadArguments
  -- no list of arguments stands for none
  split
  · exact .pure hs nofun
  · exact .pure hs nofun
  · refine .of_read ?_
    split
    · rename_i items hitems
      exact .pure hs fun v hv => hs.has_items hitems v (Array.mem_toList_iff.mp hv)
    · exact .typeError hs _

/-- A method that is called on what exists gives what exists. -/
theorem runMethod_safe (n : Native) {this : Value} (hthis : s.Has this) {args : List Value}
    (hargs : ∀ v ∈ args, s.Has v) : (runMethod n this args).Safe s Store.Has := by
  unfold runMethod
  -- a method of arrays needs an array, one of strings anything that has a text
  split
  · refine .of_read ?_
    split
    · exact .typeError hs _
    · rename_i items _ hitems
      exact listMethod_safe hs _ hthis
        (fun v hv => hs.has_items hitems v (Array.mem_toList_iff.mp hv)) hargs
    · exact .typeError hs _
  · exact .of_read (.typeError hs _)
  · exact .of_read (.typeError hs _)
  · split
    · exact .of_read (textMethod_safe hs _ _ _)
    · exact .typeError hs _

/-- A text is no object, and making it changes nothing. -/
theorem toText_safe (this base : Value) : (toText this base).Safe s Store.Has := by
  unfold toText
  split
  · rename_i ref
    have hlist : (listText ref).Safe s Store.Has := by
      refine .of_read ?_
      split
      · exact .of_read (.pure hs trivial)
      · exact .typeError hs _
    refine .of_read ?_
    split
    · exact .of_read (.pure hs trivial)
    -- that an object is no array is an error, which is taken up by its other text
    · refine .handle hlist fun r s₁ h₁ hr => ?_
      split
      · exact .pure h₁.sound hr
      · exact .of_read (.pure h₁.sound trivial)
  · exact .of_read (.pure hs trivial)

/-- A native function that is called with what exists gives what exists. -/
theorem runNative_safe (n : Native) {this : Value} (hthis : s.Has this) {args : List Value}
    (hargs : ∀ v ∈ args, s.Has v) : (runNative n this args).Safe s Store.Has := by
  have hfirst : s.Has (argument args 0) := Store.has_argument hargs 0
  cases n with
  | text m | list m => exact runMethod_safe hs _ hthis hargs
  | call => exact .call hs _ hfirst fun v hv => hargs v (List.mem_of_mem_tail hv)
  | apply =>
    exact .bind (spreadArguments_safe hs _) fun _ s₁ h₁ hvs =>
      .call h₁.sound _ (hfirst.grows h₁) hvs
  | parseInt => exact .of_read (.of_read (.pure hs trivial))
  | decodeComponent =>
    refine .of_read ?_
    split
    · exact .pure hs trivial
    · exact .fail hs _ _
  | toText => exact toText_safe hs _ _
  | textOf | fromCharCode | math f | isNaN | isArray | encodeComponent =>
    exact .of_read (.pure hs trivial)

end Action

end Descramble
