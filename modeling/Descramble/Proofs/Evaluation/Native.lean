import Descramble.Proofs.Evaluation.Keeping

/-!
# What leaves scopes alone

Nothing that a native function does, and no reading or writing of a property, touches a scope. They
look things up, make objects, none of them a function with code, change objects without changing
their kind, and call functions. `Action.Scopeless` says that an action is put together from such
steps, so whatever these have in common holds of every native function.

Main statements: `runNative_scopeless`, `getProperty_scopeless`, `setProperty_scopeless` and
`construct_scopeless`; and `Scopeless.keeps`, such actions keep a store well-scoped.
-/

namespace Descramble

/-- Whether an action is put together from steps that leave scopes alone. -/
inductive Action.Scopeless : {α : Type} → Action α → Prop
  | pure {α : Type} (a : α) : Scopeless (pure a)
  | fault {α : Type} (e : Fault) : Scopeless (fault e : Action α)
  | read {α : Type} (f : Store → α) : Scopeless (read f)
  | modify {f : Store → Store} (hf : ∀ name (s : Store), s.WellScoped name → s.Leads name (f s)) :
      Scopeless (modify f)
  | makeObject {o : Object} (ho : ∀ c, o.kind = .function c → ∃ n, c = .native n) :
      Scopeless (makeObject o)
  | call (f this : Value) (args : List Value) : Scopeless (call f this args)
  | bind {α β : Type} {x : Action α} {f : α → Action β} (hx : Scopeless x)
      (hf : ∀ a, Scopeless (f a)) : Scopeless (x >>= f)
  /-- Faults may be taken up only where nothing is asked for. -/
  | handle {α β : Type} {x : Action α} {f : Except Fault α → Action β} (hx : Scopeless x)
      (hdone : ∀ s, ∃ r s', x s = .done r s') (hf : ∀ r, Scopeless (f r)) : Scopeless (handle x f)

namespace Action

namespace Scopeless

variable {α : Type} {x : Action α}

/-- What leaves scopes alone keeps a store well-scoped. -/
theorem keeps (h : x.Scopeless) {name : Name} {bound : Nat} :
    x.Keeps name bound fun _ => True := by
  -- one case for each kind of step an action is put together from
  induction h with
  | pure a => exact .pure trivial
  | fault e => exact .fault e
  | read f => exact .read f
  | modify hf => exact .modify (hf name)
  | makeObject ho =>
    refine .makeObject fun c hc => ?_
    -- native code has no scope it could have been made in
    obtain ⟨n, rfl⟩ := ho c hc
    trivial
  | call f this args => exact .call f this args
  | bind _ _ ihx ihf => exact .bind ihx fun a _ => ihf a
  | handle _ _ _ ihx ihf => exact .handle ihx fun r _ => ihf r

/-- A native function has no code of a script, so it knows no scope. -/
theorem makeNative (n : Native) : (makeNative n).Scopeless :=
  makeObject (by
    rintro _ ⟨⟩
    exact ⟨n, rfl⟩)

/-- An array is no function at all. -/
theorem makeList (items : List Value) : (makeList items).Scopeless :=
  makeObject nofun

/-- A plain object is no function at all, whatever its parent. -/
theorem makePlain {properties : Bindings} {parent : Option ObjectRef} :
    (Action.makeObject ⟨.plain, properties, parent⟩).Scopeless :=
  makeObject nofun

/-- An error is thrown as a plain object made for it. -/
theorem fail (kind message : String) : (fail kind message : Action α).Scopeless :=
  bind makePlain fun _ => fault _

/-- The same for the error whose kind is fixed. -/
theorem typeError (message : String) : (typeError message : Action α).Scopeless :=
  fail _ message

end Scopeless

/-! ## Access -/

/-- A method is made as a native function where it exists. -/
theorem makeMethod_scopeless (n : Option Native) :
    (makeMethod n).Scopeless := by
  cases n with
  | none => exact .pure _
  | some n => exact .makeNative n

/-- A property of a string is its length, a character or a method. -/
theorem getOfText_scopeless (t key : String) : (getOfText t key).Scopeless := by
  unfold getOfText
  -- the length comes first, then characters by their index, then methods
  split
  · exact .pure _
  · split
    · split <;> exact .pure _
    · exact makeMethod_scopeless _

/-- A property of an object may have to be made, but with no scope in it. -/
theorem getOfObject_scopeless (ref : ObjectRef) (key : String) :
    (getOfObject ref key).Scopeless := by
  refine .bind (.read _) fun o => ?_
  -- own properties come first, then methods of the kind, the prototype and what is inherited
  split
  · exact .pure _
  · split
    · exact .makeNative _
    · split
      -- the prototype of a function is made when it is first asked for, and is kept
      · refine .bind .makePlain fun prototype => ?_
        exact .bind (.modify fun _ s hs => hs.leads_setOwn ref key prototype) fun _ => .pure _
      · split
        · exact .bind (.read _) fun _ => .pure _
        · exact .pure _

/-- Whatever property of whatever value is asked for. -/
theorem getProperty_scopeless (target : Value) (key : String) :
    (getProperty target key).Scopeless := by
  cases target with
  | undefined | null => exact .bind (.read _) fun _ => .typeError _
  | text t => exact getOfText_scopeless t key
  | number _ | flag _ => exact makeMethod_scopeless _
  | object ref => exact getOfObject_scopeless ref key

/-- Whatever property of whatever value is written, and whether it is taken or not. -/
theorem setProperty_scopeless (target : Value) (key : String) (value : Value) :
    (setProperty target key value).Scopeless := by
  cases target with
  | object ref =>
    refine .bind (.read _) fun rejected => ?_
    -- only the length of an array can be rejected, or have to be read while it is written
    split
    · exact .fail _ _
    · refine .bind (.read _) fun conflicts => ?_
      split
      · exact .fault _
      · exact .modify fun _ s hs => hs.leads_setOwn ref key value
  | undefined | null => exact .bind (.read _) fun _ => .typeError _
  | text _ | number _ | flag _ => exact .pure _

/-- A variable is read where it is found, which changes nothing. -/
theorem getVariable_scopeless (c : Context) (other : Name) :
    (getVariable c other).Scopeless := by
  refine .bind (.read _) fun v => ?_
  cases v with
  | none => exact .fail _ _
  | some v => exact .pure _

/-- What stands at a place is read through the scope or through the object that the place names. -/
theorem getPlace_scopeless (c : Context) (place : Place) :
    (getPlace c place).Scopeless := by
  cases place with
  | «variable» other => exact getVariable_scopeless c other
  | property target key => exact getProperty_scopeless target key

/-- Whether a value is an instance is looked up along its parents. -/
theorem isInstance_scopeless (value function : Value) :
    (isInstance value function).Scopeless := by
  refine .bind (.read _) fun callable => ?_
  -- only a function has instances, and only objects can be such
  split
  · refine .bind (getProperty_scopeless _ _) fun prototype => ?_
    split
    · exact .read _
    · exact .pure _
  · exact .typeError _

/-- Whether an object has a property is looked up along its parents. -/
theorem hasProperty_scopeless (key object : Value) :
    (hasProperty key object).Scopeless := by
  refine .bind (.read _) fun property => ?_
  cases object with
  | object ref => exact .bind (.read _) fun _ => .pure _
  | _ => exact .bind (.read _) fun _ => .typeError _

/-- The object a constructor is given is a plain one. -/
theorem construct_scopeless (f : Value) (args : List Value) :
    (construct f args).Scopeless := by
  refine .bind (.read _) fun callable => ?_
  -- what is no function cannot be constructed with
  split
  · refine .bind (getProperty_scopeless _ _) fun prototype => ?_
    refine .bind .makePlain fun made => ?_
    refine .bind (.call _ _ _) fun result => ?_
    -- an object that the constructor gives back replaces the one that was made
    split <;> exact .pure _
  · exact .bind (.read _) fun _ => .typeError _

/-! ## Operators -/

/-- Operators read what they need of their operands. -/
theorem binary_scopeless (op : BinaryOp) (left right : Value) :
    (binary op left right).Scopeless := by
  cases op with
  | arithmetic op => exact .read _
  | comparison op => exact .bind (.read _) fun _ => .pure _
  | hasKey => exact .bind (hasProperty_scopeless _ _) fun _ => .pure _
  | instanceOf => exact .bind (isInstance_scopeless _ _) fun _ => .pure _

/-- The same for operators on one operand. -/
theorem unary_scopeless (op : UnaryOp) (v : Value) :
    (unary op v).Scopeless := by
  cases op with
  | not | void | delete => exact .pure _
  | negate | plus | bitNot | typeOf => exact .bind (.read _) fun _ => .pure _

/-- Properties can be deleted, variables cannot. -/
theorem erasePlace_scopeless (place : Place) :
    (erasePlace place).Scopeless := by
  unfold erasePlace
  -- an object that loses a property is of the same kind as before
  split
  · exact .modify fun _ s hs => hs.leads_modifyObject _ fun o => o.shape_erase _
  · exact .pure _

/-- A key that is computed is made a text first. -/
theorem getIndex_scopeless (target key : Value) :
    (getIndex target key).Scopeless :=
  .bind (.read _) fun _ => getProperty_scopeless _ _

/-- Only a function is called, and what else is called gives an error. -/
theorem callValue_scopeless (callee : Expr) (f this : Value) (args : List Value) :
    (callValue callee f this args).Scopeless := by
  refine .bind (.read _) fun callable => ?_
  split
  · exact .call _ _ _
  · exact .typeError _

/-! ## Methods of arrays -/

/-- An array that is given other items is still an array. -/
theorem setItems_scopeless (ref : ObjectRef) (items : List Value) :
    (setItems ref items).Scopeless :=
  .modify fun _ _ hs => hs.leads_modifyObject ref fun o => o.shape_withItems items

/-- The calls for the items of an array come one after the other. -/
theorem callForEach_scopeless (f this : Value) (ref : ObjectRef) (place : Nat)
    (results items : List Value) :
    (callForEach f this ref place results items).Scopeless := by
  -- on the items that are left, whatever was computed from those before
  induction items generalizing place results with
  | nil => exact .pure _
  | cons item rest ih => exact .bind (.call _ _ _) fun v => ih _ _

/-- What is to be called for each item has to be a function. -/
theorem mapItems_scopeless (ref : ObjectRef) (items args : List Value) :
    (mapItems ref items args).Scopeless := by
  refine .bind (.read _) fun callable => ?_
  split
  · exact callForEach_scopeless _ _ _ _ _ _
  · exact .bind (.read _) fun _ => .typeError _

/-- Every method of arrays, whatever it is given. -/
theorem listMethod_scopeless (m : ListMethod) (ref : ObjectRef) (items args : List Value) :
    (m.run ref items args).Scopeless := by
  cases m with
  -- the five that change the array in place differ only in what they put there
  | push | pop | shift | unshift | reverse =>
    exact .bind (setItems_scopeless _ _) fun _ => .pure _
  | splice =>
    refine .bind (.read _) fun start => ?_
    have hrest : ∀ removed left, (do setItems ref left; makeList removed : Action Value).Scopeless :=
      fun _ _ => .bind (setItems_scopeless _ _) fun _ => .makeList _
    -- without a second argument everything from the start on is removed
    dsimp only
    split
    · exact hrest _ _
    · exact .bind (.read _) fun _ => hrest _ _
  | slice => exact .bind (.read _) fun _ => .bind (.read _) fun _ => .makeList _
  | join =>
    have hrest : ∀ separator, (do
        return .text (← read (·.join ref items.toArray separator)) : Action Value).Scopeless :=
      fun _ => .bind (.read _) fun _ => .pure _
    -- the separator is a comma where none is given
    dsimp only [ListMethod.run]
    split
    · exact hrest ","
    · exact .bind (.read _) fun _ => hrest _
  | indexOf => exact .bind (.read _) fun _ => .pure _
  | concat => exact .bind (.read _) fun _ => .makeList _
  | forEach => exact .bind (mapItems_scopeless _ _ _) fun _ => .pure _
  | map => exact .bind (mapItems_scopeless _ _ _) fun _ => .makeList _

/-! ## Methods of strings -/

/-- Texts are made an array of strings. -/
theorem makeTexts_scopeless (texts : List String) :
    (makeTexts texts).Scopeless :=
  .makeList _

/-- What replaces a text is given, or what a function returns for it. -/
theorem replacement_scopeless (pattern : String) (place : Nat) (t : String) (v : Value) :
    (replacement pattern place t v).Scopeless := by
  refine .bind (.read _) fun callable => ?_
  -- a replacement that is a function is called with what it replaces
  split
  · exact .bind (.call _ _ _) fun _ => .read _
  · exact .read _

/-- The first place where the pattern is found is the only one replaced. -/
theorem replaceText_scopeless (pattern t : String) (substitute : Value) :
    (replaceText pattern t substitute).Scopeless := by
  unfold replaceText
  dsimp only
  -- a text without the pattern stays as it is
  split
  · exact .pure _
  · exact .bind (replacement_scopeless _ _ _ _) fun _ => .pure _

/-- Every method of strings, whatever it is given. -/
theorem textMethod_scopeless (m : TextMethod) (t : String) (args : List Value) :
    (m.run t args).Scopeless := by
  cases m with
  | split =>
    -- both the pattern and the limit may be left out
    dsimp only [TextMethod.run]
    split <;>
      (refine .bind (by first | exact .pure _ | exact .read _) fun found => ?_
       split
       · exact makeTexts_scopeless _
       · exact .bind (.read _) fun _ => makeTexts_scopeless _)
  | charAt | charCodeAt =>
    refine .bind (.read _) fun place => ?_
    split <;> exact .pure _
  | indexOf => exact .bind (.read _) fun _ => .bind (.read _) fun _ => .pure _
  | slice | substring | substr =>
    exact .bind (.read _) fun _ => .bind (.read _) fun _ => .pure _
  | concat => exact .bind (.read _) fun _ => .pure _
  | replace => exact .bind (.read _) fun _ => replaceText_scopeless _ _ _

/-! ## Native functions -/

/-- The items of an array are read to be arguments. -/
theorem spreadArguments_scopeless (v : Value) :
    (spreadArguments v).Scopeless := by
  unfold spreadArguments
  -- no list of arguments stands for none
  split
  · exact .pure _
  · exact .pure _
  · refine .bind (.read _) fun items => ?_
    split
    · exact .pure _
    · exact .typeError _

/-- A method checks what it is called on before it does anything. -/
theorem runMethod_scopeless (n : Native) (this : Value) (args : List Value) :
    (runMethod n this args).Scopeless := by
  unfold runMethod
  -- a method of arrays needs an array, one of strings anything that has a text
  split
  · refine .bind (.read _) fun items => ?_
    split
    · exact .typeError _
    · exact listMethod_scopeless _ _ _ _
    · exact .typeError _
  · exact .bind (.read _) fun _ => .typeError _
  · exact .bind (.read _) fun _ => .typeError _
  · split
    · exact .bind (.read _) fun _ => textMethod_scopeless _ _ _
    · exact .typeError _

/-- The text of an array reads its items. -/
theorem listText_scopeless (ref : ObjectRef) : (listText ref).Scopeless := by
  refine .bind (.read _) fun items => ?_
  split
  · exact .bind (.read _) fun _ => .pure _
  · exact .typeError _

/-- Looking up the text of an array asks for nothing. -/
theorem exists_listText_eq_done (ref : ObjectRef) (s : Store) :
    ∃ r s', listText ref s = .done r s' := by
  unfold listText
  rw [read_bind]
  cases s.items? (.object ref) with
  | none => exact ⟨_, _, rfl⟩
  | some items => exact ⟨_, _, rfl⟩

/-- Any value can be made a text by the method for it. -/
theorem toText_scopeless (this base : Value) : (toText this base).Scopeless := by
  cases this with
  | object ref =>
    refine .bind (.read _) fun callable => ?_
    -- the error of an object that is no array is taken up, which has asked for nothing before
    split
    · exact .bind (.read _) fun _ => .pure _
    · refine .handle (listText_scopeless ref) (exists_listText_eq_done ref) fun r => ?_
      cases r with
      | ok t => exact .pure _
      | error e => exact .bind (.read _) fun _ => .pure _
  | _ => exact .bind (.read _) fun _ => .pure _

/-- A native function leaves scopes alone, whatever it is called on and with. -/
theorem runNative_scopeless (n : Native) (this : Value) (args : List Value) :
    (runNative n this args).Scopeless := by
  cases n with
  -- methods by their own lemmas; of the others only some call or throw
  | text m | list m => exact runMethod_scopeless _ _ _
  | toText => exact toText_scopeless _ _
  | call => exact .call _ _ _
  | apply => exact .bind (spreadArguments_scopeless _) fun _ => .call _ _ _
  | parseInt => exact .bind (.read _) fun _ => .bind (.read _) fun _ => .pure _
  | decodeComponent =>
    refine .bind (.read _) fun t => ?_
    split
    · exact .pure _
    · exact .fail _ _
  | textOf | fromCharCode | math f | isNaN | isArray | encodeComponent =>
    exact .bind (.read _) fun _ => .pure _

end Action

end Descramble
