import Descramble.Proofs.Evaluation.Ending
import Descramble.Proofs.Value.Change

/-!
# Safe actions

An action that works with what exists in a store leads to stores that the first one grows to, and
what it ends in exists there. `Action.Safe` says this up to the end of an action, whatever the
answers to its requests are, as long as they exist too and the store in between has only grown.

Main statements: `Safe.handle` and `Safe.bind`, safe actions one after the other are safe, and one
rule for each elementary action.
-/

namespace Descramble

namespace Store

/-- Whether a store has the scope and the `this` of a context. -/
structure HasContext (s : Store) (c : Context) : Prop where
  scope_lt : c.scope.index < s.scopes.size
  this : s.Has c.this

/-- A sound store in which a context exists, so that scripts can run in it. -/
structure Hosts (s : Store) (c : Context) : Prop extends s.HasContext c where
  sound : s.Sound

/-- Whether a store has the value that a piece of script gives back, if it gives one back. -/
def HasCompletion (s : Store) : Completion → Prop
  | .gaveBack v => s.Has v
  | _ => True

/-- Whether a store has all that a request is about. -/
def HasRequest (s : Store) : Request → Prop
  | .call f this args => s.HasCallable f ∧ s.Has this ∧ ∀ v ∈ args, s.Has v
  | .loop l => s.HasContext l.context

/-- What was thrown exists, and anything else is as it should be. -/
def HasResult {α : Type} (s : Store) (post : Store → α → Prop) : Except Fault α → Prop
  | .ok a => post s a
  | .error (.thrown v) => s.Has v
  | .error (.fatal _) => True

variable {s s' : Store} {c : Context}

/-- A context exists in later stores too. -/
theorem HasContext.grows (hc : s.HasContext c) (h : s.Grows s') : s'.HasContext c :=
  ⟨Nat.lt_of_lt_of_le hc.scope_lt h.sizeLe.scopes, hc.this.grows h⟩

/-- What hosts a context goes on hosting it. -/
theorem Hosts.grows (hc : s.Hosts c) (h : s.Grows s') : s'.Hosts c :=
  ⟨hc.toHasContext.grows h, h.sound⟩

/-- Any scope of a store can take the place of the one of a context. -/
theorem Hosts.withScope (hc : s.Hosts c) {ref : ScopeRef} (h : ref.index < s.scopes.size) :
    s.Hosts { c with scope := ref } :=
  ⟨⟨h, hc.this⟩, hc.sound⟩

/-- The value of a call exists, also where the function gave none back. -/
theorem HasCompletion.value {completion : Completion} (h : s.HasCompletion completion) :
    s.Has completion.value := by
  -- without a value given back it is `undefined`
  cases completion with
  | gaveBack v => exact h
  | _ => trivial

/-- How a piece of script ended exists in later stores too. -/
theorem HasCompletion.grows {completion : Completion} (h : s.HasCompletion completion)
    (hgrows : s.Grows s') : s'.HasCompletion completion := by
  cases completion with
  | gaveBack v => exact Has.grows h hgrows
  | _ => trivial

/-- How a piece of script ended exists in later stores too. -/
theorem HasResult.grows {r : Except Fault Completion} (h : s.HasResult HasCompletion r)
    (hgrows : s.Grows s') : s'.HasResult HasCompletion r := by
  rcases r with (v | why) | completion
  · exact Has.grows h hgrows
  · trivial
  · exact HasCompletion.grows h hgrows

end Store

/-! ## Safe steps -/

/-- Whether a step of a run, begun in some store, works with what exists. -/
def Step.Safe {α : Type} (post : Store → α → Prop) : Store → Step α → Prop
  | first, .done r s => first.Grows s ∧ s.HasResult post r
  | first, .ask req s resume =>
    first.Grows s ∧ s.HasRequest req ∧
      ∀ answer s', s.Grows s' → s'.HasResult Store.HasCompletion answer →
        Step.Safe post s' (resume answer s')

namespace Step.Safe

variable {α β : Type} {first first' : Store} {p q : Store → α → Prop} {x : Step α}

/-- A step that is part of a run which began before is safe in it. -/
theorem of_grows (h : Step.Safe p first x) (hgrows : first'.Grows first) :
    Step.Safe p first' x := by
  cases x with
  | done r s => exact ⟨hgrows.trans h.1, h.2⟩
  | ask req s resume => exact ⟨hgrows.trans h.1, h.2⟩

/-- A safe step may be followed by what is safe from each of its ends on. -/
theorem followedBy {q : Store → β → Prop} {f : Except Fault α → Store → Step β}
    (h : Step.Safe p first x)
    (hf : ∀ r s, first.Grows s → s.HasResult p r → Step.Safe q s (f r s)) :
    Step.Safe q first (x.followedBy f) := by
  -- each answer begins anew, in the store that it comes with
  induction x generalizing first with
  | done r s => exact (hf r s h.1 h.2).of_grows h.1
  | ask req s resume ih =>
    refine ⟨h.1, h.2.1, fun answer s' hgrows hanswer => ?_⟩
    exact ih answer s' (h.2.2 answer s' hgrows hanswer) fun r s'' hlast hr =>
      hf r s'' (h.1.trans (hgrows.trans hlast)) hr

end Step.Safe

/-- Whether an action is safe from a store on. -/
def Action.Safe {α : Type} (x : Action α) (s : Store) (post : Store → α → Prop) : Prop :=
  Step.Safe post s (x s)

namespace Action

namespace Safe

variable {α β : Type} {s : Store} {c : Context} {p : Store → α → Prop} {q : Store → β → Prop}
  {x : Action α}

/-- A value that exists. -/
theorem pure (hs : s.Sound) {a : α} (h : p s a) : (pure a : Action α).Safe s p :=
  ⟨hs.grows, h⟩

/-- A value that exists may be thrown. -/
theorem raise (hs : s.Sound) {v : Value} (hv : s.Has v) : (raise v : Action α).Safe s p :=
  ⟨hs.grows, hv⟩

/-- A run may come to nothing wherever it stands. -/
theorem fatal (hs : s.Sound) (why : Fatal) : (fault (.fatal why) : Action α).Safe s p :=
  ⟨hs.grows, trivial⟩

/-- A result that is as it should be may be ended in. -/
theorem resolve (hs : s.Sound) {r : Except Fault α} (h : s.HasResult p r) :
    (resolve r).Safe s p := by
  -- what was thrown, a run that has come to nothing, or a value
  rcases r with (v | why) | a
  · exact raise hs h
  · exact fatal hs why
  · exact pure hs h

/-- Whatever is read of a store. -/
theorem read (hs : s.Sound) {f : Store → α} (h : p s (f s)) : (read f).Safe s p :=
  ⟨hs.grows, h⟩

/-- What follows a reading goes on with what the store says. -/
theorem of_read {f : Store → α} {g : α → Action β} (h : (g (f s)).Safe s q) :
    (Action.read f >>= g).Safe s q :=
  h

/-- A change that a sound store may undergo. -/
theorem modify {f : Store → Store} (h : s.Grows (f s)) :
    (modify f).Safe s fun _ _ => True :=
  ⟨h, trivial⟩

/-- Whatever a safe action ends in, one that goes on from there has to be safe too. -/
theorem handle {f : Except Fault α → Action β} (hx : x.Safe s p)
    (hf : ∀ r s', s.Grows s' → s'.HasResult p r → (f r).Safe s' q) : (x.handle f).Safe s q :=
  Step.Safe.followedBy hx hf

/-- One safe action after another. -/
theorem bind {f : α → Action β} (hx : x.Safe s p)
    (hf : ∀ a s', s.Grows s' → p s' a → (f a).Safe s' q) : (x >>= f).Safe s q := by
  rw [bind_eq_handle]
  refine handle hx fun r s' hgrows hr => ?_
  -- a fault leaves out what comes after it
  rcases r with (v | why) | a
  · exact raise hgrows.sound hr
  · exact fatal hgrows.sound why
  · exact hf a s' hgrows hr

/-- What is known of the value may be said in a weaker form. -/
theorem imp (h : x.Safe s p) {p' : Store → α → Prop}
    (hpost : ∀ s' a, s.Grows s' → p s' a → p' s' a) : x.Safe s p' := by
  -- the value is given once more, now with the weaker condition
  have hbind : (x >>= Pure.pure).Safe s p' :=
    h.bind fun a s' hgrows ha => pure hgrows.sound (hpost s' a hgrows ha)
  rwa [bind_pure] at hbind

/-- An object that is made out of what exists. -/
theorem makeObject (hs : s.Sound) {o : Object} (ho : s.HasContents o)
    (hparent : ∀ parent ∈ o.parent, parent.index < s.objects.size) :
    (makeObject o).Safe s Store.Has :=
  ⟨hs.grows_addObject ho hparent, s.has_addObject o⟩

/-- An array of values that exist. -/
theorem makeList (hs : s.Sound) {items : List Value} (hitems : ∀ v ∈ items, s.Has v) :
    (makeList items).Safe s Store.Has :=
  makeObject hs ⟨fun v hv => hitems v (List.mem_toArray.mp hv), Store.hasBindings_empty⟩ nofun

/-- A function made in a scope that exists. -/
theorem makeFunction (hs : s.Sound) {f : Callable} (hf : s.HasCallable f) :
    (Action.makeObject (.function f)).Safe s Store.Has :=
  makeObject hs ⟨hf, Store.hasBindings_empty⟩ nofun

/-- A native function is made out of nothing. -/
theorem makeNative (hs : s.Sound) (n : Native) : (makeNative n).Safe s Store.Has :=
  makeFunction hs trivial

/-- A new scope exists. -/
theorem makeScope (hs : s.Sound) {outer : ScopeRef} (h : outer.index < s.scopes.size) :
    (makeScope outer).Safe s fun s ref => ref.index < s.scopes.size :=
  ⟨hs.grows_addScope h, s.lt_size_addScope outer⟩

/-- A block has a scope of its own, made in that of the context. -/
theorem makeBlock (hc : s.Hosts c) : (makeBlock c).Safe s Store.Hosts :=
  (makeScope hc.sound hc.scope_lt).bind fun _ _ hgrows href =>
    pure hgrows.sound ((hc.grows hgrows).withScope href)

/-- A request about what exists, answered with what exists. -/
theorem request (hs : s.Sound) {r : Request} (h : s.HasRequest r) :
    (request r).Safe s Store.HasCompletion :=
  -- nothing is done with the answer, so it is safe where it comes
  ⟨hs.grows, h, fun _ _ hgrows hanswer => ⟨hgrows.sound.grows, hanswer⟩⟩

/-- An error is thrown as an object made of two texts. -/
theorem fail (hs : s.Sound) (kind message : String) : (fail kind message : Action α).Safe s p := by
  have hname : s.HasBindings (Bindings.empty.insert "name" (.text kind)) :=
    Store.hasBindings_empty.insert _ (v := .text kind) trivial
  have hboth := hname.insert "message" (v := .text message) trivial
  have hmade := makeObject (o := ⟨.plain, _, none⟩) hs ⟨trivial, hboth⟩ nofun
  exact hmade.bind fun v s' hgrows hv => raise hgrows.sound hv

/-- The same for the error whose kind is fixed. -/
theorem typeError (hs : s.Sound) (message : String) : (typeError message : Action α).Safe s p :=
  fail hs _ message

/-- A call on and with what exists. -/
theorem call (hs : s.Sound) (f : Value) {this : Value} (hthis : s.Has this) {args : List Value}
    (hargs : ∀ v ∈ args, s.Has v) : (call f this args).Safe s Store.Has := by
  refine of_read ?_
  -- what cannot be called is told apart only for the message of the error
  cases hc : s.callable? f with
  | some callable =>
    have hrequest : s.HasRequest (.call callable this args) := ⟨hs.has_callable hc, hthis, hargs⟩
    exact (request hs hrequest).bind fun completion s' hgrows h => pure hgrows.sound h.value
  | none =>
    cases f with
    | object ref => exact typeError hs _
    | _ => exact of_read (typeError hs _)

end Safe

end Action

end Descramble
