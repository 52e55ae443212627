import Descramble.Proofs.Evaluation.Doing
import Descramble.Proofs.Value.Growth

/-!
# Actions that keep a store well-scoped

`Action.Keeps` says of an action that it keeps every store well-scoped that has scopes enough, and
that its value, if it has one, is as it should be. The answer to a request may be anything that
`Request.Allows`, in any later store. So an action keeps well-scoped whatever its requests do, and
the rules below put such facts together along `>>=`.

Main statements: `Keeps.bind` and `Keeps.bind_makeScope`, and one rule for each elementary action.
-/

namespace Descramble

/-- Whether a way to end is among those that some jumps lead to. -/
def Completion.Within (jumps : List Jump) : Completion → Prop
  | .normal => True
  | .gaveBack _ => .giveBack ∈ jumps
  | .broke => .breakOut ∈ jumps
  | .continued => .continueLoop ∈ jumps

/-- More jumps allow for more ways to end. -/
theorem Completion.Within.mono {jumps jumps' : List Jump} {c : Completion} (h : c.Within jumps)
    (hsub : jumps ⊆ jumps') : c.Within jumps' := by
  cases c with
  | normal => trivial
  | gaveBack v => exact hsub h
  | broke => exact hsub h
  | continued => exact hsub h

/-- The jumps that lead out of a loop with a body. -/
def Loop.jumps (l : Loop) : List Jump :=
  l.body.jumps.filter (· = .giveBack)

/-- Whether a loop can run where there are `bound` scopes. -/
structure Loop.Fits (name : Name) (bound : Nat) (l : Loop) : Prop where
  scope_lt : l.context.scope.index < bound
  test : ∀ e ∈ l.test, Part.Everywhere (Part.Spares name) (.expr e)
  step : ∀ e ∈ l.step, Part.Everywhere (Part.Spares name) (.expr e)
  body : Part.Everywhere (Part.Spares name) (.stmt l.body)

namespace Request

/-- Whether a request can be carried out where there are `bound` scopes. -/
def Fits (name : Name) (bound : Nat) : Request → Prop
  | .call f _ _ => f.Fits name bound
  | .loop l => l.Fits name bound

/-- How a request may end: a call in any way, a loop as its body leads out of it. -/
def Allows : Request → Completion → Prop
  | .call _ _ _, _ => True
  | .loop l, c => c.Within l.jumps

/-- A request that can be carried out can be carried out where there are more scopes. -/
theorem Fits.mono {name : Name} {bound bound' : Nat} {req : Request} (h : req.Fits name bound)
    (hle : bound ≤ bound') : req.Fits name bound' := by
  cases req with
  | call f this args => exact Callable.Fits.mono h hle
  | loop l => exact { h with scope_lt := Nat.lt_of_lt_of_le h.scope_lt hle }

end Request

/-- Whether a step, as part of a run from a store on, keeps the store well-scoped, and its value is
    as it should be. -/
def Step.Meets {α : Type} (name : Name) (first : Store) (post : α → Prop) : Step α → Prop
  | .done r s => first.Leads name s ∧ ∀ a, r = .ok a → post a
  | .ask req s resume =>
    first.Leads name s ∧ req.Fits name s.scopes.size ∧
      ∀ answer s', s.Leads name s' → (∀ c, answer = .ok c → req.Allows c) →
        (resume answer s').Meets name first post

namespace Step.Meets

variable {α β : Type} {name : Name} {first first' : Store} {p q : α → Prop} {x : Step α}

/-- What a step keeps it keeps as part of a run that began before. -/
theorem of_leads (h : x.Meets name first p) (hleads : first'.Leads name first)
    (hpost : ∀ a, p a → q a) : x.Meets name first' q := by
  -- on how the step goes on: it ends, or every answer to its request is followed
  induction x with
  | done r s => exact ⟨hleads.trans h.1, fun a ha => hpost a (h.2 a ha)⟩
  | ask req s resume ih =>
    exact ⟨hleads.trans h.1, h.2.1, fun answer s' hs hanswer =>
      ih answer s' (h.2.2 answer s' hs hanswer)⟩

/-- What is done with the result of a step keeps the store well-scoped if both do. -/
theorem followedBy {q : β → Prop} {f : Except Fault α → Store → Step β}
    (h : x.Meets name first p)
    (hf : ∀ r s, first.Leads name s → (∀ a, r = .ok a → p a) → (f r s).Meets name first q) :
    (x.followedBy f).Meets name first q := by
  induction x with
  | done r s => exact hf r s h.1 h.2
  -- the request is that of the step, and what follows waits for its answer
  | ask req s resume ih =>
    exact ⟨h.1, h.2.1, fun answer s' hs hanswer => ih answer s' (h.2.2 answer s' hs hanswer)⟩

end Step.Meets

/-- Whether an action keeps every store well-scoped that has at least `bound` scopes. -/
def Action.Keeps {α : Type} (name : Name) (bound : Nat) (post : α → Prop) (x : Action α) : Prop :=
  ∀ s : Store, s.WellScoped name → bound ≤ s.scopes.size → (x s).Meets name s post

namespace Action

variable {α β : Type} {name : Name} {bound : Nat} {p : α → Prop} {q : β → Prop} {x : Action α}

namespace Keeps

/-- A weaker condition on the value. -/
theorem mono (h : x.Keeps name bound p) {p' : α → Prop} (hpost : ∀ a, p a → p' a) :
    x.Keeps name bound p' :=
  fun s hs hbound => (h s hs hbound).of_leads hs.leads hpost

/-- No condition on the value. -/
theorem any (h : x.Keeps name bound p) : x.Keeps name bound fun _ => True :=
  h.mono fun _ _ => trivial

/-- More scopes than are needed. -/
theorem of_le (h : x.Keeps name bound p) {bound' : Nat} (hle : bound ≤ bound') :
    x.Keeps name bound' p :=
  fun s hs hbound => h s hs (Nat.le_trans hle hbound)

/-- A value is given and the store is left alone. -/
theorem pure {a : α} (h : p a) : (pure a : Action α).Keeps name bound p := by
  intro s hs _
  refine ⟨hs.leads, ?_⟩
  rintro b ⟨⟩
  exact h

/-- A fault gives no value. -/
theorem fault (e : Fault) : (fault e : Action α).Keeps name bound p :=
  fun _ hs _ => ⟨hs.leads, nofun⟩

/-- Reading leaves the store alone. -/
theorem read (f : Store → α) : (read f).Keeps name bound fun _ => True :=
  fun _ hs _ => ⟨hs.leads, fun _ _ => trivial⟩

/-- What goes on with the result of an action may count on a value, if there is one. -/
theorem handle {f : Except Fault α → Action β} (hx : x.Keeps name bound p)
    (hf : ∀ r, (∀ a, r = .ok a → p a) → (f r).Keeps name bound q) :
    (handle x f).Keeps name bound q := by
  intro s hs hbound
  refine (hx s hs hbound).followedBy fun r s' hleads hr => ?_
  -- the store has been kept well-scoped, and no scope has gone
  have hmeets := hf r hr s' hleads.wellScoped (Nat.le_trans hbound hleads.scopes_le)
  exact hmeets.of_leads hleads fun _ h => h

/-- One action after another, which may count on the value of the first. -/
theorem bind {f : α → Action β} (hx : x.Keeps name bound p)
    (hf : ∀ a, p a → (f a).Keeps name bound q) : (x >>= f).Keeps name bound q := by
  rw [bind_eq_handle]
  refine hx.handle fun r hr => ?_
  -- a fault skips what comes after
  cases r with
  | error e => exact fault e
  | ok a => exact hf a (hr a rfl)

/-- A result that is taken up again. -/
theorem resolve {r : Except Fault α} (h : ∀ a, r = .ok a → p a) :
    (resolve r).Keeps name bound p := by
  cases r with
  | ok a => exact pure (h a rfl)
  | error e => exact fault e

/-- A change of the store that keeps it well-scoped. -/
theorem modify {f : Store → Store}
    (h : ∀ s : Store, s.WellScoped name → s.Leads name (f s)) :
    (modify f).Keeps name bound fun _ => True :=
  fun s hs _ => ⟨h s hs, fun _ _ => trivial⟩

/-- An object that is made; a function has to fit. -/
theorem makeObject {o : Object} (ho : ∀ c, o.kind = .function c → c.Fits name bound) :
    (makeObject o).Keeps name bound fun _ => True :=
  fun _ hs hbound => ⟨hs.leads_addObject fun c hc => (ho c hc).mono hbound, fun _ _ => trivial⟩

/-- A plain object is no function. -/
theorem makePlain {properties : Bindings} {parent : Option ObjectRef} :
    (Action.makeObject ⟨.plain, properties, parent⟩).Keeps name bound fun _ => True :=
  makeObject nofun

/-- An array is no function. -/
theorem makeList (items : List Value) : (makeList items).Keeps name bound fun _ => True :=
  makeObject nofun

/-- What goes on in a new scope may count on it. -/
theorem bind_makeScope {outer : ScopeRef} {f : ScopeRef → Action β} (houter : outer.index < bound)
    (hf : ∀ ref : ScopeRef, bound ≤ ref.index → (f ref).Keeps name (ref.index + 1) q) :
    (makeScope outer >>= f).Keeps name bound q := by
  intro s hs hbound
  have hleads := hs.leads_addScope (Nat.lt_of_lt_of_le houter hbound)
  -- the new scope comes after all that there were
  have hmeets := hf ⟨s.scopes.size⟩ hbound _ hleads.wellScoped (by simp [Store.addScope])
  exact hmeets.of_leads hleads fun _ h => h

/-- The same for the scope of a block, in the context of the block. -/
theorem bind_makeBlock {c : Context} {f : Context → Action β} (hc : c.scope.index < bound)
    (hf : ∀ ref : ScopeRef, bound ≤ ref.index →
      (f { c with scope := ref }).Keeps name (ref.index + 1) q) :
    (makeBlock c >>= f).Keeps name bound q := by
  unfold makeBlock
  rw [bind_assoc]
  exact bind_makeScope hc hf

/-- A request is answered as it allows, in a store that has been kept well-scoped. -/
theorem request {r : Request} (h : r.Fits name bound) :
    (request r).Keeps name bound r.Allows := by
  intro s hs hbound
  exact ⟨hs.leads, h.mono hbound, fun answer s' hleads hanswer => ⟨hleads, hanswer⟩⟩

/-- An error that is thrown is an object made for it. -/
theorem fail (kind message : String) : (fail kind message : Action α).Keeps name bound p :=
  bind (makeObject nofun) fun _ _ => fault _

/-- The same for the error whose kind is fixed. -/
theorem typeError (message : String) : (typeError message : Action α).Keeps name bound p :=
  fail _ message

/-- A call keeps a store well-scoped, whether or not a function is called. -/
theorem call (f this : Value) (args : List Value) :
    (call f this args).Keeps name bound fun _ => True := by
  intro s hs hbound
  unfold Action.call
  rw [read_bind]
  cases hc : s.callable? f with
  | some c =>
    obtain ⟨ref, -, hkind⟩ := Store.callable?_eq_some_iff.mp hc
    -- a function that can be found in a well-scoped store fits
    have hcall : (Action.request (.call c this args)).Keeps name s.scopes.size fun _ => True :=
      (request (r := .call c this args) (hs.code ref c hkind)).any
    exact hcall.bind (fun c _ => pure trivial) s hs (Nat.le_refl _)
  | none =>
    have hfail (message : String) :
        (Action.typeError message : Action Value).Keeps name bound fun _ => True :=
      typeError message
    cases f with
    | object ref => exact hfail _ s hs hbound
    | _ => exact (read _).bind (fun _ _ => hfail _) s hs hbound

end Keeps

end Action

end Descramble
