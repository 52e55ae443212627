import Descramble.Proofs.Evaluation.Ending
import Descramble.Proofs.Evaluation.SafeScript

/-!
# Reachable stores

A host begins with a fresh store and makes values, provides them to scripts, runs programs and calls
functions, in any order. However a script then rewires its objects, no chain of scopes or of parents
ever closes: only `construct` gives an object a parent, and that object is new; only a new scope
gets an outer one.

Main statements: `Machine.Safe.next` and `Machine.Safe.of_reaches`, one step of a machine and then
any number of them only let a store grow; `Store.Performs.parents_stay`, a run re-points nothing;
`Store.Reachable.grows`, so does all that a host does; and `Store.Reachable.acyclic`, every chain in
a reachable store ends, so the walks along it are the unbounded ones.
-/

namespace Descramble

/-! ## Machines -/

/-- Whether going on with an answer is safe, in any store that a store grows to. -/
def Store.Awaits (s : Store) (resume : Except Fault Completion → Store → Step Completion) : Prop :=
  ∀ answer s', s.Grows s' → s'.HasResult Store.HasCompletion answer →
    Step.Safe Store.HasCompletion s' (resume answer s')

/-- Whether what waits on the stack can go on. -/
def Pending.Safe (s : Store) : Pending → Prop
  | .call resume => s.Awaits resume
  | .loop l resume => s.HasContext l.context ∧ s.Awaits resume

/-- What waits can go on in any store that the store grows to. -/
theorem Pending.Safe.grows {s s' : Store} {frame : Pending} (h : frame.Safe s)
    (hgrows : s.Grows s') : frame.Safe s' := by
  cases frame with
  | call resume => exact fun answer t ht => h answer t (hgrows.trans ht)
  | loop l resume => exact ⟨h.1.grows hgrows, fun answer t ht => h.2 answer t (hgrows.trans ht)⟩

namespace Machine

/-- A machine whose step, begun in some store, is safe, like all that waits for it. -/
structure Safe (first : Store) (m : Machine) : Prop where
  current : Step.Safe Store.HasCompletion first m.current
  pending : ∀ frame ∈ m.pending, frame.Safe first

variable {first : Store} {m m' : Machine}

/-- The store of a safe machine has only grown. -/
theorem Safe.grows (h : m.Safe first) : first.Grows m.store := by
  obtain ⟨pending, d, x⟩ := m
  have hx := h.current
  cases x with
  | done r s => exact hx.1
  | ask req s resume => exact hx.1

/-- One step of a safe machine leads to a safe one, whose step begins in the store as it is now. -/
theorem Safe.next (h : m.Safe first) (hnext : m.next = .inr m') : m'.Safe m.store := by
  have hgrows : first.Grows m.store := h.grows
  obtain ⟨pending, d, x⟩ := m
  obtain ⟨hx, hpending⟩ := h
  have hwaiting : ∀ frame ∈ pending, frame.Safe (store ⟨pending, d, x⟩) :=
    fun frame hmem => (hpending frame hmem).grows hgrows
  cases x with
  | ask req s resume =>
    obtain ⟨-, hreq, hresume⟩ := hx
    -- what is asked for begins in the store of the request, and the one who asked waits there
    cases req with
    | call f this args =>
      simp only [Machine.next] at hnext
      split at hnext
      · cases hnext
        have henter := Action.enter_safe hgrows.sound hreq.1 hreq.2.1 hreq.2.2
        -- the function begins in a store that has all that it was called with
        exact ⟨henter, List.forall_mem_cons.mpr ⟨hresume, hwaiting⟩⟩
      -- whoever is refused goes on with a fault, in the store of the request
      · cases hnext
        exact ⟨hresume _ _ hgrows.sound.grows trivial, hwaiting⟩
    | loop l =>
      cases hnext
      have hturn := Action.turn_safe l s ⟨hreq, hgrows.sound⟩
      exact ⟨hturn, List.forall_mem_cons.mpr ⟨⟨hreq, hresume⟩, hwaiting⟩⟩
  | done r s =>
    cases pending with
    | nil => cases hnext
    | cons frame pending =>
      rw [List.forall_mem_cons] at hpending hwaiting
      cases frame with
      | call resume =>
        cases hnext
        exact ⟨hpending.1 r s hx.1 hx.2, hwaiting.2⟩
      | loop l resume =>
        have hresume := hpending.1.2 r s hx.1 hx.2
        -- `continued` asks for the loop again, anything else is the answer
        rcases r with v | (_ | _ | _ | _)
        case ok.continued =>
          cases hnext
          exact ⟨⟨hgrows.sound.grows, hwaiting.1⟩, hwaiting.2⟩
        all_goals
          cases hnext
          exact ⟨hresume, hwaiting.2⟩

/-- Whatever a safe machine gets to is safe, and its store has only grown. -/
theorem Safe.of_reaches (h : m.Safe first) (hreach : m.Reaches m') :
    first.Grows m'.store ∧ ∃ last, m'.Safe last := by
  induction hreach with
  | refl => exact ⟨h.grows, first, h⟩
  | tail _ hnext ih =>
    obtain ⟨hgrows, last, hsafe⟩ := ih
    have hsafe' := hsafe.next hnext
    exact ⟨hgrows.trans hsafe'.grows, _, hsafe'⟩

/-- What a safe machine asks for exists. -/
theorem Safe.has_request (h : m.Safe first) {req : Request} {s : Store}
    {resume : Except Fault Completion → Store → Step Completion}
    (hask : m.current = .ask req s resume) : s.HasRequest req := by
  have hx := h.current
  rw [hask] at hx
  exact hx.2.1

/-- The store of an outcome is that of the last machine. -/
theorem store_of_next_eq_inl {outcome : Outcome} (h : m.next = .inl outcome) :
    outcome.store = m.store := by
  obtain ⟨pending, d, x⟩ := m
  cases x with
  | ask req s resume =>
    cases req with
    | call f this args =>
      simp only [Machine.next] at h
      split at h <;> cases h
    | loop l => cases h
  -- only a result that nothing waits for ends the run
  | done r s =>
    cases pending with
    | nil =>
      cases h
      rfl
    | cons frame pending =>
      cases frame with
      | call resume => cases h
      | loop l resume => rcases r with v | (_ | _ | _ | _) <;> cases h

end Machine

namespace Store

/-! ## What a host does -/

/-- What a host has a store do: run a program, call a value, or read a property of one. -/
inductive Performs (s : Store) : Action Completion → Prop
  | run (p : Program) : Performs s (Action.runBody ⟨.root, .object .global⟩ p.body)
  | call {f this : Value} {args : List Value} (hf : s.Has f) (hthis : s.Has this)
      (hargs : ∀ v ∈ args, s.Has v) : Performs s (do return .gaveBack (← Action.call f this args))
  | getProperty {target : Value} (key : String) (htarget : s.Has target) :
      Performs s (do return .gaveBack (← Action.getProperty target key))

/-- The stores that a host can get to from a fresh one. The objects that it makes itself have no
    parent; a store is reached also in the middle of a run. -/
inductive Reachable : Store → Prop
  | initial : Reachable .initial
  | make {s : Store} {o : Object} (h : Reachable s) (ho : s.HasContents o)
      (hparent : o.parent = none) : Reachable (s.addObject o).2
  | set {s : Store} {v : Value} (h : Reachable s) (ref : ObjectRef) (key : String)
      (hv : s.Has v) : Reachable (s.setOwn ref key v)
  | provide {s : Store} {v : Value} (h : Reachable s) (name : Name) (hv : s.Has v) :
      Reachable (s.provide name v)
  | perform {s : Store} {x : Action Completion} (h : Reachable s) (hx : s.Performs x) :
      Reachable (x.perform s).store
  | during {s : Store} {x : Action Completion} {m : Machine} (h : Reachable s)
      (hx : s.Performs x) (hm : (Machine.start x s 0).Reaches m) : Reachable m.store

namespace Reachable

variable {s : Store}

/-- A run leaves a reachable store. -/
theorem run (h : s.Reachable) (p : Program) : (s.run p).2.Reachable :=
  h.perform (.run p)

/-- A call leaves a reachable store. -/
theorem call (h : s.Reachable) {f this : Value} {args : List Value} (hf : s.Has f)
    (hthis : s.Has this) (hargs : ∀ v ∈ args, s.Has v) : (s.call f this args).2.Reachable :=
  h.perform (.call hf hthis hargs)

/-- A read of a property, which may call a function, leaves a reachable store. -/
theorem getProperty (h : s.Reachable) {target : Value} (htarget : s.Has target) (key : String) :
    (s.getProperty target key).2.Reachable :=
  h.perform (.getProperty key htarget)

end Reachable

/-! ## Chains -/

/-- One scope lies directly inside another. -/
def Inside (s : Store) (ref outer : ScopeRef) : Prop :=
  (s.scope ref).parent = some outer

/-- One object has another as its parent. -/
def Inherits (s : Store) (ref parent : ObjectRef) : Prop :=
  (s.object ref).parent = some parent

/-- Every scope leads to the root and every object to one without a parent, none back to itself. So
    each walk along the parents goes on to the end: what it finds is what the first object or scope
    has, or else what it finds from the parent on. -/
structure ChainsEnd (s : Store) : Prop where
  root : (s.scope .root).parent = none
  scopes : ∀ ref : ScopeRef, ref.index < s.scopes.size →
    Relation.ReflTransGen s.Inside ref .root ∧ ¬ Relation.TransGen s.Inside ref ref
  objects : ∀ ref : ObjectRef, (∃ last, Relation.ReflTransGen s.Inherits ref last ∧
    (s.object last).parent = none) ∧ ¬ Relation.TransGen s.Inherits ref ref
  binder?_eq : ∀ (ref : ScopeRef) (name : Name), s.binder? ref name =
    if (s.scope ref).names.contains name then some ref
    else (s.scope ref).parent.bind (s.binder? · name)
  inherited?_eq : ∀ (ref : ObjectRef) (key : String), s.inherited? ref key =
    ((s.object ref).get? key).or ((s.object ref).parent.bind (s.inherited? · key))
  descendsFrom_eq : ∀ ref ancestor : ObjectRef, s.descendsFrom ref ancestor =
    (s.object ref).parent.any fun parent => parent == ancestor || s.descendsFrom parent ancestor

variable {s : Store}

/-- A scope leads to the root only by way of older and older ones. -/
theorem Nested.inside_root (h : s.Nested) {ref : ScopeRef} (hlt : ref.index < s.scopes.size) :
    Relation.ReflTransGen s.Inside ref .root := by
  obtain ⟨i⟩ := ref
  -- by the number of the scope: the one around it has a smaller one
  induction i using Nat.strongRecOn with
  | ind i ih =>
    by_cases hroot : (⟨i⟩ : ScopeRef) = .root
    · rw [hroot]
    · obtain ⟨outer, houter, hold⟩ := h.parent _ hroot hlt
      exact .head houter (ih outer.index hold (Nat.lt_trans hold hlt))

/-- Every object leads to one without a parent, by way of older and older ones. -/
theorem Sound.exists_inherits (h : s.Sound) (ref : ObjectRef) :
    ∃ last, Relation.ReflTransGen s.Inherits ref last ∧ (s.object last).parent = none := by
  obtain ⟨i⟩ := ref
  -- by the number of the object: its parent has a smaller one
  induction i using Nat.strongRecOn with
  | ind i ih =>
    cases hparent : (s.object ⟨i⟩).parent with
    | none => exact ⟨⟨i⟩, .refl, hparent⟩
    | some parent =>
      obtain ⟨last, hreach, hlast⟩ := ih parent.index (h.older _ _ hparent)
      exact ⟨last, .head hparent hreach, hlast⟩

/-- Whatever lies around a scope is older. -/
theorem Nested.lt_of_inside (h : s.Nested) {ref outer : ScopeRef}
    (hreach : Relation.TransGen s.Inside ref outer) : outer.index < ref.index := by
  induction hreach with
  | single hinside => exact h.parent_lt hinside
  | tail _ hinside ih => exact Nat.lt_trans (h.parent_lt hinside) ih

/-- Whatever an object inherits from is older. -/
theorem Sound.lt_of_inherits (h : s.Sound) {ref ancestor : ObjectRef}
    (hreach : Relation.TransGen s.Inherits ref ancestor) : ancestor.index < ref.index := by
  induction hreach with
  | single hparent => exact h.older _ _ hparent
  | tail _ hparent ih => exact Nat.lt_trans (h.older _ _ hparent) ih

/-- Where outer scopes and parents are older, every chain ends. -/
theorem Sound.chainsEnd (h : s.Sound) : s.ChainsEnd where
  root := h.root_parent
  scopes := fun _ hlt =>
    ⟨h.inside_root hlt, fun hcycle => Nat.lt_irrefl _ (h.lt_of_inside hcycle)⟩
  objects := fun ref =>
    ⟨h.exists_inherits ref, fun hcycle => Nat.lt_irrefl _ (h.lt_of_inherits hcycle)⟩
  binder?_eq := h.binder?_eq
  inherited?_eq := h.inherited?_eq
  descendsFrom_eq := h.descendsFrom_eq

/-! ## Reachable stores are sound -/

/-- The scope at the top and the global object are there for whatever a host does. -/
theorem Sound.hosts_root (h : s.Sound) : s.Hosts ⟨.root, .object .global⟩ :=
  ⟨⟨h.root_lt, h.global_lt⟩, h⟩

/-- What a host has a sound store do is safe. -/
theorem Performs.safe {x : Action Completion} (hx : s.Performs x) (hs : s.Sound) :
    x.Safe s HasCompletion := by
  cases hx with
  | run p => exact Action.runBody_safe p.body s hs.hosts_root
  | call hf hthis hargs =>
    exact .bind (.call hs _ hthis hargs) fun _ _ h₁ hv => .pure h₁.sound hv
  | getProperty key htarget =>
    exact .bind (Action.getProperty_safe hs _ key) fun _ _ h₁ hv => .pure h₁.sound hv

/-- What a store does for a host only lets it grow, as far as it may have come, and every machine on
    the way is safe. -/
theorem Performs.of_reaches {x : Action Completion} {m : Machine} (hx : s.Performs x)
    (hs : s.Sound) (hm : (Machine.start x s 0).Reaches m) :
    s.Grows m.store ∧ ∃ last, m.Safe last := by
  have hstart : (Machine.start x s 0).Safe s := ⟨hx.safe hs, fun _ hmem => nomatch hmem⟩
  exact hstart.of_reaches hm

/-- A run re-points nothing that was there before it. -/
theorem Performs.parents_stay {x : Action Completion} {m : Machine} (hx : s.Performs x)
    (hs : s.Sound) (hm : (Machine.start x s 0).Reaches m) :
    (∀ ref : ObjectRef, ref.index < s.objects.size →
      (m.store.object ref).parent = (s.object ref).parent) ∧
    ∀ ref : ScopeRef, ref.index < s.scopes.size →
      (m.store.scope ref).parent = (s.scope ref).parent := by
  have hgrows := (hx.of_reaches hs hm).1
  exact ⟨fun ref hlt => hgrows.parent_object hlt, fun ref hlt => hgrows.parent_scope hlt⟩

/-- Whatever a host does, the fresh store has only grown. -/
theorem Reachable.grows (h : s.Reachable) : Store.initial.Grows s := by
  induction h with
  | initial => exact sound_initial.grows
  | make _ ho hparent ih =>
    exact ih.trans (ih.sound.grows_addObject ho (by rw [hparent]; exact nofun))
  | set _ ref key hv ih => exact ih.trans (ih.sound.grows_setOwn ref key hv)
  | provide _ name hv ih => exact ih.trans (ih.sound.grows_bind .root name hv)
  | perform _ hx ih =>
    -- the outcome of a whole run is that of the last machine on the way
    rw [Action.perform]
    cases hrun : (Machine.start _ _ 0).run maxSteps with
    -- a run that is given up leaves the store as it was
    | none => exact ih
    | some outcome =>
      obtain ⟨last, hreach, hlast⟩ := Machine.exists_last_of_run hrun
      rw [Option.getD_some, Machine.store_of_next_eq_inl hlast]
      exact ih.trans (hx.of_reaches ih.sound hreach).1
  | during _ hx hm ih => exact ih.trans (hx.of_reaches ih.sound hm).1

/-- A reachable store is sound. -/
theorem Reachable.sound (h : s.Reachable) : s.Sound :=
  h.grows.sound

/-- What is called or asked for in a run exists in the store as it is then, and that store is
    reachable. -/
theorem Reachable.has_request (h : s.Reachable) {x : Action Completion} (hx : s.Performs x)
    {m : Machine} (hm : (Machine.start x s 0).Reaches m) {req : Request} {s' : Store}
    {resume : Except Fault Completion → Store → Step Completion}
    (hask : m.current = .ask req s' resume) : s'.Reachable ∧ s'.HasRequest req := by
  obtain ⟨-, last, hsafe⟩ := hx.of_reaches h.sound hm
  refine ⟨?_, hsafe.has_request hask⟩
  -- a machine that asks has the store in which it asks
  have hstore : m.store = s' := by rw [Machine.store, hask]
  rw [← hstore]
  exact h.during hx hm

/-- A sound store grows by way of stores in which every chain ends. -/
theorem Sound.changes_chainsEnd {s' : Store} (hs : s.Sound) (h : s.Grows s') :
    Relation.ReflTransGen (fun s₁ s₂ => s₁.Change s₂ ∧ s₂.ChainsEnd) s s' := by
  -- on the single changes: each keeps the store sound, so each leaves every chain ending
  have hall : s'.Sound ∧
      Relation.ReflTransGen (fun s₁ s₂ => s₁.Change s₂ ∧ s₂.ChainsEnd) s s' := by
    apply h.induction
    · exact ⟨hs, .refl⟩
    · intro t t' _ hchange ih
      have hsound := hchange.sound ih.1
      exact ⟨hsound, ih.2.tail ⟨hchange, hsound.chainsEnd⟩⟩
  exact hall.2

/-- Every chain in a reachable store ends; and while the store does something for its host, it comes
    to be what it is by changes each of which leaves it so. -/
theorem Reachable.acyclic (h : s.Reachable) :
    s.ChainsEnd ∧ ∀ x m, s.Performs x → (Machine.start x s 0).Reaches m →
      Relation.ReflTransGen (fun s₁ s₂ => s₁.Change s₂ ∧ s₂.ChainsEnd) s m.store :=
  ⟨h.sound.chainsEnd, fun _ _ hx hm => h.sound.changes_chainsEnd (hx.of_reaches h.sound hm).1⟩

/-- A function whose prototype becomes one of its own instances, and then an instance that stores
    itself as `__proto__`. -/
def rewired : Program where
  body := [
    .function "A" ⟨[], []⟩,
    .expr (.assign none (.member (.ident "A") "prototype") (.construct (.ident "A") [])),
    .expr (.assign none (.ident "a") (.construct (.ident "A") [])),
    .expr (.assign none (.member (.ident "a") "__proto__") (.ident "a"))]

/-- The instance has a parent that has a parent, and its own property closes no chain. -/
theorem Reachable.acyclic_rewired :
    let s := (Store.initial.run rewired).2
    s.Reachable ∧
      s.global? "a" = some (.object ⟨21⟩) ∧
      (s.object ⟨21⟩).get? "__proto__" = some (.object ⟨21⟩) ∧
      s.Inherits ⟨21⟩ ⟨19⟩ ∧ s.Inherits ⟨19⟩ ⟨18⟩ ∧ s.ChainsEnd := by
  intro s
  have hs : s.Reachable := Reachable.initial.run rewired
  -- the run is computed; what is read off it is where the parents are
  refine ⟨hs, ?_, ?_, ?_, ?_, (Reachable.acyclic hs).1⟩
  · decide +kernel
  · decide +kernel
  · show (s.object ⟨21⟩).parent = some ⟨19⟩
    decide +kernel
  · show (s.object ⟨19⟩).parent = some ⟨18⟩
    decide +kernel

end Store

end Descramble
