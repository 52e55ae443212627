import Descramble.Proofs.Evaluation.Reachable
import Descramble.Proofs.Evaluation.Task

/-!
# Activations

A call of a function whose body is a list of statements makes a scope for it. The body runs in that
scope and in blocks inside it, and the names that it declares with `var` are bound there before
anything else runs. Whatever runs in between, scopes stay where they are and keep their names.

Main statements: `Task.Next.hoisted_subset` and `Task.Next.moves`, what one piece declares and where
it runs when it is a part of another; `Task.Homed.of_reaches`, so each piece of the body runs in the
function's scope or below it, and that scope binds the names that the piece declares with `var`; and
`Store.Reachable.var_stays`, a `var` with a value writes to a scope that the call has made.
-/

namespace Descramble

/-! ## What running a piece leaves as it is -/

namespace Store

/-- Whether a context is that of a block right inside another. -/
structure Opens (c : Context) (s : Store) (inner : Context) : Prop where
  hosts : s.Hosts inner
  inside : s.Inside inner.scope c.scope

variable {s s' : Store} {c inner : Context}

/-- Scopes stay where they are. -/
theorem Grows.inside (h : s.Grows s') {ref outer : ScopeRef} (hlt : ref.index < s.scopes.size)
    (hinside : s.Inside ref outer) : s'.Inside ref outer :=
  (h.parent_scope hlt).trans hinside

/-- A block that was opened stays one. -/
theorem Opens.grows (h : s.Opens c inner) (hgrows : s.Grows s') : s'.Opens c inner :=
  ⟨h.hosts.grows hgrows, hgrows.inside h.hosts.scope_lt h.inside⟩

/-- A chain of scopes stays one. -/
theorem Grows.chain (h : s.Grows s') (hs : s.Sound) {ref outer : ScopeRef}
    (hlt : ref.index < s.scopes.size) (hchain : Relation.ReflTransGen s.Inside ref outer) :
    Relation.ReflTransGen s'.Inside ref outer := by
  -- from the inside out: every scope on the way is older, so the store has it already
  induction hchain using Relation.ReflTransGen.head_induction_on with
  | refl => exact .refl
  | head hinside _ ih =>
    have hold := hs.parent_lt hinside
    exact .head (h.inside hlt hinside) (ih (Nat.lt_trans hold hlt))

end Store

namespace Action

variable {s s' : Store} {c inner : Context} {d : Nat}

/-- What a safe action gives, in a store that has only grown. -/
theorem Gives.of_safe {α : Type} {x : Action α} {a : α} {post : Store → α → Prop}
    (h : x.Gives d s a s') (hsafe : x.Safe s post) : s.Grows s' ∧ post s' a :=
  Step.Ends.of_safe h hsafe

/-- A new scope is right inside that of the context. -/
theorem makeBlock_opens (hc : s.Hosts c) : (makeBlock c).Safe s (Store.Opens c) := by
  have hgrows := hc.sound.grows_addScope hc.scope_lt
  refine ⟨hgrows, ⟨(hc.grows hgrows).withScope (s.lt_size_addScope c.scope), ?_⟩⟩
  show ((s.addScope c.scope).2.scope (s.addScope c.scope).1).parent = some c.scope
  rw [Store.scope_addScope]

/-- A block of statements is opened in a new scope. -/
theorem openBlock_opens (hc : s.Hosts c) (body : List Stmt) :
    (openBlock c body).Safe s (Store.Opens c) := by
  refine .bind (makeBlock_opens hc) fun inner s₁ h₁ hinner => ?_
  refine .bind (declareFunctions_safe hinner.hosts body) fun _ s₂ h₂ _ => ?_
  -- declaring functions lets the store grow, which leaves the block where it is
  exact .pure h₂.sound (hinner.grows h₂)

/-- A handler is opened in a new scope, which has the name of its parameter. -/
theorem openHandler_opens (hc : s.Hosts c) (clause : CatchClause) {thrown : Value}
    (hthrown : s.Has thrown) : (openHandler c clause thrown).Safe s (Store.Opens c) := by
  obtain ⟨param, body⟩ := clause
  refine .bind (makeBlock_opens hc) fun inner s₁ h₁ hinner => ?_
  have hrest {s₂ : Store} (h₂ : s₁.Grows s₂) :
      (do declareFunctions inner body; return inner : Action Context).Safe s₂ (Store.Opens c) := by
    refine .bind (declareFunctions_safe (hinner.grows h₂).hosts body) fun _ s₃ h₃ _ => ?_
    exact .pure h₃.sound ((hinner.grows h₂).grows h₃)
  -- only a handler with a parameter binds what was thrown
  cases param with
  | none => exact hrest h₁.sound.grows
  | some name =>
    have hbind := h₁.sound.grows_bind inner.scope name (hthrown.grows h₁)
    exact .bind (.modify hbind) fun _ s₂ h₂ _ => hrest h₂

/-- A loop runs in a new scope, in which its first part has been run. -/
theorem openLoop_opens (hc : s.Hosts c) (start : Option ForStart) :
    (openLoop c start).Safe s (Store.Opens c) := by
  refine .bind (makeBlock_opens hc) fun inner s₁ h₁ hinner => ?_
  refine .bind (runStart_safe start s₁ hinner.hosts) fun _ s₂ h₂ _ => ?_
  -- the first part may run anything, but no scope moves
  exact .pure h₂.sound (hinner.grows h₂)

end Action

/-! ## Pieces run in the scope of the function -/

namespace Task

variable {home : ScopeRef} {t t' : Task} {s s' : Store} {d : Nat}

/-- A piece declares no names for the function but those that the piece around it declares. -/
theorem Next.hoisted_subset {p q : Task × Store} (h : Next d p q) :
    q.1.hoisted ⊆ p.1.hoisted := by
  -- hoisting follows the tree in the same way as running does, one case for each place
  cases h with
  | first | rest => simp [hoisted, Stmt.hoistedAll]
  | declare | no | block | whileLoop | switch | attempt => simp [hoisted, Stmt.hoisted]
  | later =>
    simp only [hoisted, Declaration.hoisted]
    split <;> simp
  | @yes c test yes no =>
    cases no <;> simp [hoisted, Stmt.hoisted]
  | forStart => simp [hoisted, Stmt.hoisted, ForStart.hoisted]
  | @forLoop c inner start =>
    cases start <;> simp [hoisted, Stmt.hoisted]
  | again | always | goesOn => exact List.Subset.refl _
  | @passedOver c start clause | @thisCase c clause | @nextCase c clause =>
    obtain ⟨test, stmts⟩ := clause
    simp [hoisted, Stmt.hoistedCases]
  | @handler c inner stmts clause =>
    obtain ⟨param, body⟩ := clause
    simp [hoisted, Stmt.hoisted, Stmt.hoistedCatch]
  | finalizer => simp [hoisted, Stmt.hoisted, Stmt.hoistedFinally]

/-- A piece runs in the same context as the piece around it, or in a block right inside that; and
    what runs before it only lets the store grow. -/
theorem Next.moves {p q : Task × Store} (h : Next d p q) (hc : p.2.Hosts p.1.context) :
    p.2.Grows q.2 ∧ (q.1.context = p.1.context ∨ q.2.Opens p.1.context q.1.context) := by
  cases h with
  | first | declare | whileLoop | always | passedOver | attempt =>
    exact ⟨hc.sound.grows, .inl rfl⟩
  | @rest c stmt _ _ _ hrun => exact ⟨(hrun.of_safe (Action.run_safe stmt c _ hc)).1, .inl rfl⟩
  | @later c kind declarator _ _ _ hrun =>
    exact ⟨(hrun.of_safe (Action.runDeclarators_safe kind [declarator] _ hc)).1, .inl rfl⟩
  | @yes _ test _ _ _ _ _ heval | @no _ test _ _ _ _ _ heval | @goesOn _ test _ _ _ _ heval =>
    exact ⟨(heval.of_safe (Action.eval_safe test _ hc)).1, .inl rfl⟩
  | again hturn => exact ⟨(hturn.of_safe (Action.turn_safe _ _ hc)).1, .inl rfl⟩
  -- from here on the piece runs in a block of its own
  | block hopen =>
    have hsafe := hopen.of_safe (Action.openBlock_opens hc _)
    exact ⟨hsafe.1, .inr hsafe.2⟩
  | forStart hopen =>
    have hsafe := hopen.of_safe (Action.makeBlock_opens hc)
    exact ⟨hsafe.1, .inr hsafe.2⟩
  | forLoop hopen =>
    have hsafe := hopen.of_safe (Action.openLoop_opens hc _)
    exact ⟨hsafe.1, .inr hsafe.2⟩
  -- the subject and the cases are evaluated before the block is opened
  | @switch c inner subject cases v _ _ _ s₁ s₂ _ hsubject hfound hstart hopen =>
    have hsafe₁ := hsubject.of_safe (Action.eval_safe subject _ hc)
    have hc₁ : s₁.Hosts c := hc.grows hsafe₁.1
    have hsafe₂ := hfound.of_safe (Action.findCase_safe v 0 cases _ hc₁)
    have hsafe₃ := hopen.of_safe (Action.makeBlock_opens (hc₁.grows hsafe₂.1))
    exact ⟨(hsafe₁.1.trans hsafe₂.1).trans hsafe₃.1, .inr hsafe₃.2⟩
  | thisCase hdeclare =>
    exact ⟨(hdeclare.of_safe (Action.declareFunctions_safe hc _)).1, .inl rfl⟩
  | @nextCase c clause _ _ s₁ _ hdeclare hrun =>
    have hsafe₁ := hdeclare.of_safe (Action.declareFunctions_safe hc _)
    have hc₁ : s₁.Hosts c := hc.grows hsafe₁.1
    have hall : ∀ stmt ∈ clause.body, (Action.run c stmt).SafeIn c Store.HasCompletion :=
      fun stmt _ => Action.run_safe stmt c
    have hsafe₂ := hrun.of_safe (Action.runAll_safe hall _ hc₁)
    exact ⟨hsafe₁.1.trans hsafe₂.1, .inl rfl⟩
  | @handler c inner stmts clause _ _ _ s₁ _ hthrown hopen =>
    have hsafe₁ := hthrown.of_safe (Action.run_safe (.block stmts) c _ hc)
    have hc₁ : s₁.Hosts c := hc.grows hsafe₁.1
    -- what was thrown exists, so the handler may bind it
    have hsafe₂ := hopen.of_safe (Action.openHandler_opens hc₁ clause hsafe₁.2)
    exact ⟨hsafe₁.1.trans hsafe₂.1, .inr hsafe₂.2⟩
  | @finalizer c stmts _ handler _ _ _ s₁ _ htry hcatch =>
    have hsafe₁ := htry.of_safe (Action.run_safe (.block stmts) c _ hc)
    have hc₁ : s₁.Hosts c := hc.grows hsafe₁.1
    have hhandler : ∀ clause ∈ handler, ∀ stmt ∈ clause.body, ∀ c,
        (Action.run c stmt).SafeIn c Store.HasCompletion :=
      fun _ _ stmt _ => Action.run_safe stmt
    have hsafe₂ := hcatch.of_safe (Action.runCatch_safe hsafe₁.2 hhandler hc₁)
    exact ⟨hsafe₁.1.trans hsafe₂.1, .inl rfl⟩

/-- Whether a piece runs in the scope of a function or below, and the function's scope binds the
    names that it declares. -/
structure Homed (home : ScopeRef) (t : Task) (s : Store) : Prop where
  hosts : s.Hosts t.context
  inside : Relation.ReflTransGen s.Inside t.context.scope home
  binds : ∀ name ∈ t.hoisted, (s.scope home).names.contains name

/-- A later piece in the same context. -/
theorem Homed.later (h : t.Homed home s) (hgrows : s.Grows s')
    (hcontext : t'.context = t.context) (hsub : t'.hoisted ⊆ t.hoisted) : t'.Homed home s' where
  hosts := by
    rw [hcontext]
    exact h.hosts.grows hgrows
  inside := by
    rw [hcontext]
    exact hgrows.chain h.hosts.sound h.hosts.scope_lt h.inside
  binds := fun name hname => hgrows.contains (h.binds name (hsub hname))

/-- A later piece in a block right inside the context. -/
theorem Homed.below (h : t.Homed home s) (hgrows : s.Grows s')
    (hopens : s'.Opens t.context t'.context) (hsub : t'.hoisted ⊆ t.hoisted) :
    t'.Homed home s' where
  hosts := hopens.hosts
  inside := .head hopens.inside (hgrows.chain h.hosts.sound h.hosts.scope_lt h.inside)
  binds := fun name hname => hgrows.contains (h.binds name (hsub hname))

/-- A piece that runs as a part of another runs in the same function, whose scope binds its
    names. -/
theorem Homed.next {p q : Task × Store} (h : p.1.Homed home p.2) (hnext : Next d p q) :
    q.1.Homed home q.2 := by
  obtain ⟨hgrows, hcontext⟩ := hnext.moves h.hosts
  rcases hcontext with heq | hopens
  · exact h.later hgrows heq hnext.hoisted_subset
  · exact h.below hgrows hopens hnext.hoisted_subset

/-- Whatever runs in the body of a function runs in that function, however deep it stands. -/
theorem Homed.of_reaches {p q : Task × Store} (h : p.1.Homed home p.2)
    (hpath : Relation.ReflTransGen (Next d) p q) : q.1.Homed home q.2 := by
  -- on the way down to the piece, one part inside another at a time
  induction hpath with
  | refl => exact h
  | tail _ hnext ih => exact ih.next hnext

end Task

/-! ## What hoisting binds -/

namespace Action

variable {s s' : Store} {c : Context} {d : Nat}

/-- Names that are declared in a scope are bound there; at the top they go to the global object. -/
theorem declareNames_binds (hroot : c.scope ≠ .root) (hc : s.Hosts c) (names : List Name) :
    (declareNames c names).Safe s fun s _ =>
      ∀ name ∈ names, (s.scope c.scope).names.contains name := by
  induction names generalizing s with
  | nil => exact .pure hc.sound nofun
  | cons name names ih =>
    have hdeclare := hc.sound.grows_declare c.scope name
    have hname : ((s.declare c.scope name).scope c.scope).names.contains name := by
      rw [Store.declare, if_neg hroot, Store.bindIfNew, Store.scope_modifyScope hc.scope_lt]
      exact Bindings.contains_insertIfNew_self _ name .undefined
    -- the first name stays bound while the others are declared
    refine .bind (p := fun s _ => (s.scope c.scope).names.contains name) ⟨hdeclare, hname⟩
      fun _ s₁ h₁ hname₁ => ?_
    refine (ih (hc.grows h₁)).imp fun s₂ _ h₂ hnames => ?_
    rw [List.forall_mem_cons]
    exact ⟨h₂.contains hname₁, hnames⟩

/-- A function's scope binds whatever its body declares with `var`. -/
theorem Gives.homed_of_hoist (hroot : c.scope ≠ .root) (hc : s.Hosts c) {body : List Stmt}
    (h : (hoist c body).Gives d s () s') : (Task.all c body).Homed c.scope s' := by
  have hsafe : (hoist c body).Safe s fun s _ =>
      ∀ name ∈ Stmt.hoistedAll body, (s.scope c.scope).names.contains name := by
    -- the functions of the body are declared after the names, which leaves those bound
    refine .bind (declareNames_binds hroot hc _) fun _ s₁ h₁ hbinds => ?_
    refine (declareFunctions_safe (hc.grows h₁) body).imp fun s₂ _ h₂ _ => ?_
    exact fun name hname => h₂.contains (hbinds name hname)
  obtain ⟨hgrows, hbinds⟩ := h.of_safe hsafe
  exact ⟨hc.grows hgrows, .refl, hbinds⟩

end Action

/-! ## Where a declarator writes -/

namespace Store

variable {s : Store}

/-- A name that a scope around binds is bound there or by a scope on the way. -/
theorem Sound.binder?_of_chain (hs : s.Sound) {ref home : ScopeRef} {name : Name}
    (hchain : Relation.ReflTransGen s.Inside ref home)
    (hname : (s.scope home).names.contains name) :
    ∃ binder, s.binder? ref name = some binder ∧ Relation.ReflTransGen s.Inside ref binder ∧
      Relation.ReflTransGen s.Inside binder home := by
  -- the search goes the same way as the chain and stops at the first scope that binds the name
  induction hchain using Relation.ReflTransGen.head_induction_on with
  | refl =>
    refine ⟨home, ?_, .refl, .refl⟩
    rw [hs.binder?_eq, if_pos hname]
  | @head ref outer hinside hrest ih =>
    by_cases hown : (s.scope ref).names.contains name
    · refine ⟨ref, ?_, .refl, .head hinside hrest⟩
      rw [hs.binder?_eq, if_pos hown]
    · obtain ⟨binder, hbinder, hto, hfrom⟩ := ih
      refine ⟨binder, ?_, .head hinside hto, hfrom⟩
      rw [hs.binder?_eq, if_neg hown, hinside]
      exact hbinder

end Store

/-- A `var` with a value writes to the function's scope or to a block below it, where the name is
    bound when the value is there. -/
theorem Task.Homed.writes {home : ScopeRef} {c : Context} {name : Name} {e : Expr}
    {rest : List Declarator} {s s' : Store} {d : Nat}
    (h : (Task.declaration c ⟨.functionScoped, ⟨name, some e⟩ :: rest⟩).Homed home s)
    (hrun : (Action.runDeclarators c .functionScoped [⟨name, some e⟩]).Gives d s () s') :
    ∃ v t binder, (Action.eval c e).Gives d s v t ∧ s' = t.bind binder name v ∧
      Relation.ReflTransGen t.Inside c.scope binder ∧
      Relation.ReflTransGen t.Inside binder home ∧ home.index ≤ binder.index := by
  obtain ⟨v, t, hvalue, hwrite⟩ := Step.Ends.of_bind hrun
  have hc : s.Hosts c := h.hosts
  have hgrows := (Action.Gives.of_safe hvalue (Action.eval_safe e s hc)).1
  have hchain : Relation.ReflTransGen t.Inside c.scope home :=
    hgrows.chain hc.sound hc.scope_lt h.inside
  -- the value may take any amount of running, but the name stays bound meanwhile
  have hname : (t.scope home).names.contains name :=
    hgrows.contains (h.binds name (by simp [hoisted, Declaration.hoisted]))
  obtain ⟨binder, hbinder, hto, hfrom⟩ := hgrows.sound.binder?_of_chain hchain hname
  refine ⟨v, t, binder, hvalue, ?_, hto, hfrom, ?_⟩
  · obtain ⟨-, hs'⟩ := Step.Ends.done_iff.mp hwrite
    have hassign : t.assign c.scope name v = t.bind binder name v := by
      rw [Store.assign, hbinder]
    rw [hs']
    exact hassign
  -- the binder is the function's scope or a newer one
  · rcases Relation.reflTransGen_iff_eq_or_transGen.mp hfrom with rfl | hbelow
    · exact Nat.le_refl _
    · exact Nat.le_of_lt (hgrows.sound.lt_of_inside hbelow)

namespace Store

/-- A `var` never leaves its function. Whenever the body of a function that is called comes to a
    `var` with a value, wherever that stands in the body, the value goes to the scope made for the
    call or to a block below it; no older scope changes, and no object. -/
theorem Reachable.var_stays {s : Store} (hs : s.Reachable) {f : Callable} {this : Value}
    {args : List Value} (hf : s.HasCallable f) (hthis : s.Has this)
    (hargs : ∀ v ∈ args, s.Has v) {c₀ : Context} {body : List Stmt} {s₀ s₁ : Store} {d : Nat}
    (hactivate : f.activate this args s = some (c₀, body, s₀))
    (hhoist : (Action.hoist c₀ body).Gives d s₀ () s₁) {c : Context} {name : Name} {e : Expr}
    {rest : List Declarator} {s₂ s₃ : Store}
    (hpath : Relation.ReflTransGen (Task.Next d) (.all c₀ body, s₁)
      (.declaration c ⟨.functionScoped, ⟨name, some e⟩ :: rest⟩, s₂))
    (hrun : (Action.runDeclarators c .functionScoped [⟨name, some e⟩]).Gives d s₂ () s₃) :
    Step.Contains d (Action.enter f this args s)
        (Action.runDeclaration c ⟨.functionScoped, ⟨name, some e⟩ :: rest⟩ s₂) ∧
      ∃ v t binder, (Action.eval c e).Gives d s₂ v t ∧ s₃ = t.bind binder name v ∧
        Relation.ReflTransGen t.Inside c.scope binder ∧
        Relation.ReflTransGen t.Inside binder c₀.scope ∧ s.scopes.size ≤ binder.index ∧
        s₃.objects = t.objects ∧
        ∀ ref : ScopeRef, ref.index < s.scopes.size → s₃.scope ref = t.scope ref := by
  constructor
  -- the declaration is a part of the body, which runs after the names are bound
  · rw [Action.enter_of_activate hactivate, Action.runBody_eq]
    exact .bind_after hhoist (Task.contains_of_reaches hpath)
  obtain ⟨-, hc, hscope⟩ := Action.hosts_of_activate hs.sound hf hthis hargs hactivate
  have hroot : c₀.scope ≠ .root := by
    rw [hscope]
    intro heq
    exact Nat.ne_of_gt hs.sound.root_lt (congrArg ScopeRef.index heq)
  have hhomed := (hhoist.homed_of_hoist hroot hc).of_reaches hpath
  obtain ⟨v, t, binder, hvalue, rfl, hto, hfrom, hle⟩ := hhomed.writes hrun
  -- the function's scope was new when the call began, and blocks below it are newer
  have hle : s.scopes.size ≤ binder.index := by rwa [hscope] at hle
  refine ⟨v, t, binder, hvalue, rfl, hto, hfrom, hle, rfl, fun ref hlt => ?_⟩
  refine t.scope_modifyScope_of_ne ?_ _
  rintro rfl
  omega

/-- A `var` that stands in a handler and declares the name of its parameter again. -/
def redeclared : Declaration :=
  ⟨.functionScoped, [⟨"e", some (.literal (.flag true))⟩]⟩

/-- The block throws, so that the handler runs. -/
def redeclaring : List Stmt :=
  [.attempt [.raise (.literal .null)] (some ⟨some "e", [.declare redeclared]⟩) none]

theorem Reachable.var_stays_redeclared :
    ∃ (c₀ c : Context) (s₀ s₁ s₂ s₃ t : Store) (v : Value) (binder : ScopeRef),
      Callable.activate .undefined [] Store.initial (.closure ⟨[], redeclaring⟩ .root) =
        some (c₀, redeclaring, s₀) ∧
      (Action.hoist c₀ redeclaring).Gives 1 s₀ () s₁ ∧
      Relation.ReflTransGen (Task.Next 1) (.all c₀ redeclaring, s₁)
        (.declaration c redeclared, s₂) ∧
      (Action.runDeclaration c redeclared).Gives 1 s₂ () s₃ ∧
      s₃ = t.bind binder "e" v ∧ Relation.ReflTransGen t.Inside binder c₀.scope ∧
      Store.initial.scopes.size ≤ binder.index := by
  have hpath (c : Context) (s : Store) : ∃ c' s', Relation.ReflTransGen (Task.Next 1)
      (.all c redeclaring, s) (.declaration c' redeclared, s') := by
    -- the block throws, so the handler runs
    have hthrown : ∃ s', (Action.run c (.block [.raise (.literal .null)]) s).Ends 1
        (.error (.thrown .null)) s' 1 := ⟨_, .done⟩
    obtain ⟨s', hthrown⟩ := hthrown
    have hopen : ∃ inner s'', (Action.openHandler c
        ⟨some "e", [.declare redeclared]⟩ .null).Gives 1 s' inner s'' := ⟨_, _, .done⟩
    obtain ⟨inner, s'', hopen⟩ := hopen
    exact ⟨inner, s'', .head .first (.head (.handler hthrown hopen)
      (.head .first (.single .declare)))⟩
  have hf : Store.initial.HasCallable (.closure ⟨[], redeclaring⟩ .root) := sound_initial.root_lt
  have hthis : Store.initial.Has .undefined := trivial
  have hargs : ∀ v ∈ ([] : List Value), Store.initial.Has v := nofun
  obtain ⟨c, s₂, hpath⟩ := hpath _ _
  obtain ⟨-, v, t, binder, -, hbind, -, hfrom, hle, -⟩ :=
    Reachable.var_stays .initial hf hthis hargs rfl .done hpath .done
  exact ⟨_, c, _, _, s₂, _, t, v, binder, rfl, .done, hpath, .done, hbind, hfrom, hle⟩

end Store

end Descramble
