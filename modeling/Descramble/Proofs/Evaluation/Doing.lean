import Descramble.Proofs.Evaluation.Ending

/-!
# What actions do

Where an action asks for nothing it is done at once, and what follows it starts there; where it
calls a function, it comes to what the function comes to, one level deeper. These are the two ways to
follow a script that is known.

Main statements: `Action.bind_of_done` and `Action.call_of_callable?` for what an action does,
`Action.perform_of_call` for a run with one call, `Step.Ends.bind_iff` and `Step.Ends.ask_call_iff`
for what an action comes to.
-/

namespace Descramble

namespace Action

variable {α β : Type} {x : Action α} {c : Context} {s : Store} {ref : ObjectRef}

/-- What is read from a store is what the store says. -/
theorem read_bind (f : Store → α) (g : α → Action β) (s : Store) :
    (read f >>= g) s = g (f s) s :=
  rfl

/-- What follows an action that is done starts where the action ended. -/
theorem bind_of_done {a : α} {s' : Store} (h : x s = .done (.ok a) s') (f : α → Action β) :
    (x >>= f) s = f a s' := by
  show (x s).followedBy _ = f a s'
  rw [h]
  rfl

/-- A variable has the value that is found under its name. -/
theorem getVariable_of_lookup? {name : Name} {v : Value} (h : s.lookup? c.scope name = some v) :
    getVariable c name s = .done (.ok v) s := by
  unfold getVariable
  rw [read_bind, h]
  rfl

/-- A write to a property asks for nothing. Only a write to the length of an array can fail. -/
theorem setProperty_object (s : Store) (ref : ObjectRef) (key : String) (v : Value) :
    setProperty (.object ref) key v s =
      if s.rejectsLength ref key v then fail "RangeError" "Invalid array length" s
      else if s.conflictsWithLength ref key v then .done (.error (.fatal .conflict)) s
      else .done (.ok ()) (s.setOwn ref key v) := by
  show (read _ >>= _) s = _
  rw [read_bind]
  -- first whether the length is refused, then whether it is read while it is written
  split
  · rfl
  · show (read _ >>= _) s = _
    rw [read_bind]
    split <;> rfl

/-- A write to anything but the length of an array is done at once. -/
theorem setProperty_of_not_isListLength {key : String} (h : s.isListLength ref key = false)
    (v : Value) : setProperty (.object ref) key v s = .done (.ok ()) (s.setOwn ref key v) := by
  rw [setProperty_object, Store.rejectsLength, Store.conflictsWithLength, h, Bool.false_and,
    Bool.false_and, if_neg Bool.false_ne_true, if_neg Bool.false_ne_true]

/-- Literals have their values whatever the store holds. -/
theorem evalAll_literals (literals : List Literal) {es : List Expr} {vs : List Value}
    (h : evalAll c es s = .done (.ok vs) s) :
    evalAll c (literals.map .literal ++ es) s =
      .done (.ok (literals.map Literal.value ++ vs)) s := by
  induction literals with
  | nil => exact h
  | cons l rest ih =>
    have hliteral : eval c (.literal l) s = .done (.ok l.value) s := rfl
    -- each literal is done where it stands, so the store is handed on as it is
    simp only [List.map_cons, List.cons_append, evalAll]
    rw [bind_of_done hliteral, bind_of_done ih]
    rfl

/-- A call of a function asks for it and has its value. -/
theorem call_of_callable? {f this : Value} {args : List Value} {callable : Callable}
    (h : s.callable? f = some callable) :
    call f this args s = .ask (.call callable this args) s fun answer s =>
      .done (answer.map Completion.value) s := by
  unfold call
  rw [read_bind, h]
  show Step.ask _ _ _ = Step.ask _ _ _
  congr
  funext answer s'
  -- a fault is handed on and a completion gives its value
  cases answer <;> rfl

/-- So is a call of an expression's value, if that is a function. -/
theorem callValue_of_callable? {callee : Expr} {f this : Value} {args : List Value}
    {callable : Callable} (h : s.callable? f = some callable) :
    callValue callee f this args s = .ask (.call callable this args) s fun answer s =>
      .done (answer.map Completion.value) s := by
  unfold callValue
  have hfunction : s.isFunction f = true := by rw [Store.isFunction, h]; rfl
  rw [read_bind, hfunction, if_pos rfl, call_of_callable? h]

/-! ### Statements -/

/-- A statement that is an expression is over when the expression is. -/
theorem runAll_expr (c : Context) (e : Expr) (rest : List Stmt) (s : Store) :
    runAll c (.expr e :: rest) s = (eval c e s).followedBy fun r s =>
      match r with
      | .ok _ => runAll c rest s
      | .error v => .done (.error v) s := by
  simp only [runAll, run]
  rw [bind_assoc]
  show (eval c e s).followedBy _ = _
  congr
  funext r s
  cases r <;> rfl

/-- An action that makes one call, of a function that asks for nothing, runs to its result. -/
theorem perform_of_call {x : Action Completion} {f : Callable} {this : Value} {args : List Value}
    {s₁ s₂ s₃ : Store} {resume : Except Fault Completion → Store → Step Completion}
    {r r' : Except Fault Completion} (hask : x s = .ask (.call f this args) s₁ resume)
    (hcall : enter f this args s₁ = .done r s₂) (hresume : resume r s₂ = .done r' s₃) :
    x.perform s = ⟨r', s₃, 0⟩ := by
  have hdeep : 0 < maxDepth := by decide
  -- one step into the function, one out of it, and the last one
  have hrun (bound : Nat) :
      Machine.run (bound + 1 + 1 + 1) ⟨[], 0, .ask (.call f this args) s₁ resume⟩ =
        some ⟨r', s₃, 0⟩ := by
    rw [Machine.run_succ_of_next (Machine.next_call hdeep), hcall]
    show Machine.run (bound + 1) ⟨[], 0, resume r s₂⟩ = _
    rw [hresume]
    rfl
  -- of the bound on steps only that it is larger than three matters
  have hsteps : maxSteps = maxSteps - 3 + 1 + 1 + 1 := rfl
  unfold perform Machine.start
  rw [hask, hsteps, hrun]
  rfl

/-- Setting a property of a variable's value to a literal. -/
theorem eval_assign_member {name : Name} {key : String} {l : Literal} {s' : Store}
    (hlookup : s.lookup? c.scope name = some (.object ref))
    (hset : setProperty (.object ref) key l.value s = .done (.ok ()) s') :
    eval c (.assign none (.member (.ident name) key) (.literal l)) s = .done (.ok l.value) s' := by
  have hplace : evalPlace c (.member (.ident name) key) s =
      .done (.ok (.property (.object ref) key)) s := by
    simp only [evalPlace, eval]
    rw [bind_of_done (getVariable_of_lookup? hlookup)]
    rfl
  simp only [eval]
  rw [bind_of_done hplace, pure_bind]
  -- the value is a literal, so it is the write that decides
  exact bind_of_done hset _

/-- Calling a method of a variable's value with literals. -/
theorem eval_call_method {name : Name} {key : String} {n : Native}
    (hlookup : s.lookup? c.scope name = some (.object ref))
    (hget : getProperty (.object ref) key s = makeNative n s) (literals : List Literal) :
    eval c (.call (.member (.ident name) key) (literals.map .literal ++ [])) s =
      .ask (.call (.native n) (.object ref) (literals.map Literal.value ++ []))
        (s.addObject (.function (.native n))).2 fun answer s =>
          .done (answer.map Completion.value) s := by
  -- reading the method makes a new function, which is what is called
  have hmake : makeNative n s = .done (.ok (.object ⟨s.objects.size⟩))
      (s.addObject (.function (.native n))).2 := rfl
  have hmade : (s.addObject (.function (.native n))).2.callable? (.object ⟨s.objects.size⟩) =
      some (.native n) := by
    have hobject : (s.addObject (.function (.native n))).2.object ⟨s.objects.size⟩ =
        .function (.native n) := s.object_addObject _
    simp only [Store.callable?, Store.objectOf?, hobject]
    rfl
  simp only [eval]
  rw [bind_of_done (getVariable_of_lookup? hlookup), bind_of_done (hget.trans hmake),
    bind_of_done (evalAll_literals literals rfl), callValue_of_callable? hmade]

/-- A program of three expressions, of which the last calls a function that asks for nothing. -/
theorem perform_exprs {e₁ e₂ e₃ : Expr} {v₁ v₂ : Value} {s₁ s₂ s₃ s₄ : Store} {f : Callable}
    {this : Value} {args : List Value} {completion : Completion}
    (h₁ : eval c e₁ s = .done (.ok v₁) s₁) (h₂ : eval c e₂ s₁ = .done (.ok v₂) s₂)
    (h₃ : eval c e₃ s₂ = .ask (.call f this args) s₃ fun answer s =>
      .done (answer.map Completion.value) s)
    (hcall : enter f this args s₃ = .done (.ok completion) s₄) :
    (runBody c [.expr e₁, .expr e₂, .expr e₃]).perform s = ⟨.ok .normal, s₄, 0⟩ := by
  have hbody : runBody c [.expr e₁, .expr e₂, .expr e₃] s =
      runAll c [.expr e₁, .expr e₂, .expr e₃] s := rfl
  -- two expressions are done, and the third one leaves its request
  rw [runAll_expr, h₁, Step.followedBy, runAll_expr, h₂, Step.followedBy, runAll_expr, h₃,
    Step.followedBy] at hbody
  exact perform_of_call hbody hcall rfl

end Action

namespace Step.Ends

variable {α β : Type} {d : Nat} {s s' : Store}

/-- A step that is done comes to its result and nothing else. -/
theorem done_iff {r r' : Except Fault α} : Ends d (.done r s) r' s' d ↔ r' = r ∧ s' = s := by
  constructor
  · intro h
    cases h
    exact ⟨rfl, rfl⟩
  · rintro ⟨rfl, rfl⟩
    exact .done

/-- Two actions one after the other: what the second comes to after the value of the first, or the
    fault of the first, after which there is nothing. -/
theorem bind_iff {x : Action α} {f : α → Action β} {r : Except Fault β} :
    Ends d ((x >>= f) s) r s' d ↔
      (∃ a middle, Ends d (x s) (.ok a) middle d ∧ Ends d (f a middle) r s' d) ∨
      ∃ fault, Ends d (x s) (.error fault) s' d ∧ r = .error fault := by
  constructor
  · intro h
    obtain ⟨a, middle, d', hx, hf⟩ := followedBy_iff.mp h
    obtain rfl := hx.depth_eq
    cases a with
    | ok a => exact .inl ⟨a, middle, hx, hf⟩
    | error fault =>
      obtain ⟨rfl, rfl⟩ := done_iff.mp hf
      exact .inr ⟨fault, hx, rfl⟩
  · rintro (⟨a, middle, hx, hf⟩ | ⟨fault, hx, rfl⟩)
    · exact hx.followedBy hf
    · exact hx.followedBy .done

/-- An action that gives a value in two parts gives one in the first. -/
theorem of_bind {x : Action α} {f : α → Action β} {b : β}
    (h : Ends d ((x >>= f) s) (.ok b) s' d) :
    ∃ a middle, Ends d (x s) (.ok a) middle d ∧ Ends d (f a middle) (.ok b) s' d := by
  -- a fault in the first part would be that of the whole
  rcases bind_iff.mp h with hvalue | ⟨fault, -, hfault⟩
  · exact hvalue
  · cases hfault

/-- What a call comes to that is all there is to do: what its function comes to, one level
    deeper. -/
theorem ask_call_iff {f : Callable} {this : Value} {args : List Value}
    {g : Except Fault Completion → Except Fault α} {r : Except Fault α} (hd : d < maxDepth) :
    Ends d (.ask (.call f this args) s fun answer s => .done (g answer) s) r s' d ↔
      ∃ a, Ends (d + 1) (Action.enter f this args s) a s' (d + 1) ∧ r = g a := by
  constructor
  · intro h
    cases h with
    | refused hdeep => exact absurd hd (Nat.not_lt.mpr hdeep)
    | call _ hcall hrest =>
      obtain rfl := hcall.depth_eq
      obtain ⟨rfl, rfl⟩ := done_iff.mp hrest
      exact ⟨_, hcall, rfl⟩
  · rintro ⟨a, hcall, rfl⟩
    exact .call hd hcall .done

/-- A call that gives a value has entered its function, which ended without a fault. -/
theorem of_call {f this v : Value} {args : List Value} {callable : Callable}
    (hf : s.callable? f = some callable)
    (h : Ends d (Action.call f this args s) (.ok v) s' d) :
    ∃ completion, Ends (d + 1) (Action.enter callable this args s) (.ok completion) s' (d + 1) := by
  rw [Action.call_of_callable? hf] at h
  by_cases hd : d < maxDepth
  · obtain ⟨a, hcall, ha⟩ := (ask_call_iff hd).mp h
    cases a with
    | error fault => cases ha
    | ok completion => exact ⟨completion, hcall⟩
  · -- a refused call has no value
    cases h with
    | refused _ hrest =>
      obtain ⟨hfault, -⟩ := done_iff.mp hrest
      cases hfault
    | call hlt => exact absurd hlt hd

/-- A call of an expression's value is a call. -/
theorem of_callValue {callee : Expr} {f this v : Value} {args : List Value} {callable : Callable}
    (hf : s.callable? f = some callable)
    (h : Ends d (Action.callValue callee f this args s) (.ok v) s' d) :
    ∃ completion, Ends (d + 1) (Action.enter callable this args s) (.ok completion) s' (d + 1) := by
  rw [Action.callValue_of_callable? hf, ← Action.call_of_callable? hf] at h
  exact of_call hf h

end Step.Ends

end Descramble
