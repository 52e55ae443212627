import Descramble.Proofs.Evaluation.Script

/-!
# Getting to a statement

A script may fail anywhere. Where it comes to its end, it got past all statements that lead nowhere
else, and into each function that it calls on the way.

Main statements: `ends_runBody_append`, the statements at the end of a body are run if none before
them leads out of it; `enters_of_direct` and `enters_of_method`, a call gets into the function.
-/

namespace Descramble

open Descramble.Action

/-! ## Statements that lead nowhere else -/

/-- What may end in no other way ends normally. -/
theorem Completion.within_nil {completion : Completion} :
    completion.Within [] ↔ completion = .normal := by
  cases completion <;> simp [Within]

section Sequence

variable {name : Name} (hargs : name ≠ "arguments") {c : Context} {d : Nat} {s s' : Store}
  {first rest : List Stmt}

include hargs

/-- Statements that lead nowhere else are run before those after them. -/
theorem ends_runAll_append (hs : s.WellScoped name) (hc : c.scope.index < s.scopes.size)
    (hspares : ∀ st ∈ first, Part.Everywhere (Part.Spares name) (.stmt st))
    (hjumps : Stmt.jumpsAll first = []) {completion : Completion}
    (h : (runAll c (first ++ rest) s).Ends d (.ok completion) s' d) :
    ∃ middle, s.Leads name middle ∧
      (runAll c rest middle).Ends d (.ok completion) s' d := by
  induction first generalizing s with
  | nil => exact ⟨s, hs.leads, h⟩
  | cons st sts ih =>
    rw [Stmt.jumpsAll, List.append_eq_nil_iff] at hjumps
    rw [List.forall_mem_cons] at hspares
    obtain ⟨result, middle, hfirst, hrest⟩ := Step.Ends.of_bind h
    have hkept := hfirst.of_meets hargs (run_keeps hspares.1 hc s hs (Nat.le_refl _))
    -- it has no way out, and it came to an end
    have hnormal : result = .normal := by
      rw [← Completion.within_nil, ← hjumps.1]
      exact hkept.2 result rfl
    subst hnormal
    obtain ⟨last, hlast, hends⟩ := ih hkept.1.wellScoped
      (Nat.lt_of_lt_of_le hc hkept.1.scopes_le) hspares.2 hjumps.2 hrest
    exact ⟨last, hkept.1.trans hlast, hends⟩

/-- The same in the body of a function or a program, where names and functions are declared
    first. -/
theorem ends_runBody_append (hs : s.WellScoped name) (hc : c.scope.index < s.scopes.size)
    (hspares : ∀ st ∈ first ++ rest, Part.Everywhere (Part.Spares name) (.stmt st))
    (hjumps : Stmt.jumpsAll first = []) {completion : Completion}
    (h : (runBody c (first ++ rest) s).Ends d (.ok completion) s' d) :
    ∃ middle, s.Leads name middle ∧
      (runAll c rest middle).Ends d (.ok completion) s' d := by
  -- names first, then functions, and neither changes what the name stands for
  obtain ⟨_, named, hnamed, h⟩ := Step.Ends.of_bind h
  have hnamed := (hnamed.of_meets hargs (declareNames_keeps (c := c)
    (Stmt.not_mem_hoistedAll hspares) s hs (Nat.le_refl _))).1
  obtain ⟨_, declared, hdeclared, h⟩ := Step.Ends.of_bind h
  have hdeclared := (hdeclared.of_meets hargs (declareFunctions_keeps hspares
    (Nat.lt_of_lt_of_le hc hnamed.scopes_le) named hnamed.wellScoped (Nat.le_refl _))).1
  have hleads := hnamed.trans hdeclared
  obtain ⟨middle, hmiddle, hends⟩ := ends_runAll_append hargs hleads.wellScoped
    (Nat.lt_of_lt_of_le hc hleads.scopes_le)
    (fun st hst => hspares st (List.mem_append_left _ hst)) hjumps h
  exact ⟨middle, hleads.trans hmiddle, hends⟩

end Sequence

/-! ## The call of the module -/

/-- Whether a run from a store gets into the body of a function, and that comes to its end. -/
def Enters (name : Name) (s : Store) (definition : Function) (s' : Store) : Prop :=
  ∃ (d : Nat) (c : Context) (start : Store) (completion : Completion), s.Leads name start ∧
    c.scope.index < start.scopes.size ∧
      (runBody c definition.body start).Ends d (.ok completion) s' d

section Call

variable {name : Name} (hargs : name ≠ "arguments") {c : Context} {d : Nat} {s s' : Store}
  {own : Option Name} {definition : Function} {es : List Expr} {v : Value}

/-- A function that is made is an object without properties. -/
theorem exists_of_makeFunction
    (h : (makeFunction c own definition s).Ends d (.ok v) s' d) :
    ∃ ref scope, v = .object ref ∧ s'.object ref = .function (.closure definition scope) := by
  -- a function with a name of its own has a scope with that name around it
  cases own with
  | none =>
    obtain ⟨hv, rfl⟩ := Step.Ends.done_iff.mp h
    cases hv
    exact ⟨_, c.scope, rfl, Store.object_addObject _ _⟩
  | some own =>
    obtain ⟨hv, rfl⟩ := Step.Ends.done_iff.mp h
    cases hv
    exact ⟨_, _, rfl, Store.object_addObject _ _⟩

/-- A function has its methods as long as it has no properties. -/
theorem getProperty_of_function {ref : ObjectRef} {callable : Callable} {key : String} {n : Native}
    (h : s.object ref = .function callable) (hn : Native.functionMethod? key = some n) :
    getProperty (.object ref) key s = makeNative n s := by
  show getOfObject ref key s = _
  unfold getOfObject
  rw [read_bind, h]
  simp only [Object.function, Object.ofKind, Object.get?, Bindings.get?_empty, ObjectKind.method?,
    hn]

/-- A native function that is made can be called. -/
theorem callable?_of_makeNative {n : Native}
    (h : (makeNative n s).Ends d (.ok v) s' d) : s'.callable? v = some (.native n) := by
  obtain ⟨hv, rfl⟩ := Step.Ends.done_iff.mp h
  cases hv
  have hobject := s.object_addObject (.function (.native n))
  exact Store.callable?_eq_some_iff.mpr ⟨_, rfl, congrArg Object.kind hobject⟩

/-- What comes before does not matter, if it leaves the name alone. -/
theorem Enters.of_leads {middle : Store} (h : Enters name middle definition s')
    (hleads : s.Leads name middle) : Enters name s definition s' := by
  obtain ⟨d, c, start, completion, hstart, hc, hends⟩ := h
  exact ⟨d, c, start, completion, hleads.trans hstart, hc, hends⟩

include hargs

/-- A function that is called gets to its body, in a scope of its own. -/
theorem enters_of_enter (hs : s.WellScoped name) {scope : ScopeRef}
    (hscope : scope.index < s.scopes.size) (hparams : name ∉ definition.params) {this : Value}
    {args : List Value} {completion : Completion}
    (h : (Action.enter (.closure definition scope) this args s).Ends d (.ok completion)
      s' d) : Enters name s definition s' := by
  -- the scope of the call is the next one; parameters and `arguments` are bound in it
  let inner : ScopeRef := ⟨s.scopes.size⟩
  have hadd := hs.leads_addScope hscope
  have hparam := hadd.wellScoped.leads_bindParams inner hparams args
  have hlist := hparam.wellScoped.leads_addObject (o := .list args.toArray) nofun
  have hbound := hlist.wellScoped.leads_bindIfNew hargs inner
    (.object ⟨((s.addScope scope).2.bindParams inner definition.params args).objects.size⟩)
  have hafter := hparam.trans (hlist.trans hbound)
  have hinner : inner.index < (s.addScope scope).2.scopes.size := by
    rw [Store.size_addScope]
    exact Nat.lt_succ_self _
  exact ⟨d, _, _, completion, hadd.trans hafter, Nat.lt_of_lt_of_le hinner hafter.scopes_le, h⟩

/-- A call of a function gets to the function. -/
theorem enters_of_direct (hs : s.WellScoped name) (hc : c.scope.index < s.scopes.size)
    (hown : name ∉ own) (hdef : definition.Spares name)
    (hes : ∀ e ∈ es, Part.Everywhere (Part.Spares name) (.expr e))
    (h : (eval c (.call (.function own definition) es) s).Ends d (.ok v) s' d) :
    Enters name s definition s' := by
  obtain ⟨f, made, hmade, h⟩ := Step.Ends.of_bind h
  obtain ⟨ref, scope, rfl, hobject⟩ := exists_of_makeFunction hmade
  have hmade := (hmade.of_meets hargs
    (makeFunction_keeps hown hdef hc s hs (Nat.le_refl _))).1
  -- the arguments may run anything, but the function stays what it is
  obtain ⟨args, start, hstart, h⟩ := Step.Ends.of_bind h
  have hstart := (hstart.of_meets hargs (evalAll_keeps (fun e he => eval_keeps (hes e he)
    (Nat.lt_of_lt_of_le hc hmade.scopes_le)) made hmade.wellScoped (Nat.le_refl _))).1
  have hkind : (made.object ref).kind = .function (.closure definition scope) := by
    rw [hobject]
    rfl
  have hcallable := hstart.callable?_eq (Store.callable?_eq_some_iff.mpr ⟨ref, rfl, hkind⟩)
  obtain ⟨completion, hends⟩ := Step.Ends.of_callValue hcallable h
  have hscope := Nat.lt_of_lt_of_le (hmade.wellScoped.code ref _ hkind).2 hstart.scopes_le
  exact (enters_of_enter hargs hstart.wellScoped hscope hdef.1 hends).of_leads
    (hmade.trans hstart)

/-- Running one of the two methods of a function that call it gets to the function. -/
theorem enters_of_native (hs : s.WellScoped name) {f : Value} {scope : ScopeRef}
    (hf : s.callable? f = some (.closure definition scope)) {n : Native}
    (hn : n = .call ∨ n = .apply) {args : List Value}
    (h : (runNative n f args s).Ends d (.ok v) s' d) : Enters name s definition s' := by
  obtain ⟨ref, -, hkind⟩ := Store.callable?_eq_some_iff.mp hf
  obtain ⟨hdef, hscope⟩ := hs.code ref _ hkind
  -- one of them takes its arguments one by one and the other from an array
  rcases hn with rfl | rfl
  · obtain ⟨completion, hends⟩ := Step.Ends.of_call hf h
    exact enters_of_enter hargs hs hscope hdef.1 hends
  · obtain ⟨list, start, hstart, h⟩ := Step.Ends.of_bind h
    have hstart := (hstart.of_meets hargs ((spreadArguments_scopeless _).keeps s hs (Nat.zero_le _))).1
    obtain ⟨completion, hends⟩ := Step.Ends.of_call (hstart.callable?_eq hf) h
    exact (enters_of_enter hargs hstart.wellScoped (Nat.lt_of_lt_of_le hscope hstart.scopes_le)
      hdef.1 hends).of_leads hstart

/-- So does a call of such a method in a script. -/
theorem enters_of_method (hs : s.WellScoped name) (hc : c.scope.index < s.scopes.size)
    (hown : name ∉ own) (hdef : definition.Spares name)
    (hes : ∀ e ∈ es, Part.Everywhere (Part.Spares name) (.expr e)) {method : Name}
    (hmethod : method = "call" ∨ method = "apply")
    (h : (eval c (.call (.member (.function own definition) method) es) s).Ends d
      (.ok v) s' d) :
    Enters name s definition s' := by
  obtain ⟨n, hn, hlabel⟩ : ∃ n, Native.functionMethod? method = some n ∧
      (n = .call ∨ n = .apply) := by
    rcases hmethod with rfl | rfl
    · exact ⟨.call, rfl, .inl rfl⟩
    · exact ⟨.apply, rfl, .inr rfl⟩
  obtain ⟨f, made, hmade, h⟩ := Step.Ends.of_bind h
  obtain ⟨ref, scope, rfl, hobject⟩ := exists_of_makeFunction hmade
  have hmade := (hmade.of_meets hargs
    (makeFunction_keeps hown hdef hc s hs (Nat.le_refl _))).1
  have hkind : (made.object ref).kind = .function (.closure definition scope) := by
    rw [hobject]
    rfl
  -- the method is one more function, made when it is read
  obtain ⟨g, got, hgot, h⟩ := Step.Ends.of_bind h
  -- nothing has put a property into the new function that could hide the method
  rw [getProperty_of_function hobject hn] at hgot
  have hleads := (hgot.of_meets hargs
    ((Scopeless.makeNative n).keeps made hmade.wellScoped (Nat.le_refl _))).1
  obtain ⟨args, start, hstart, h⟩ := Step.Ends.of_bind h
  have hstart := (hstart.of_meets hargs (evalAll_keeps (fun e he => eval_keeps (hes e he)
    (Nat.lt_of_lt_of_le hc (hmade.trans hleads).scopes_le)) _ hleads.wellScoped (Nat.le_refl _))).1
  have hnative := hstart.callable?_eq (callable?_of_makeNative hgot)
  -- the method is native: running it calls the function that it was read from
  obtain ⟨completion, hends⟩ := Step.Ends.of_callValue hnative h
  obtain ⟨value, last, hrun, hlast⟩ := Step.Ends.of_bind hends
  obtain ⟨-, rfl⟩ := Step.Ends.done_iff.mp hlast
  have hcallable := (hleads.trans hstart).callable?_eq
    (Store.callable?_eq_some_iff.mpr ⟨ref, rfl, hkind⟩)
  exact (enters_of_native hargs hstart.wellScoped hcallable hlabel hrun).of_leads
    (hmade.trans (hleads.trans hstart))

end Call

end Descramble
