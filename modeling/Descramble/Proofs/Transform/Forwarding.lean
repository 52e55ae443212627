import Descramble.Proofs.Evaluation.Doing
import Descramble.Proofs.Printer.RoundTrip
import Descramble.Proofs.Transform.Candidate
import Descramble.Proofs.Value.Growth

/-!
# What a wrapper calls

The wrapper of a candidate takes a token and calls the candidate's function with it. It does so
under a parameter of its own, which hides a function of the same name: a script whose function is
called `n` gets a wrapper that calls the token.

Main statements: `Candidate.wrapper_forwards`, a wrapper whose parameter hides nothing makes one
call, of the function that the candidate names, and gives back what that comes to;
`Candidate.wrapper_hides`, the other wrappers do not.
-/

namespace Descramble.Candidate

open Descramble.Action

variable {c : Candidate} {context : Context} {s : Store}

/-- What runs when the wrapper is called that was made in a context. -/
def forwarder (c : Candidate) (context : Context) : Callable :=
  .arrow [c.transform.name]
    (.expr (.call (.ident c.callee) (c.leading ++ [.ident c.transform.name])))
    context.scope context.this

/-- The store in which the body of a wrapper runs: a new scope binds the token. -/
def Inside (c : Candidate) (context : Context) (token : Value) (s : Store) : Store :=
  (s.addScope context.scope).2.bind ⟨s.scopes.size⟩ c.transform.name token

/-- Evaluating a wrapper makes a function. -/
theorem eval_wrapper (c : Candidate) (context : Context) (s : Store) :
    eval context c.wrapper s =
      .done (.ok (.object ⟨s.objects.size⟩)) (s.addObject (.function (c.forwarder context))).2 :=
  rfl

/-- The scope of a wrapper's body binds the token, inside the scope that the wrapper was made in. -/
theorem scope_inside (token : Value) :
    (c.Inside context token s).scope ⟨s.scopes.size⟩ =
      ⟨Bindings.empty.insert c.transform.name token, some context.scope⟩ := by
  -- the scope is the newest, so the binding goes into it
  have hlt : (⟨s.scopes.size⟩ : ScopeRef).index < (s.addScope context.scope).2.scopes.size := by
    rw [Store.size_addScope]
    exact Nat.lt_succ_self _
  have hnew : (s.addScope context.scope).2.scope ⟨s.scopes.size⟩ = ⟨.empty, some context.scope⟩ :=
    s.scope_addScope context.scope
  unfold Inside Store.bind
  rw [Store.scope_modifyScope hlt, hnew]

/-- The scopes that were there before are as they were. -/
theorem scope_inside_of_lt (token : Value) {ref : ScopeRef} (hlt : ref.index < s.scopes.size) :
    (c.Inside context token s).scope ref = s.scope ref := by
  have hne : ref ≠ ⟨s.scopes.size⟩ := by
    rintro rfl
    exact Nat.lt_irrefl _ hlt
  unfold Inside Store.bind
  rw [Store.scope_modifyScope_of_ne _ hne, Store.scope_addScope_of_lt hlt]

/-- The parameter of a wrapper means the token in its body. -/
theorem lookup?_param (token : Value) :
    (c.Inside context token s).lookup? ⟨s.scopes.size⟩ c.transform.name = some token :=
  Store.lookup?_of_get?_eq_some (by rw [scope_inside, Bindings.get?_insert_self])

/-- Any other name means in the body of a wrapper what it means around the wrapper. -/
theorem lookup?_inside (hs : s.Nested) (hscope : context.scope.index < s.scopes.size)
    (token : Value) {name : Name} (hne : name ≠ c.transform.name) :
    (c.Inside context token s).lookup? ⟨s.scopes.size⟩ name = s.lookup? context.scope name := by
  have hinside : (c.Inside context token s).Nested :=
    (hs.addScope hscope).modifyScope _ fun names => names.insert c.transform.name token
  have hnone : ((c.Inside context token s).scope ⟨s.scopes.size⟩).names.get? name = none := by
    rw [scope_inside, Bindings.get?_insert_of_ne _ _ hne, Bindings.get?_empty]
  have hparent : ((c.Inside context token s).scope ⟨s.scopes.size⟩).parent =
      some context.scope := by
    rw [scope_inside]
  -- the wrapper's scope knows only its parameter, so the search goes on around it
  rw [hinside.lookup?_of_get?_eq_none hnone hparent]
  refine hs.lookup?_congr (fun other hle => ?_) rfl
  exact scope_inside_of_lt token (Nat.lt_of_le_of_lt hle hscope)

/-- Where the callee is a function and the parameter the token, the body of a wrapper asks for a
    call. -/
theorem eval_body (context : Context) {f token : Value} {callable : Callable}
    {literals : List Literal}
    (hcallee : s.lookup? context.scope c.callee = some f) (hf : s.callable? f = some callable)
    (htoken : s.lookup? context.scope c.transform.name = some token)
    (hleading : c.leading = literals.map .literal) :
    eval context (.call (.ident c.callee) (c.leading ++ [.ident c.transform.name])) s =
      .ask (.call callable .undefined (literals.map Literal.value ++ [token])) s
        fun answer s => .done (answer.map Completion.value) s := by
  -- literals give their values, and the parameter the token
  have hlast : evalAll context [.ident c.transform.name] s = .done (.ok [token]) s := by
    simp only [evalAll, eval]
    rw [bind_of_done (getVariable_of_lookup? htoken)]
    rfl
  simp only [eval]
  rw [bind_of_done (getVariable_of_lookup? hcallee), hleading,
    bind_of_done (evalAll_literals literals hlast), callValue_of_callable? hf]

/-- The body of a wrapper asks for one call, of the function that the name means around the wrapper,
    and has what that gives back. -/
theorem enter_forwarder (hs : s.Nested) (hscope : context.scope.index < s.scopes.size)
    (hne : c.callee ≠ c.transform.name) {f : Value} {callable : Callable}
    (hlookup : s.lookup? context.scope c.callee = some f) (hf : s.callable? f = some callable)
    {literals : List Literal} (hleading : c.leading = literals.map .literal) (this token : Value) :
    Action.enter (c.forwarder context) this [token] s =
      .ask (.call callable .undefined (literals.map Literal.value ++ [token]))
        (c.Inside context token s) fun answer s =>
          .done (answer.map fun completion => .gaveBack completion.value) s := by
  have hcallee := (lookup?_inside hs hscope token hne).trans hlookup
  have hf' : (c.Inside context token s).callable? f = some callable := hf
  -- the wrapper's own scope hides its parameter's name only, and the callee has another
  have hbody := eval_body ⟨⟨s.scopes.size⟩, context.this⟩ hcallee hf' (lookup?_param token) hleading
  show (eval ⟨⟨s.scopes.size⟩, context.this⟩
    (.call (.ident c.callee) (c.leading ++ [.ident c.transform.name]))
    (c.Inside context token s)).followedBy _ = _
  rw [hbody]
  show Step.ask _ _ _ = Step.ask _ _ _
  congr
  funext answer s'
  cases answer <;> rfl

/-- The body of a wrapper gives back the value of the call in it, and so does the wrapper. -/
theorem value_gaveBack (a : Except Fault Completion) :
    (a.map fun completion => Completion.gaveBack completion.value).map Completion.value =
      a.map Completion.value := by
  cases a <;> rfl

/-- The wrapper of a candidate, where the name that it calls is a function and not hidden by the
    parameter: it makes one call, of that function with the literal and the token, and comes to what
    the function comes to, two levels deeper. -/
theorem wrapper_forwards {t : Transform} {st : Stmt} (h : ofStatement? t st = some c)
    (hne : c.callee ≠ c.transform.name) (hs : s.Nested)
    (hscope : context.scope.index < s.scopes.size) {f : Value} {callable : Callable}
    (hlookup : s.lookup? context.scope c.callee = some f) (hf : s.callable? f = some callable)
    (token : String) :
    ∃ literal : Option Literal, c.leading = literal.toList.map .literal ∧
      ∃ w made inside, eval context c.wrapper s = .done (.ok w) made ∧
        made.callable? w = some (c.forwarder context) ∧
        (∀ this, Action.enter (c.forwarder context) this [.text token] made =
          .ask (.call callable .undefined (literal.toList.map Literal.value ++ [.text token])) inside
            fun answer s => .done (answer.map fun completion => .gaveBack completion.value) s) ∧
        ∀ d r s', d + 2 ≤ maxDepth →
          ((Action.call w .undefined [.text token] made).Ends d r s' d ↔
            ∃ a, (Action.enter callable .undefined
                (literal.toList.map Literal.value ++ [.text token]) inside).Ends
                  (d + 2) a s' (d + 2) ∧
              r = a.map Completion.value) := by
  obtain ⟨literal, hleading⟩ := leading_of_ofStatement? h
  let made := (s.addObject (.function (c.forwarder context))).2
  -- the wrapper is one more object; what was there before is still there
  obtain ⟨ref, rfl, hkind⟩ := Store.callable?_eq_some_iff.mp hf
  have hlt := Store.lt_of_kind_eq_function hkind
  have hlt' : ObjectRef.global.index < s.objects.size := Nat.zero_lt_of_lt hlt
  have hglobal : made.object .global = s.object .global := Store.object_addObject_of_lt hlt' _
  have hmade : made.Nested := ⟨hs.root_lt, hs.root_parent, hs.parent⟩
  have hf' : made.callable? (.object ref) = some callable :=
    Store.callable?_eq_some_iff.mpr ⟨ref, rfl, by rw [Store.object_addObject_of_lt hlt, hkind]⟩
  have hscopes : ∀ other : ScopeRef, other.index ≤ context.scope.index →
      made.scope other = s.scope other :=
    fun _ _ => rfl
  have hlookup' : made.lookup? context.scope c.callee = some (.object ref) :=
    (hs.lookup?_congr hscopes hglobal).trans hlookup
  have hw : made.callable? (.object ⟨s.objects.size⟩) = some (c.forwarder context) :=
    Store.callable?_eq_some_iff.mpr ⟨_, rfl, by
      rw [show made.object ⟨s.objects.size⟩ = _ from s.object_addObject _]
      rfl⟩
  have henter := fun this =>
    enter_forwarder hmade hscope hne hlookup' hf' hleading this (.text token)
  refine ⟨literal, hleading, .object ⟨s.objects.size⟩, made, c.Inside context (.text token) made,
    eval_wrapper c context s, hw, henter, fun d r s' hd => ?_⟩
  -- the call of the wrapper and the call in its body each go one level down
  rw [call_of_callable? hw, Step.Ends.ask_call_iff (by omega)]
  constructor
  · rintro ⟨_, hends, rfl⟩
    rw [henter, Step.Ends.ask_call_iff (by omega)] at hends
    obtain ⟨a, hends, rfl⟩ := hends
    exact ⟨a, hends, value_gaveBack a⟩
  · rintro ⟨a, hends, rfl⟩
    refine ⟨_, ?_, (value_gaveBack a).symm⟩
    rw [henter, Step.Ends.ask_call_iff (by omega)]
    exact ⟨a, hends, rfl⟩

/-! ## Examples of wrappers -/

/-- The statement of an alias. -/
def aliasing (name : Name) : Stmt :=
  .declare ⟨.functionScoped, [⟨"k", some (.array [.ident name])⟩]⟩

/-- A store in which a name is the function that gives back the text of its argument. -/
def storeWith (name : Name) : Store :=
  (Store.empty.addObject (.function (.native .textOf))).2.setOwn .global name (.object ⟨1⟩)

/-- Its scopes are nested, since only the global object was written to. -/
theorem nested_storeWith (name : Name) : (storeWith name).Nested := by
  have hempty : Store.empty.WellScoped name := Store.wellScoped_empty
  have hadd := hempty.leads_addObject (o := .function (.native .textOf)) (by rintro _ ⟨⟩; trivial)
  exact (hadd.wellScoped.leads_setOwn .global name (.object ⟨1⟩)).wellScoped.toNested

/-- The wrapper of an alias of `b` gives back what `b` gives back. -/
theorem wrapper_forwards_alias :
    ofStatement? .n (aliasing "b") = some ⟨.n, "b", []⟩ ∧
    ∃ w made s', eval ⟨.root, .undefined⟩ (wrapper ⟨.n, "b", []⟩) (storeWith "b") =
        .done (.ok w) made ∧
      (Action.call w .undefined [.text "token"] made).Ends 0 (.ok (.text "token")) s' 0 := by
  have hcandidate : ofStatement? .n (aliasing "b") = some ⟨.n, "b", []⟩ := rfl
  refine ⟨hcandidate, ?_⟩
  let context : Context := ⟨.root, .undefined⟩
  have hscope : context.scope.index < (storeWith "b").scopes.size := by decide
  have hcallable : (storeWith "b").callable? (.object ⟨1⟩) = some (.native .textOf) := rfl
  obtain ⟨literal, hleading, w, made, inside, heval, -, -, hends⟩ :=
    wrapper_forwards hcandidate (by decide) (nested_storeWith "b") hscope rfl hcallable "token"
  refine ⟨w, made, inside, heval, (hends 0 _ inside (by decide)).mpr ?_⟩
  refine ⟨.ok (.gaveBack (.text "token")), ?_, rfl⟩
  -- an alias passes no literal
  cases literal with
  | none => exact .done
  | some l => cases hleading

/-- The wrapper of an alias of `n` calls its own token: it throws, and calls no function. -/
theorem wrapper_hides :
    Program.parse "var k=[n];" = .ok ⟨[aliasing "n"]⟩ ∧
    ofStatement? .n (aliasing "n") = some ⟨.n, "n", []⟩ ∧
    (storeWith "n").Nested ∧
    (storeWith "n").lookup? .root "n" = some (.object ⟨1⟩) ∧
    (storeWith "n").callable? (.object ⟨1⟩) = some (.native .textOf) ∧
    ∃ w made, eval ⟨.root, .undefined⟩ (wrapper ⟨.n, "n", []⟩) (storeWith "n") =
        .done (.ok w) made ∧
      ∃ callable, made.callable? w = some callable ∧
        ∃ thrown s', Action.enter callable .undefined [.text "token"] made =
          .done (.error (.thrown thrown)) s' :=
  ⟨by decide +kernel, rfl, nested_storeWith "n", rfl, rfl, _, _, rfl, _, rfl, _, _, rfl⟩

end Descramble.Candidate
