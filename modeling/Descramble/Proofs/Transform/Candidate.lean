import Descramble.Proofs.Reader.Production
import Descramble.Proofs.Transform.Guard

/-!
# What a statement gives

The candidates of a statement without the shapes: an alias in a `var` declaration or an assignment
goes before any function, and a function counts whichever way it is bound.

Main statements: `Candidate.leading_of_ofStatement?`, a candidate calls its function with the token
alone or with one literal before it; `Candidate.sound_of_ofStatement?`, what it names and passes was
written in the statement.
-/

namespace Descramble

/-! ## Parts of a statement -/

section Everywhere

variable {P : Part → Prop}

/-- The body of a function expression lies in it. -/
theorem Expr.everywhere_of_function? {e : Expr} {f : Function}
    (he : Part.Everywhere P (.expr e)) (h : e.function? = some f) :
    ∀ s ∈ f.body, Part.Everywhere P (.stmt s) := by
  unfold Expr.function? at h
  split at h
  · cases h
    exact fun s hs => he.inside (List.mem_map_of_mem hs)
  · cases h

namespace Stmt

variable {s : Stmt}

/-- The initial value of a declarator lies in its declaration. -/
theorem everywhere_of_init {d : Declaration} {x : Declarator} {e : Expr}
    (hd : Part.Everywhere P (.stmt (.declare d))) (hx : x ∈ d.declarators) (he : x.init = some e) :
    Part.Everywhere P (.expr e) :=
  hd.inside (List.mem_map_of_mem (List.mem_filterMap.mpr ⟨x, hx, he⟩))

/-- The functions that a statement binds lie in it. -/
theorem everywhere_of_functions {name : Name} {f : Function} (hs : Part.Everywhere P (.stmt s))
    (h : (name, f) ∈ s.functions) : ∀ st ∈ f.body, Part.Everywhere P (.stmt st) := by
  -- a declared function, an assigned one, or one in a declarator
  obtain _ | _ | hx := mem_functions_iff.mp h
  · exact fun st hst => hs.inside (List.mem_map_of_mem hst)
  · exact Expr.everywhere_of_function? ((hs.inside (.head _)).inside (.tail _ (.head _))) rfl
  · exact Expr.everywhere_of_function? (everywhere_of_init hs hx rfl) rfl

/-- What a guarded call calls and passes lies in the statement. -/
theorem everywhere_of_guardedCall? {callee : Name} {args : List Expr}
    (hs : Part.Everywhere P (.stmt s)) (h : s.guardedCall? = some (callee, args)) :
    Part.Everywhere P (.expr (.ident callee)) ∧ ∀ e ∈ args, Part.Everywhere P (.expr e) := by
  unfold guardedCall? at h
  split at h
  · obtain ⟨rfl, rfl⟩ := Prod.mk.inj (Option.some.inj h)
    -- the call stands on the right of the first assignment of the guarded sequence
    have hsequence := (hs.inside (.head _)).inside (.tail _ (.head _))
    have hcall := (hsequence.inside (.head _)).inside (.tail _ (.head _))
    exact ⟨hcall.inside (.head _), fun e he => hcall.inside (.tail _ (List.mem_map_of_mem he))⟩
  · cases h

end Stmt

end Everywhere

/-! ## Well-formed statements give well-formed names -/

/-- The name in a list of one identifier can be written. -/
theorem Expr.isName_of_soleIdent? {e : Expr} {name : Name} (hsound : e.Sound)
    (h : e.soleIdent? = some name) : IsName name := by
  unfold Expr.soleIdent? at h
  split at h
  · cases h
    exact (hsound.inside (.head _)).here
  · cases h

namespace Stmt

/-- A function is bound to a name that can be written. -/
theorem isName_of_functions {s : Stmt} {name : Name} {f : Function} (hsound : s.Sound)
    (h : (name, f) ∈ s.functions) : IsName name := by
  obtain _ | _ | hx := mem_functions_iff.mp h
  · exact hsound.here.1
  · exact ((hsound.inside (.head _)).inside (.head _)).here
  · exact hsound.here.2 _ hx

/-- What a statement aliases is a name that can be written. -/
theorem isName_of_aliased? {s : Stmt} {name : Name} (hsound : s.Sound)
    (h : s.aliased? = some name) : IsName name := by
  -- an alias stands in a declarator or on the right of an assignment
  unfold aliased? at h
  split at h
  · obtain ⟨⟨target, init⟩, hx, hinit⟩ := List.exists_of_findSome?_eq_some h
    obtain ⟨e, he, hname⟩ := Option.bind_eq_some_iff.mp hinit
    exact Expr.isName_of_soleIdent? (everywhere_of_init hsound hx he) hname
  · exact Expr.isName_of_soleIdent? ((hsound.inside (.head _)).inside (.tail _ (.head _))) h
  · cases h

end Stmt

/-- The guard of a function is one of its statements. -/
theorem Function.mem_of_guard? {f : Function} {s : Stmt} (h : f.guard? = some s) : s ∈ f.body := by
  obtain ⟨before, last, hbody⟩ := guard?_eq_some_iff.mp h
  rw [hbody]
  exact List.mem_append_right before (.head _)

/-! ## The candidates of a statement -/

namespace Candidate

/-- Whether a candidate's names and arguments can be written. -/
def Sound (c : Candidate) : Prop :=
  IsName c.callee ∧ ∀ e ∈ c.leading, e.Sound

/-- What holds of the few parts that a wrapper adds to what a candidate passes holds everywhere in
    the wrapper. -/
theorem everywhere_wrapper {P : Part → Prop} {c : Candidate} (hwrapper : P (.expr c.wrapper))
    (hcall : ∀ args, P (.expr (.call (.ident c.callee) args)))
    (hcallee : P (.expr (.ident c.callee))) (hparam : P (.expr (.ident c.transform.name)))
    (h : ∀ e ∈ c.leading, Part.Everywhere P (.expr e)) :
    Part.Everywhere P (.expr c.wrapper) := by
  refine .intro hwrapper fun part hpart => ?_
  rw [List.mem_singleton.mp hpart]
  -- the call has its callee, what the candidate passes, and the parameter
  refine .intro (hcall _) fun part hpart => ?_
  rcases List.mem_cons.mp hpart with rfl | hpart
  · exact .intro hcallee nofun
  · obtain ⟨e, he, rfl⟩ := List.mem_map.mp hpart
    rcases List.mem_append.mp he with he | he
    · exact h e he
    · rw [List.mem_singleton.mp he]
      exact .intro hparam nofun

/-- A statement without functions of a number of parameters need not be looked at. -/
theorem findSome?_functionsOfArity (s : Stmt) (count : Nat)
    (g : Name × Function → Option Candidate) :
    (if (Shape.function count).accepts (.stmt s) then (s.functionsOfArity count).findSome? g
      else none) = (s.functionsOfArity count).findSome? g := by
  by_cases h : (Shape.function count).accepts (.stmt s)
  · rw [if_pos h]
  · rw [if_neg h]
    -- a function of that number of parameters would have given the statement the shape
    cases hs : s.functionsOfArity count with
    | nil => rfl
    | cons named rest =>
      have hmem : (named.1, named.2) ∈ s.functionsOfArity count := hs ▸ List.mem_cons_self
      exact absurd (Shape.accepts_function hmem) h

/-- Only the shape of an alias has to be checked: the functions that a statement binds tell the shape
    of a function. -/
theorem n?_eq (s : Stmt) :
    n? s = if Shape.aliasing.accepts (.stmt s) then s.aliased?.map fun name => ⟨.n, name, []⟩
      else (s.functionsOfArity 1).findSome? fun (name, f) => ofDecoy? name f := by
  unfold n?
  rw [findSome?_functionsOfArity]

/-- The signature candidate comes from the functions alone. -/
theorem sig?_eq (s : Stmt) :
    sig? s = (s.functionsOfArity 3).findSome? fun (_, f) => ofCallGuard? f :=
  findSome?_functionsOfArity s 3 _

/-- A decoy gives a candidate that passes the token alone to the function it is bound to. -/
theorem ofDecoy?_eq_some {name : Name} {f : Function} {c : Candidate}
    (h : ofDecoy? name f = some c) : c = ⟨.n, name, []⟩ := by
  obtain ⟨guard, _, hguard⟩ := Option.bind_eq_some_iff.mp h
  -- only a guard of the right shape that tests the first parameter makes a decoy
  by_cases hshape : Shape.decoyGuard.accepts (.stmt guard) &&
      guard.decoyOperand? == f.params.head?
  · rw [if_pos hshape] at hguard
    exact (Option.some.inj hguard).symm
  · rw [if_neg hshape] at hguard
    cases hguard

/-- A call guard passes on the token, or a literal and the token. -/
theorem ofCallGuard?_eq_some {f : Function} {c : Candidate} (h : ofCallGuard? f = some c) :
    ∃ guard ∈ f.body, ∃ callee args, guard.guardedCall? = some (callee, args) ∧
      ∃ l : Option Literal, c = ⟨.sig, callee, l.toList.map .literal⟩ ∧
        ∀ e ∈ l.toList.map Expr.literal, e ∈ args := by
  obtain ⟨guard, hbody, hguard⟩ := Option.bind_eq_some_iff.mp h
  refine ⟨guard, Function.mem_of_guard? hbody, ?_⟩
  by_cases hshape : Shape.callGuard.accepts (.stmt guard)
  · rw [if_pos hshape] at hguard
    -- the token alone, or something before it; more arguments give no candidate
    split at hguard
    · rename_i callee token hcall
      exact ⟨callee, [token], hcall, none, (Option.some.inj hguard).symm, nofun⟩
    · rename_i callee first token hcall
      obtain ⟨l, rfl⟩ := Shape.literal_of_accepts_callGuard hshape hcall
      refine ⟨callee, [.literal l, token], hcall, some l, (Option.some.inj hguard).symm, ?_⟩
      intro e he
      rw [List.mem_singleton.mp he]
      exact .head _
    · cases hguard
  · rw [if_neg hshape] at hguard
    cases hguard

section OfStatement

variable {t : Transform} {s : Stmt} {c : Candidate}

/-- Where a candidate for the `n` transform comes from. -/
theorem n?_eq_some (h : n? s = some c) :
    ∃ name, c = ⟨.n, name, []⟩ ∧ (s.aliased? = some name ∨ ∃ f, (name, f) ∈ s.functions) := by
  rw [n?_eq] at h
  -- an alias goes first, and then any function that is a decoy
  split at h
  · obtain ⟨name, hname, rfl⟩ := Option.map_eq_some_iff.mp h
    exact ⟨name, rfl, .inl hname⟩
  · obtain ⟨⟨name, f⟩, hf, hc⟩ := List.exists_of_findSome?_eq_some h
    exact ⟨name, ofDecoy?_eq_some hc, .inr ⟨f, (List.mem_filter.mp hf).1⟩⟩

/-- Where a candidate for the signature transform comes from. -/
theorem sig?_eq_some (h : sig? s = some c) :
    ∃ name f, (name, f) ∈ s.functions ∧ ofCallGuard? f = some c := by
  rw [sig?_eq] at h
  obtain ⟨⟨name, f⟩, hf, hc⟩ := List.exists_of_findSome?_eq_some h
  exact ⟨name, f, (List.mem_filter.mp hf).1, hc⟩

/-- A candidate is one for the transform it was looked for. -/
theorem transform_of_ofStatement? (h : ofStatement? t s = some c) : c.transform = t := by
  cases t with
  | n =>
    obtain ⟨name, rfl, _⟩ := n?_eq_some h
    rfl
  | sig =>
    obtain ⟨_, f, _, hf⟩ := sig?_eq_some h
    obtain ⟨_, _, _, _, _, _, rfl, _⟩ := ofCallGuard?_eq_some hf
    rfl

/-- A candidate passes at most one argument before the token, a literal. -/
theorem leading_of_ofStatement? (h : ofStatement? t s = some c) :
    ∃ l : Option Literal, c.leading = l.toList.map .literal := by
  cases t with
  | n =>
    obtain ⟨name, rfl, _⟩ := n?_eq_some h
    exact ⟨none, rfl⟩
  | sig =>
    obtain ⟨_, f, _, hf⟩ := sig?_eq_some h
    obtain ⟨_, _, _, _, _, l, rfl, _⟩ := ofCallGuard?_eq_some hf
    exact ⟨l, rfl⟩

/-- What a candidate passes lies in the statement that gives it. -/
theorem everywhere_of_ofStatement? {P : Part → Prop} (hs : Part.Everywhere P (.stmt s))
    (h : ofStatement? t s = some c) : ∀ e ∈ c.leading, Part.Everywhere P (.expr e) := by
  cases t with
  | n =>
    obtain ⟨name, rfl, _⟩ := n?_eq_some h
    exact nofun
  | sig =>
    obtain ⟨_, f, hf, hc⟩ := sig?_eq_some h
    obtain ⟨guard, hguard, callee, args, hcall, l, rfl, hargs⟩ := ofCallGuard?_eq_some hc
    have hbody := Stmt.everywhere_of_functions hs hf guard hguard
    exact fun e he => (Stmt.everywhere_of_guardedCall? hbody hcall).2 e (hargs e he)

/-- What a candidate names and passes is as well-formed as the statement that gives it. -/
theorem sound_of_ofStatement? (hsound : s.Sound) (h : ofStatement? t s = some c) : c.Sound := by
  refine ⟨?_, everywhere_of_ofStatement? hsound h⟩
  -- the callee is an alias or a bound name for `n`, and what the guard calls for the signature
  cases t with
  | n =>
    obtain ⟨name, rfl, halias | ⟨f, hf⟩⟩ := n?_eq_some h
    · exact Stmt.isName_of_aliased? hsound halias
    · exact Stmt.isName_of_functions hsound hf
  | sig =>
    obtain ⟨_, f, hf, hc⟩ := sig?_eq_some h
    obtain ⟨guard, hguard, callee, args, hcall, l, rfl, _⟩ := ofCallGuard?_eq_some hc
    have hbody := Stmt.everywhere_of_functions hsound hf guard hguard
    exact (Stmt.everywhere_of_guardedCall? hbody hcall).1.here

end OfStatement

end Candidate

end Descramble
