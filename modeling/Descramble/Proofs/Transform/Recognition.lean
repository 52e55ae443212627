import Descramble.Proofs.Transform.Candidate

/-!
# What is recognized as a transform

A statement gives a candidate when it has one of a few forms, said here as conditions on its tree. A
declaration can have a form several times over, and a statement the forms of both transforms; the
first declarator of the right form counts, and for the `n` transform an alias before any function.

Main statements: `Candidate.n?_recognizes` and `Candidate.sig?_recognizes`.
-/

namespace Descramble

/-! ## The forms -/

namespace Stmt

/-- Whether a statement makes an alias of a name: the first in a `var` declaration, or an
    assignment to a variable. -/
inductive Aliases : Stmt → Name → Prop
  | declared {before after : List Declarator} {name target : Name}
      (hbefore : ∀ x ∈ before, ∀ other, x.init ≠ some (.array [.ident other])) :
      Aliases (.declare ⟨.functionScoped,
        before ++ ⟨name, some (.array [.ident target])⟩ :: after⟩) target
  | assigned {name target : Name} :
      Aliases (.expr (.assign none (.ident name) (.array [.ident target]))) target

end Stmt

namespace Function

/-- Whether a function of one parameter has a guard that returns a decoy with its parameter. -/
def IsDecoyed (f : Function) : Prop :=
  ∃ param guard, f.params = [param] ∧ f.HasGuard guard ∧ guard.ReturnsDecoy param

/-- Whether a function of three parameters has a guard that calls `callee`. -/
def GuardsCall (f : Function) (callee : Name) (leading : List Expr) : Prop :=
  f.params.length = 3 ∧ ∃ guard, f.HasGuard guard ∧ guard.GuardsCall callee leading

end Function

/-! ## Aliases -/

/-- The sole name in an expression is that of the one variable in an array of one. -/
theorem Expr.soleIdent?_eq_some_iff {e : Expr} {name : Name} :
    e.soleIdent? = some name ↔ e = .array [.ident name] := by
  unfold soleIdent?
  split
  · simp
  · rename_i hnone
    simp only [reduceCtorEq, false_iff]
    exact hnone name

/-- The sole name in an initializer is that of the one variable in an array of one. -/
theorem Expr.soleIdent?_bind_eq_some_iff {init : Option Expr} {name : Name} :
    init.bind soleIdent? = some name ↔ init = some (.array [.ident name]) := by
  simp [Option.bind_eq_some_iff, soleIdent?_eq_some_iff]

/-- An expression has the shape of an alias if it is an assignment of such an array to a variable.
    -/
theorem Shape.accepts_aliasing_expr_iff {e : Expr} :
    aliasing.accepts (.stmt (.expr e)) = true ↔
      ∃ name target, e = .assign none (.ident name) (.array [.ident target]) := by
  simp only [aliasing, Pattern.accepts_either_iff, accepts_expressionStatement_iff,
    accepts_assignment_iff, accepts_singleIdentArray_expr, Option.isSome_iff_exists,
    Expr.soleIdent?_eq_some_iff]
  constructor
  · rintro (hdeclaration | ⟨_, heq, name, _, rfl, target, rfl⟩)
    · cases (Pattern.accepts_node_iff.mp hdeclaration).1
    · cases heq
      exact ⟨name, target, rfl⟩
  · rintro ⟨name, target, rfl⟩
    exact .inr ⟨_, rfl, name, _, rfl, target, rfl⟩

namespace Stmt

variable {s : Stmt} {name : Name}

/-- In a declaration the declarators are searched in turn. -/
theorem aliased?_declare (d : Declaration) :
    (declare d).aliased? = d.declarators.findSome? fun x => x.init.bind Expr.soleIdent? :=
  congrArg (List.findSome? · d.declarators) (funext fun ⟨_, _⟩ => rfl)

/-- What a declaration aliases is the name in its first declarator with an array of one variable. -/
theorem aliased?_declare_eq_some_iff {d : Declaration} :
    (declare d).aliased? = some name ↔
      ∃ before x after, d.declarators = before ++ x :: after ∧
        x.init = some (.array [.ident name]) ∧
        ∀ y ∈ before, ∀ other, y.init ≠ some (.array [.ident other]) := by
  simp only [aliased?_declare, List.findSome?_eq_some_iff, Expr.soleIdent?_bind_eq_some_iff,
    Option.eq_none_iff_forall_ne_some, ne_eq]

/-- What a statement aliases, if it has the shape of an alias. -/
theorem aliases_iff :
    s.Aliases name ↔ Shape.aliasing.accepts (.stmt s) = true ∧ s.aliased? = some name := by
  constructor
  · rintro (@⟨before, after, target, _, hbefore⟩ | @⟨target, _⟩)
    · refine ⟨?_, aliased?_declare_eq_some_iff.mpr ⟨before, _, after, rfl, rfl, hbefore⟩⟩
      rw [Shape.accepts_aliasing_declare]
      simp [Expr.soleIdent?]
    · exact ⟨Shape.accepts_aliasing_expr_iff.mpr ⟨target, name, rfl⟩, rfl⟩
  · rintro ⟨hshape, hname⟩
    -- the shape tells which names are allowed around what the search has found
    cases s with
    | declare d =>
      rw [Shape.accepts_aliasing_declare, Bool.and_eq_true] at hshape
      obtain ⟨before, x, after, hd, hx, hbefore⟩ := aliased?_declare_eq_some_iff.mp hname
      obtain ⟨kind, declarators⟩ := d
      obtain ⟨target, init⟩ := x
      obtain rfl : kind = .functionScoped := eq_of_beq hshape.1
      cases hd
      cases hx
      exact .declared hbefore
    | expr e =>
      obtain ⟨target, name', rfl⟩ := Shape.accepts_aliasing_expr_iff.mp hshape
      cases hname
      exact .assigned
    | _ => cases hname

/-- What has the shape of an alias makes one. -/
theorem exists_aliases_of_accepts (h : Shape.aliasing.accepts (.stmt s)) :
    ∃ name, s.Aliases name := by
  -- so it is enough that the search finds something
  suffices haliased : ∃ name, s.aliased? = some name by
    obtain ⟨name, hname⟩ := haliased
    exact ⟨name, aliases_iff.mpr ⟨h, hname⟩⟩
  cases s with
  | declare d =>
    rw [Shape.accepts_aliasing_declare, Bool.and_eq_true] at h
    rw [aliased?_declare]
    exact Option.isSome_iff_exists.mp
      (List.findSome?_isSome_iff.mpr (List.any_eq_true.mp h.2))
  | expr e =>
    obtain ⟨target, name, rfl⟩ := Shape.accepts_aliasing_expr_iff.mp h
    exact ⟨name, rfl⟩
  | _ => cases h

end Stmt

/-! ## Candidates -/

namespace Candidate

/-- What a function gives for the `n` transform. -/
theorem decoyed_iff {name : Name} {f : Function} {c : Candidate} :
    (if f.params.length = 1 then ofDecoy? name f else none) = some c ↔
      f.IsDecoyed ∧ c = ⟨.n, name, []⟩ := by
  constructor
  · intro h
    split at h
    · rename_i hlength
      refine ⟨?_, ofDecoy?_eq_some h⟩
      obtain ⟨guard, hguard, hgives⟩ := Option.bind_eq_some_iff.mp h
      split at hgives
      · rename_i hdecoy
        obtain ⟨hshape, hoperand⟩ := Bool.and_eq_true_iff.mp hdecoy
        obtain ⟨param, hparams⟩ := List.length_eq_one_iff.mp hlength
        obtain ⟨operand, hreturns⟩ := Shape.accepts_decoyGuard_iff.mp hshape
        rw [hreturns.decoyOperand?_eq, hparams] at hoperand
        obtain rfl : operand = param := Option.some.inj (eq_of_beq hoperand)
        exact ⟨operand, guard, hparams, Function.guard?_eq_some_iff.mp hguard, hreturns⟩
      · cases hgives
    · cases h
  · rintro ⟨⟨param, guard, hparams, hguard, hreturns⟩, rfl⟩
    -- the guard passes the shape, and its operand is the one parameter
    have hshape := Shape.accepts_decoyGuard_iff.mpr ⟨param, hreturns⟩
    simp [ofDecoy?, hguard.guard?_eq, hshape, hreturns.decoyOperand?_eq, hparams]

/-- What a function gives for the signature transform. -/
theorem guardsCall_iff {f : Function} {c : Candidate} :
    (if f.params.length = 3 then ofCallGuard? f else none) = some c ↔
      ∃ callee leading, f.GuardsCall callee leading ∧ c = ⟨.sig, callee, leading⟩ := by
  -- a guard of the right shape calls with one argument or two
  have hguarded {guard : Stmt} {callee : Name} {leading : List Expr} (hguard : f.HasGuard guard)
      (hcall : guard.GuardsCall callee leading) :
      ofCallGuard? f = some ⟨.sig, callee, leading⟩ := by
    have hshape := Shape.accepts_callGuard_iff.mpr ⟨callee, leading, hcall⟩
    obtain ⟨l, token, rfl, hargs⟩ := hcall.guardedCall?_eq
    cases l <;> simp [ofCallGuard?, hguard.guard?_eq, hshape, hargs]
  constructor
  · intro h
    split at h
    · rename_i hlength
      obtain ⟨guard, hguard, hgives⟩ := Option.bind_eq_some_iff.mp h
      split at hgives
      · rename_i hshape
        replace hguard := Function.guard?_eq_some_iff.mp hguard
        obtain ⟨callee, leading, hcall⟩ := Shape.accepts_callGuard_iff.mp hshape
        rw [hguarded hguard hcall] at h
        cases h
        exact ⟨callee, leading, ⟨hlength, guard, hguard, hcall⟩, rfl⟩
      · cases hgives
    · cases h
  · rintro ⟨callee, leading, ⟨hlength, guard, hguard, hcall⟩, rfl⟩
    rw [if_pos hlength, hguarded hguard hcall]

section OfForm

variable {s : Stmt} {name : Name}

/-- An alias gives the candidate, whatever functions there are in the statement. -/
theorem n?_of_aliases (h : s.Aliases name) : n? s = some ⟨.n, name, []⟩ := by
  obtain ⟨hshape, hname⟩ := Stmt.aliases_iff.mp h
  rw [n?_eq, if_pos hshape, hname]
  rfl

/-- Without an alias the functions of one parameter are searched for a decoy. -/
theorem n?_of_not_aliases (h : ∀ name, ¬ s.Aliases name) :
    n? s = s.functions.findSome? fun x =>
      if x.2.params.length = 1 then ofDecoy? x.1 x.2 else none := by
  have hshape : ¬ Shape.aliasing.accepts (.stmt s) = true := by
    intro hshape
    obtain ⟨name, halias⟩ := Stmt.exists_aliases_of_accepts hshape
    exact h name halias
  rw [n?_eq, if_neg hshape, Stmt.findSome?_functionsOfArity_eq]

end OfForm

variable (s : Stmt)

/-- A statement gives a candidate for the `n` transform if it aliases a name or defines a function
    with a decoy. An alias goes before all functions, and of several aliases or functions the
    first gives the candidate. -/
theorem n?_recognizes :
    (∀ c, n? s = some c ↔
      (∃ name, s.Aliases name ∧ c = ⟨.n, name, []⟩) ∨
      (∀ name, ¬ s.Aliases name) ∧
        ∃ name f, s.DefinesFirst Function.IsDecoyed name f ∧ c = ⟨.n, name, []⟩) ∧
    (n? s = none ↔
      (∀ name, ¬ s.Aliases name) ∧ ∀ name f, s.Defines name f → ¬ f.IsDecoyed) := by
  -- with an alias the functions are never looked at
  by_cases halias : ∃ name, s.Aliases name
  · obtain ⟨name, halias⟩ := halias
    rw [n?_of_aliases halias]
    refine ⟨fun c => ⟨fun hc => ?_, ?_⟩, nofun, fun h => absurd halias (h.1 name)⟩
    · exact .inl ⟨name, halias, (Option.some.inj hc).symm⟩
    · rintro (⟨other, hother, rfl⟩ | ⟨hnone, -⟩)
      · rw [← n?_of_aliases halias, n?_of_aliases hother]
      · exact absurd halias (hnone name)
  · have hnone : ∀ name, ¬ s.Aliases name := not_exists.mp halias
    -- the test in the search says that a function is decoyed
    have hdecoyed (name : Name) (f : Function) : f.IsDecoyed ↔
        ∃ c, (if f.params.length = 1 then ofDecoy? name f else none) = some c := by
      simp only [decoyed_iff, exists_and_left, exists_eq, and_true]
    rw [n?_of_not_aliases hnone, Stmt.findSome?_functions_eq_none_iff hdecoyed]
    refine ⟨fun c => ?_, fun h => ⟨hnone, h⟩, And.right⟩
    rw [Stmt.findSome?_functions_eq_some_iff hdecoyed]
    constructor
    · rintro ⟨name, f, hfirst, hc⟩
      exact .inr ⟨hnone, name, f, hfirst, (decoyed_iff.mp hc).2⟩
    · rintro (⟨name, halias, -⟩ | ⟨-, name, f, hfirst, rfl⟩)
      · exact absurd halias (hnone name)
      · exact ⟨name, f, hfirst, decoyed_iff.mpr ⟨hfirst.holds, rfl⟩⟩

/-- An array in a `let` is no alias, so a function after it counts. -/
example : n? (.declare ⟨.blockScoped, [⟨"a", some (.array [.ident "b"])⟩,
    ⟨"f", some (.function none ⟨["x"], [.attempt [] (some ⟨none,
      [.giveBack (some (.binary (.arithmetic .add) (.ident "y") (.ident "x")))]⟩) none,
        .empty]⟩)⟩]⟩) = some ⟨.n, "f", []⟩ := by
  rfl

/-- A statement gives a candidate for the signature transform if it defines a function with a
    guarded call, and the first such function gives it. What has the shape of a guarded call is
    one, and passes on one argument or two. -/
theorem sig?_recognizes :
    (∀ c, sig? s = some c ↔
      ∃ name f callee leading,
        s.DefinesFirst (fun g => ∃ callee leading, g.GuardsCall callee leading) name f ∧
        f.GuardsCall callee leading ∧ c = ⟨.sig, callee, leading⟩) ∧
    (sig? s = none ↔
      ∀ name f, s.Defines name f → ∀ callee leading, ¬ f.GuardsCall callee leading) ∧
    ∀ guard : Stmt, Shape.callGuard.accepts (.stmt guard) = true ↔
      ∃ callee leading token, guard.GuardsCall callee leading ∧
        guard.guardedCall? = some (callee, leading ++ [token]) ∧
        (leading = [] ∨ ∃ l, leading = [.literal l]) := by
  -- the test in the search says that a function has a guarded call
  have hguards (name : Name) (f : Function) : (∃ callee leading, f.GuardsCall callee leading) ↔
      ∃ c, (if f.params.length = 3 then ofCallGuard? f else none) = some c := by
    simp only [guardsCall_iff]
    exact ⟨fun ⟨callee, leading, h⟩ => ⟨_, callee, leading, h, rfl⟩,
      fun ⟨_, callee, leading, h, _⟩ => ⟨callee, leading, h⟩⟩
  rw [sig?_eq, Stmt.findSome?_functionsOfArity_eq, Stmt.findSome?_functions_eq_none_iff hguards]
  refine ⟨fun c => ?_, ?_, fun guard => ?_⟩
  · rw [Stmt.findSome?_functions_eq_some_iff hguards]
    simp only [guardsCall_iff, exists_and_left]
  · simp only [not_exists]
  · rw [Shape.accepts_callGuard_iff]
    constructor
    · rintro ⟨callee, leading, hcall⟩
      obtain ⟨l, token, rfl, hargs⟩ := hcall.guardedCall?_eq
      refine ⟨callee, _, token, hcall, hargs, ?_⟩
      -- before the token stands a literal or nothing
      cases l with
      | none => exact .inl rfl
      | some l => exact .inr ⟨l, rfl⟩
    · rintro ⟨callee, leading, _, hcall, -⟩
      exact ⟨callee, leading, hcall⟩

end Candidate

end Descramble
