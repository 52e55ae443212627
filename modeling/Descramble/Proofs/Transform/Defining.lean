import Descramble.Transform.Candidate

/-!
# The functions that a statement defines

A statement defines a function by a function declaration, by an assignment to a variable, or as the
initial value of a declared name. Only a declaration of names can define several, and then they come
in source order.

Main statements: `Stmt.mem_functions_iff` and `Stmt.findSome?_functions_eq_some_iff`.
-/

namespace Descramble

/-- An expression gives a function where it is a function expression, under any name or none. -/
theorem Expr.function?_eq_some_iff {e : Expr} {f : Function} :
    e.function? = some f ↔ ∃ id, e = .function id f := by
  cases e <;> simp [function?]

/-- The same for an initializer that may be missing. -/
theorem Expr.function?_bind_eq_some_iff {init : Option Expr} {f : Function} :
    init.bind function? = some f ↔ ∃ id, init = some (.function id f) := by
  cases init <;> simp [function?_eq_some_iff]

namespace Stmt

/-- Whether a statement defines a function of a name. -/
inductive Defines : Stmt → Name → Function → Prop
  | declaration {name : Name} {f : Function} : Defines (.function name f) name f
  | assigned {name : Name} {id : Option Name} {f : Function} :
      Defines (.expr (.assign none (.ident name) (.function id f))) name f
  | declared {d : Declaration} {name : Name} {id : Option Name} {f : Function}
      (h : ⟨name, some (.function id f)⟩ ∈ d.declarators) : Defines (.declare d) name f

/-- Whether a function is the first with a property among those that a statement defines. -/
inductive DefinesFirst (P : Function → Prop) : Stmt → Name → Function → Prop
  | declaration {name : Name} {f : Function} (hf : P f) : DefinesFirst P (.function name f) name f
  | assigned {name : Name} {id : Option Name} {f : Function} (hf : P f) :
      DefinesFirst P (.expr (.assign none (.ident name) (.function id f))) name f
  | declared {kind : DeclarationKind} {before after : List Declarator} {name : Name}
      {id : Option Name} {f : Function}
      (hbefore : ∀ x ∈ before, ∀ id g, x.init = some (.function id g) → ¬ P g) (hf : P f) :
      DefinesFirst P (.declare ⟨kind, before ++ ⟨name, some (.function id f)⟩ :: after⟩) name f

variable {s : Stmt} {name : Name} {f : Function} {P : Function → Prop}

/-- The functions of a statement are those that it defines. -/
theorem mem_functions_iff : (name, f) ∈ s.functions ↔ s.Defines name f := by
  constructor
  · intro h
    unfold functions at h
    -- a declaration of a function, an assignment to a name, or declared names
    split at h
    · obtain ⟨rfl, rfl⟩ := Prod.mk.inj (List.mem_singleton.mp h)
      exact .declaration
    · obtain ⟨g, hg, hgf⟩ := Option.map_eq_some_iff.mp (Option.mem_toList.mp h)
      obtain ⟨rfl, rfl⟩ := Prod.mk.inj hgf
      obtain ⟨id, rfl⟩ := Expr.function?_eq_some_iff.mp hg
      exact .assigned
    · obtain ⟨⟨target, init⟩, hx, hinit⟩ := List.mem_filterMap.mp h
      obtain ⟨g, hg, hgf⟩ := Option.map_eq_some_iff.mp hinit
      obtain ⟨rfl, rfl⟩ := Prod.mk.inj hgf
      obtain ⟨id, rfl⟩ := Expr.function?_bind_eq_some_iff.mp hg
      exact .declared hx
    · cases h
  -- each way to define a function puts it into the list
  · rintro (_ | _ | hx)
    · exact .head _
    · exact .head _
    · exact List.mem_filterMap.mpr ⟨_, hx, rfl⟩

/-- The first function with a property has it. -/
theorem DefinesFirst.holds (h : s.DefinesFirst P name f) : P f := by
  obtain hf | hf | ⟨_, hf⟩ := h <;> exact hf

/-- The first function with a property comes after functions without it. -/
theorem definesFirst_iff :
    s.DefinesFirst P name f ↔
      ∃ before after, s.functions = before ++ (name, f) :: after ∧ P f ∧
        ∀ g ∈ before, ¬ P g.2 := by
  constructor
  · rintro (hf | hf | @⟨kind, before, after, _, id, _, hbefore, hf⟩)
    · exact ⟨[], [], rfl, hf, nofun⟩
    · exact ⟨[], [], rfl, hf, nofun⟩
    · refine ⟨(declare ⟨kind, before⟩).functions, (declare ⟨kind, after⟩).functions, ?_, hf, ?_⟩
      · simp only [functions, List.filterMap_append, List.filterMap_cons]
        rfl
      · rintro ⟨other, g⟩ hg
        obtain ⟨_, _, _⟩ | ⟨_⟩ | hx := mem_functions_iff.mp hg
        exact hbefore _ hx _ g rfl
  · rintro ⟨before, after, hfunctions, hf, hbefore⟩
    have hmem : (name, f) ∈ s.functions := by
      rw [hfunctions]
      exact List.mem_append_right before (.head after)
    -- only a declaration can define another function before
    obtain _ | _ | @⟨⟨kind, declarators⟩, _, _, _, _⟩ := mem_functions_iff.mp hmem
    · exact .declaration hf
    · exact .assigned hf
    -- the declarators before it that define a function define one without the property
    · obtain ⟨front, rest, rfl, hfront, hrest⟩ := List.filterMap_eq_append_iff.mp hfunctions
      obtain ⟨skipped, ⟨target, init⟩, back, rfl, hskipped, hx, -⟩ :=
        List.filterMap_eq_cons_iff.mp hrest
      obtain ⟨g, hg, hgf⟩ := Option.map_eq_some_iff.mp hx
      obtain ⟨rfl, rfl⟩ := Prod.mk.inj hgf
      obtain ⟨id, rfl⟩ := Expr.function?_bind_eq_some_iff.mp hg
      rw [← List.append_assoc]
      refine .declared (fun y hy id' g' hinit => ?_) hf
      obtain ⟨other, init⟩ := y
      obtain rfl : init = _ := hinit
      rcases List.mem_append.mp hy with hy | hy
      · exact hbefore (other, g') (hfront ▸ List.mem_filterMap.mpr ⟨_, hy, rfl⟩)
      · cases hskipped _ hy

/-- Looking among the functions with so many parameters passes over the others. -/
theorem findSome?_functionsOfArity_eq (s : Stmt) (arity : Nat)
    (g : Name × Function → Option Candidate) :
    (s.functionsOfArity arity).findSome? g =
      s.functions.findSome? fun x => if x.2.params.length = arity then g x else none := by
  unfold functionsOfArity
  -- function by function, whether it has so many parameters or not
  induction s.functions with
  | nil => rfl
  | cons x rest ih =>
    by_cases hx : x.2.params.length = arity <;> simp [List.findSome?_cons, hx, ih]

section FindSome

variable {g : Name × Function → Option Candidate}
  (hP : ∀ name f, P f ↔ ∃ c, g (name, f) = some c)

include hP

/-- Where just the functions with a property give a candidate, the first of them gives it. -/
theorem findSome?_functions_eq_some_iff {c : Candidate} :
    s.functions.findSome? g = some c ↔
      ∃ name f, s.DefinesFirst P name f ∧ g (name, f) = some c := by
  simp only [definesFirst_iff, List.findSome?_eq_some_iff]
  constructor
  -- those before it give no candidate, so they have not the property
  · rintro ⟨before, ⟨name, f⟩, after, hfunctions, hc, hbefore⟩
    refine ⟨name, f, ⟨before, after, hfunctions, (hP name f).mpr ⟨c, hc⟩, fun x hx hx' => ?_⟩, hc⟩
    obtain ⟨c', hc'⟩ := (hP x.1 x.2).mp hx'
    rw [hbefore x hx] at hc'
    cases hc'
  · rintro ⟨name, f, ⟨before, after, hfunctions, -, hbefore⟩, hc⟩
    refine ⟨before, (name, f), after, hfunctions, hc, fun x hx => ?_⟩
    exact Option.eq_none_iff_forall_ne_some.mpr fun c' hc' =>
      hbefore x hx ((hP x.1 x.2).mpr ⟨c', hc'⟩)

/-- No candidate is given where no function that is defined has the property. -/
theorem findSome?_functions_eq_none_iff :
    s.functions.findSome? g = none ↔ ∀ name f, s.Defines name f → ¬ P f := by
  have hnone (name : Name) (f : Function) : g (name, f) = none ↔ ¬ P f := by
    rw [hP, Option.eq_none_iff_forall_ne_some, not_exists]
  simp only [List.findSome?_eq_none_iff, Prod.forall, mem_functions_iff, hnone]

end FindSome

end Stmt

end Descramble
