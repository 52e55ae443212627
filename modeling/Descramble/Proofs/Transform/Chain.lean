import Descramble.Proofs.Transform.Assembly
import Descramble.Proofs.Transform.Candidate

/-!
# Chains of declarators

A declaration can bind many names, but it gives one candidate for a transform at most: an alias goes
before a function, and of two alike the first one counts. So a chain hides what its other
declarators would give on their own.

Main statements: `candidatesIn_split_eq_nil_iff`, a chain gives no candidate only if none of its
declarators does; `reduce_split`, a script whose chains are taken apart is as ambiguous as its
chains.
-/

namespace Descramble

/-- A statement with its chain of declarators taken apart. -/
def Stmt.split : Stmt → List Stmt
  | .declare d => d.declarators.map fun x => .declare ⟨d.kind, [x]⟩
  | s => [s]

/-! ## One declarator -/

section Declarator

variable {d : Declaration} {x : Declarator} {name : Name} {f : Function} {arity : Nat}

/-- The functions of a declaration are those of its declarators. -/
theorem Stmt.mem_functionsOfArity_declare :
    (name, f) ∈ (Stmt.declare d).functionsOfArity arity ↔
      ∃ x ∈ d.declarators, (name, f) ∈ (Stmt.declare ⟨d.kind, [x]⟩).functionsOfArity arity := by
  simp only [functionsOfArity, functions, List.mem_filter, List.mem_filterMap, List.mem_singleton,
    exists_eq_left]
  constructor
  · rintro ⟨⟨x, hx, hname⟩, harity⟩
    exact ⟨x, hx, hname, harity⟩
  · rintro ⟨x, hx, hname, harity⟩
    exact ⟨⟨x, hx, hname⟩, harity⟩

/-- A single declarator binds one function at most. -/
theorem Stmt.functionsOfArity_of_mem {kind : DeclarationKind}
    (h : (name, f) ∈ (Stmt.declare ⟨kind, [x]⟩).functionsOfArity arity) :
    (Stmt.declare ⟨kind, [x]⟩).functionsOfArity arity = [(name, f)] := by
  obtain ⟨hmem, harity⟩ := List.mem_filter.mp h
  obtain _ | _ | hx := mem_functions_iff.mp hmem
  obtain rfl := List.mem_singleton.mp hx
  exact List.filter_eq_self.mpr fun named hnamed => by
    rw [List.mem_singleton.mp hnamed]
    exact harity

namespace Candidate

variable {c : Candidate} {g : Name × Function → Option Candidate}

/-- What the functions of a chain give, some declarator's function gives. -/
theorem exists_of_findSome?_declare
    (h : ((Stmt.declare d).functionsOfArity arity).findSome? g = some c) :
    ∃ x ∈ d.declarators, (∃ e f, x.init = some e ∧ e.function? = some f) ∧
      ((Stmt.declare ⟨d.kind, [x]⟩).functionsOfArity arity).findSome? g = some c := by
  obtain ⟨⟨name, f⟩, hf, hc⟩ := List.exists_of_findSome?_eq_some h
  -- the function stands in a declarator, which binds no other
  obtain ⟨x, hx, hmem⟩ := Stmt.mem_functionsOfArity_declare.mp hf
  refine ⟨x, hx, ?_, ?_⟩
  · obtain _ | _ | hdefined := Stmt.mem_functions_iff.mp (List.mem_filter.mp hmem).1
    obtain rfl := List.mem_singleton.mp hdefined
    exact ⟨_, f, rfl, rfl⟩
  · rw [Stmt.functionsOfArity_of_mem hmem, List.findSome?_cons, hc]

/-- Where no function of a chain gives a candidate, none of a single declarator does. -/
theorem findSome?_declarator_eq_none
    (h : ((Stmt.declare d).functionsOfArity arity).findSome? g = none) (hx : x ∈ d.declarators) :
    ((Stmt.declare ⟨d.kind, [x]⟩).functionsOfArity arity).findSome? g = none := by
  refine List.findSome?_eq_none_iff.mpr fun named hnamed => ?_
  exact List.findSome?_eq_none_iff.mp h named
    (Stmt.mem_functionsOfArity_declare.mpr ⟨x, hx, hnamed⟩)

/-! ## A chain's candidate -/

/-- A single declarator is an alias if it is declared with `var` and lists one identifier. -/
theorem accepts_aliasing_declarator (kind : DeclarationKind) (x : Declarator) :
    Shape.aliasing.accepts (.stmt (.declare ⟨kind, [x]⟩)) =
      (kind == .functionScoped && (x.init.bind Expr.soleIdent?).isSome) := by
  rw [Shape.accepts_aliasing_declare, List.any_cons, List.any_nil, Bool.or_false]

/-- A chain's candidate is that of one of its declarators. -/
theorem exists_of_n?_declare (h : n? (.declare d) = some c) :
    ∃ x ∈ d.declarators, n? (.declare ⟨d.kind, [x]⟩) = some c := by
  rw [n?_eq, Shape.accepts_aliasing_declare] at h
  -- an alias anywhere in the chain goes before all functions
  by_cases halias : (d.kind == .functionScoped &&
      d.declarators.any fun x => (x.init.bind Expr.soleIdent?).isSome) = true
  · rw [if_pos halias] at h
    obtain ⟨name, hname, rfl⟩ := Option.map_eq_some_iff.mp h
    obtain ⟨⟨target, init⟩, hx, hinit⟩ := List.exists_of_findSome?_eq_some hname
    refine ⟨⟨target, init⟩, hx, ?_⟩
    have hkind := (Bool.and_eq_true_iff.mp halias).1
    replace hinit : init.bind Expr.soleIdent? = some name := hinit
    have hone : (Stmt.declare ⟨d.kind, [⟨target, init⟩]⟩).aliased? = some name := by
      unfold Stmt.aliased?
      simp only [List.findSome?_cons, hinit]
    rw [n?_eq, accepts_aliasing_declarator, hkind, hone]
    dsimp only
    rw [hinit]
    rfl
  · rw [if_neg halias] at h
    obtain ⟨x, hx, ⟨e, f, he, hf⟩, hc⟩ := exists_of_findSome?_declare h
    refine ⟨x, hx, ?_⟩
    -- a function is no alias, so the declarator on its own is none either
    have hnoalias : x.init.bind Expr.soleIdent? = none := by
      rw [he]
      cases e <;> first | rfl | cases hf
    rw [n?_eq, accepts_aliasing_declarator, hnoalias, Option.isSome_none, Bool.and_false,
      if_neg Bool.false_ne_true]
    exact hc

/-- Where a chain gives no candidate, none of its declarators does. -/
theorem n?_declarator_eq_none (h : n? (.declare d) = none) (hx : x ∈ d.declarators) :
    n? (.declare ⟨d.kind, [x]⟩) = none := by
  rw [n?_eq, Shape.accepts_aliasing_declare] at h
  -- an alias in the chain would have given a candidate
  by_cases halias : (d.kind == .functionScoped &&
      d.declarators.any fun x => (x.init.bind Expr.soleIdent?).isSome) = true
  · rw [if_pos halias] at h
    obtain ⟨y, hy, hsome⟩ := List.any_eq_true.mp (Bool.and_eq_true_iff.mp halias).2
    have hnone := List.findSome?_eq_none_iff.mp (Option.map_eq_none_iff.mp h) y hy
    obtain ⟨target, init⟩ := y
    rw [show init.bind Expr.soleIdent? = none from hnone] at hsome
    cases hsome
  · rw [if_neg halias] at h
    have hone : ¬ (d.kind == .functionScoped && (x.init.bind Expr.soleIdent?).isSome) = true := by
      intro htrue
      obtain ⟨hkind, hsome⟩ := Bool.and_eq_true_iff.mp htrue
      exact halias (Bool.and_eq_true_iff.mpr ⟨hkind, List.any_eq_true.mpr ⟨x, hx, hsome⟩⟩)
    rw [n?_eq, accepts_aliasing_declarator, if_neg hone]
    exact findSome?_declarator_eq_none h hx

end Candidate

end Declarator

section Split

variable {t : Transform} {s : Stmt} {c : Candidate}

/-- The candidate of a statement is one of those that it gives taken apart. -/
theorem mem_candidatesIn_split (h : Candidate.ofStatement? t s = some c) :
    c ∈ candidatesIn t s.split := by
  have hself : c ∈ candidatesIn t [s] := List.mem_filterMap.mpr ⟨s, .head _, h⟩
  -- only a declaration is taken apart
  cases s with
  | declare d =>
    have hdeclarator : ∃ x ∈ d.declarators,
        Candidate.ofStatement? t (.declare ⟨d.kind, [x]⟩) = some c := by
      cases t with
      | n => exact Candidate.exists_of_n?_declare h
      | sig =>
        rw [Candidate.ofStatement?, Candidate.sig?_eq] at h
        obtain ⟨x, hx, _, hc⟩ := Candidate.exists_of_findSome?_declare h
        exact ⟨x, hx, (Candidate.sig?_eq _).trans hc⟩
    obtain ⟨x, hx, hc⟩ := hdeclarator
    exact List.mem_filterMap.mpr ⟨_, List.mem_map_of_mem hx, hc⟩
  | _ => exact hself

/-- A statement that gives no candidate gives none taken apart. -/
theorem candidatesIn_split_eq_nil (h : Candidate.ofStatement? t s = none) :
    candidatesIn t s.split = [] := by
  have hself : candidatesIn t [s] = [] := List.filterMap_eq_nil_iff.mpr fun s' hs' => by
    rw [List.mem_singleton.mp hs', h]
  -- only a declaration is taken apart
  cases s with
  | declare d =>
    refine List.filterMap_eq_nil_iff.mpr fun s' hs' => ?_
    obtain ⟨x, hx, rfl⟩ := List.mem_map.mp hs'
    cases t with
    | n => exact Candidate.n?_declarator_eq_none h hx
    | sig =>
      rw [Candidate.ofStatement?, Candidate.sig?_eq] at h
      exact (Candidate.sig?_eq _).trans (Candidate.findSome?_declarator_eq_none h hx)
  | _ => exact hself

/-- A statement that gives a candidate taken apart gives one as it stands. -/
theorem exists_ofStatement?_of_mem_split {d : Candidate} (h : d ∈ candidatesIn t s.split) :
    ∃ c, Candidate.ofStatement? t s = some c := by
  cases hs : Candidate.ofStatement? t s with
  | none =>
    rw [candidatesIn_split_eq_nil hs] at h
    cases h
  | some c => exact ⟨c, rfl⟩

variable {module : List Stmt}

/-- The candidates of a module taken apart are those of its statements taken apart. -/
theorem mem_candidatesIn_flatMap_split {d : Candidate} :
    d ∈ candidatesIn t (module.flatMap Stmt.split) ↔ ∃ s ∈ module, d ∈ candidatesIn t s.split := by
  unfold candidatesIn
  rw [List.filterMap_flatMap, List.mem_flatMap]

/-- Taken apart, a module has no candidate only if it has none as it stands. -/
theorem candidatesIn_flatMap_split_eq_nil_iff :
    candidatesIn t (module.flatMap Stmt.split) = [] ↔ candidatesIn t module = [] := by
  rw [List.eq_nil_iff_forall_not_mem, List.eq_nil_iff_forall_not_mem]
  constructor
  · intro h c hc
    obtain ⟨s, hs, hsome⟩ := List.mem_filterMap.mp hc
    exact h c (mem_candidatesIn_flatMap_split.mpr ⟨s, hs, mem_candidatesIn_split hsome⟩)
  · intro h d hd
    obtain ⟨s, hs, hmem⟩ := mem_candidatesIn_flatMap_split.mp hd
    obtain ⟨c, hc⟩ := exists_ofStatement?_of_mem_split hmem
    exact h c (List.mem_filterMap.mpr ⟨s, hs, hc⟩)

/-- Whether no statement gives another candidate when it is taken apart. -/
def HidesNone (t : Transform) (module : List Stmt) : Prop :=
  ∀ s ∈ module, ∀ d ∈ candidatesIn t s.split, Candidate.ofStatement? t s = some d

/-- A module has a sole candidate taken apart when it has one as it stands and no chain hides
    another. -/
theorem soleCandidate_split_eq_ok_iff :
    soleCandidate t (module.flatMap Stmt.split) = .ok c ↔
      soleCandidate t module = .ok c ∧ HidesNone t module := by
  -- a sole candidate is one that all are equal to, where there is any
  rw [soleCandidate_eq_ok_iff, soleCandidate_eq_ok_iff, ne_eq, ne_eq,
    candidatesIn_flatMap_split_eq_nil_iff]
  constructor
  · rintro ⟨hne, hall⟩
    have hsplit (s : Stmt) (hs : s ∈ module) (d : Candidate) (hd : d ∈ candidatesIn t s.split) :
        d = c :=
      hall d (mem_candidatesIn_flatMap_split.mpr ⟨s, hs, hd⟩)
    refine ⟨⟨hne, fun d hd => ?_⟩, fun s hs d hd => ?_⟩
    · obtain ⟨s, hs, hsome⟩ := List.mem_filterMap.mp hd
      exact hsplit s hs d (mem_candidatesIn_split hsome)
    · obtain ⟨e, he⟩ := exists_ofStatement?_of_mem_split hd
      rw [he, hsplit s hs e (mem_candidatesIn_split he), hsplit s hs d hd]
  · rintro ⟨⟨hne, hall⟩, hnone⟩
    refine ⟨hne, fun d hd => ?_⟩
    obtain ⟨s, hs, hmem⟩ := mem_candidatesIn_flatMap_split.mp hd
    exact hall d (List.mem_filterMap.mpr ⟨s, hs, hnone s hs d hmem⟩)

/-- A module with a sole candidate is ambiguous taken apart when a chain hides another. -/
theorem soleCandidate_split_of_hides (h : soleCandidate t module = .ok c)
    (hhides : ¬ HidesNone t module) :
    ∃ found, soleCandidate t (module.flatMap Stmt.split) = .error (.ambiguous t found) := by
  -- neither none nor exactly one is left, so they are ambiguous
  rcases soleCandidate_cases t (module.flatMap Stmt.split) with ⟨hnil, _⟩ | ⟨d, _, hs⟩ | ⟨_, hs⟩
  · exact absurd (candidatesIn_flatMap_split_eq_nil_iff.mp hnil) (soleCandidate_eq_ok_iff.mp h).1
  · exact absurd (soleCandidate_split_eq_ok_iff.mp hs).2 hhides
  · exact ⟨_, hs⟩

end Split

/-! ## Scripts -/

/-- The script whose module has its chains taken apart. -/
def ModuleCall.splitProgram (m : ModuleCall) : Program :=
  m.withStatements (m.statements.flatMap Stmt.split)

section Scripts

variable {p : Program} {m : ModuleCall}

/-- What decides the outcome of a script whose chains are taken apart. -/
theorem ModuleCall.ofProgram?_splitProgram (hm : ModuleCall.ofProgram? p = some m) :
    ∃ m', ModuleCall.ofProgram? m.splitProgram = some m' ∧
      m'.statements = m.statements.flatMap Stmt.split := by
  have hempty (hnil : m.statements = []) : m.statements.flatMap Stmt.split = [] := by
    rw [hnil]
    rfl
  obtain ⟨m', hm', hstatements, _⟩ := ModuleCall.ofProgram?_withStatements hm _ hempty
  exact ⟨m', hm', hstatements⟩

/-- Whether a script stays unambiguous when its chains are taken apart: it does exactly if no chain
    gives a candidate that the chain's own candidate hides. Where none is hidden, two different
    candidates are enough for a script to have no reduction. -/
theorem reduce_splitProgram (hm : ModuleCall.ofProgram? p = some m) :
    (∀ q, p.reduce = .ok q →
      ((∀ t, HidesNone t m.statements) ∧ ∃ q', m.splitProgram.reduce = .ok q') ∨
      (¬ (∀ t, HidesNone t m.statements) ∧
        ∃ t found, m.splitProgram.reduce = .error (.ambiguous t found))) ∧
    (∀ q', m.splitProgram.reduce = .ok q' → ∃ q, p.reduce = .ok q) ∧
    ((∀ t, HidesNone t m.statements) → ∀ t c d, c ≠ d →
      c ∈ candidatesIn t (m.statements.flatMap Stmt.split) →
      d ∈ candidatesIn t (m.statements.flatMap Stmt.split) → ∀ q, p.reduce ≠ .ok q) := by
  obtain ⟨m', hm', hsplit⟩ := ModuleCall.ofProgram?_splitProgram hm
  refine ⟨fun q hq => ?_, fun q' hq' => ?_, fun hnone t c d hne hc hd q hq => ?_⟩
  · obtain ⟨n, sig, hn, hsig, _⟩ := (Program.reduce_eq_ok_iff_of_module hm).mp hq
    -- a hidden candidate for `n` is reported before one for the signature
    by_cases hnone : HidesNone .n m.statements
    · have hn' := soleCandidate_split_eq_ok_iff.mpr ⟨hn, hnone⟩
      by_cases hnonesig : HidesNone .sig m.statements
      · have hsig' := soleCandidate_split_eq_ok_iff.mpr ⟨hsig, hnonesig⟩
        rw [← hsplit] at hn' hsig'
        refine .inl ⟨fun t => ?_, _, Program.reduce_of_ok hm' hn' hsig'⟩
        cases t with
        | n => exact hnone
        | sig => exact hnonesig
      · obtain ⟨found, hsig'⟩ := soleCandidate_split_of_hides hsig hnonesig
        rw [← hsplit] at hn' hsig'
        exact .inr ⟨fun hall => hnonesig (hall .sig), .sig, found,
          Program.reduce_of_sig_error hm' hn' hsig'⟩
    · obtain ⟨found, hn'⟩ := soleCandidate_split_of_hides hn hnone
      rw [← hsplit] at hn'
      exact .inr ⟨fun hall => hnone (hall .n), .n, found, Program.reduce_of_n_error hm' hn'⟩
  -- a sole candidate taken apart is the sole candidate as it stands
  · obtain ⟨n, sig, hn, hsig, _⟩ := (Program.reduce_eq_ok_iff_of_module hm').mp hq'
    rw [hsplit] at hn hsig
    exact ⟨_, Program.reduce_of_ok hm (soleCandidate_split_eq_ok_iff.mp hn).1
      (soleCandidate_split_eq_ok_iff.mp hsig).1⟩
  · obtain ⟨n, sig, hn, hsig, _⟩ := (Program.reduce_eq_ok_iff_of_module hm).mp hq
    -- with none hidden, all candidates taken apart equal the sole one
    obtain ⟨e, he⟩ : ∃ e, soleCandidate t m.statements = .ok e := by
      cases t with
      | n => exact ⟨n, hn⟩
      | sig => exact ⟨sig, hsig⟩
    have hall := (soleCandidate_eq_ok_iff.mp (soleCandidate_split_eq_ok_iff.mpr ⟨he, hnone t⟩)).2
    exact hne ((hall c hc).trans (hall d hd).symm)

/-- A chain of two aliases before a function with a guarded call. -/
def aliasChain : ModuleCall :=
  ⟨[], none, ⟨[],
    [.declare ⟨.functionScoped,
        [⟨"a", some (.array [.ident "b"])⟩, ⟨"c", some (.array [.ident "d"])⟩]⟩,
      .define "s" (.function none ⟨["x", "y", "z"],
        [.expr (.logical .and (.ident "x") (.sequence
          [.assign none (.ident "x") (.call (.ident "f") [.call (.ident "g") [.ident "x"]]),
            .call (.ident "h") []])),
          .giveBack (some (.ident "x"))]⟩)]⟩, .direct, []⟩

/-- The second alias of the chain makes the script ambiguous once the chain is taken apart. -/
theorem reduce_splitProgram_aliasChain :
    ModuleCall.ofProgram? ⟨aliasChain.rewrap aliasChain.definition.body⟩ = some aliasChain ∧
    ∃ t found, aliasChain.splitProgram.reduce = .error (.ambiguous t found) := by
  have hm : ModuleCall.ofProgram? ⟨aliasChain.rewrap aliasChain.definition.body⟩ =
      some aliasChain := rfl
  refine ⟨hm, ?_⟩
  rcases (reduce_splitProgram hm).1 (aliasChain.assemble ⟨.n, "b", []⟩ ⟨.sig, "f", []⟩) (by rfl) with
    ⟨hnone, _⟩ | ⟨_, hambiguous⟩
  -- the chain gives `b` and hides `d`
  · have hd := hnone .n _ (.head _) ⟨.n, "d", []⟩ (.tail _ (.head _))
    exact absurd hd (by decide)
  · exact hambiguous

/-- Two declarators give different candidates, and yet the script is reduced, with the first. -/
theorem reduce_of_hidden_alias :
    Program.parse
        "(function()\x7bvar a=[b],c=[d];var s=function(x,y,z)\x7bx&&(x=f(g(x)),h());return x\x7d\x7d)();" =
      .ok ⟨aliasChain.rewrap aliasChain.definition.body⟩ ∧
    ModuleCall.ofProgram? ⟨aliasChain.rewrap aliasChain.definition.body⟩ = some aliasChain ∧
    (⟨.n, "b", []⟩ ∈ candidatesIn .n (aliasChain.statements.flatMap Stmt.split) ∧
      ⟨.n, "d", []⟩ ∈ candidatesIn .n (aliasChain.statements.flatMap Stmt.split)) ∧
    Program.reduce ⟨aliasChain.rewrap aliasChain.definition.body⟩ =
      .ok (aliasChain.assemble ⟨.n, "b", []⟩ ⟨.sig, "f", []⟩) :=
  ⟨by decide +kernel, rfl, ⟨.head _, .tail _ (.head _)⟩, by rfl⟩

end Scripts

end Descramble
