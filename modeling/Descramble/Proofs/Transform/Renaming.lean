import Descramble.Proofs.Pattern.Blind
import Descramble.Proofs.Transform.Assembly
import Descramble.Proofs.Transform.Candidate

/-!
# Recognition is blind to names

The shapes of the transforms ask for no name. Names are compared in two places only, a decoy's
operand with the parameter and candidates with each other, and an injective renaming changes
neither comparison.

Main statements: `Candidate.ofStatement?_rename`, a renamed statement gives the renamed candidate;
`reduce_rename`, a renamed script has the reduction that belongs to the renamed module and the
renamed candidates, or the same error.
-/

namespace Descramble

/-! ## Parts of a renamed statement -/

section Parts

variable (r : Name → Name)

/-- A function that is renamed is found as the renamed function. -/
theorem Expr.function?_rename (e : Expr) :
    (e.rename r).function? = e.function?.map (Function.rename r) := by
  cases e <;> rfl

/-- A name that is renamed is found as the renamed name. -/
theorem Expr.ident?_rename (e : Expr) : (e.rename r).ident? = e.ident?.map r := by
  cases e <;> rfl

/-- An array of one name stays such an array. -/
theorem Expr.soleIdent?_rename (e : Expr) : (e.rename r).soleIdent? = e.soleIdent?.map r := by
  cases e with
  | array items =>
    -- no item, one, or at least two
    rcases items with _ | ⟨e, _ | ⟨e', rest⟩⟩
    · rfl
    · cases e <;> rfl
    · cases e <;> rfl
  | _ => rfl

/-- The guard of a renamed function is the renamed guard. -/
theorem Function.guard?_rename (f : Function) :
    (f.rename r).guard? = f.guard?.map (Stmt.rename r) := by
  unfold Function.guard?
  rw [Function.body_rename, List.length_map, List.getElem?_map]
  by_cases hlen : f.body.length < 2
  · rw [if_pos hlen, if_pos hlen]
    rfl
  · rw [if_neg hlen, if_neg hlen]

namespace Stmt

/-- A renamed statement names the renamed functions, in their order. -/
theorem functions_rename (s : Stmt) :
    (s.rename r).functions = s.functions.map fun (name, f) => (r name, f.rename r) := by
  cases s with
  | expr e =>
    cases e with
    | assign op target value =>
      rcases op with _ | op
      · cases target with
        | ident name =>
          -- an assignment names a function if it assigns one to a name
          show ((value.rename r).function?.map (r name, ·)).toList =
            (value.function?.map (name, ·)).toList.map fun (name, f) => (r name, f.rename r)
          rw [Expr.function?_rename]
          cases value.function? <;> rfl
        | _ => rfl
      · rfl
    | _ => rfl
  | declare d =>
    show (d.rename r).declarators.filterMap _ = List.map _ (d.declarators.filterMap _)
    -- a declaration names the functions among its initializers
    rw [Declaration.declarators_rename, List.filterMap_map, List.map_filterMap]
    refine congrArg (d.declarators.filterMap ·) (funext fun ⟨name, init⟩ => ?_)
    cases init with
    | none => rfl
    | some e =>
      show (e.rename r).function?.map (r name, ·) = Option.map _ (e.function?.map (name, ·))
      rw [Expr.function?_rename, Option.map_map, Option.map_map]
      rfl
  | _ => rfl

/-- Renaming leaves the number of parameters as it is. -/
theorem functionsOfArity_rename (s : Stmt) (arity : Nat) :
    (s.rename r).functionsOfArity arity =
      (s.functionsOfArity arity).map fun (name, f) => (r name, f.rename r) := by
  unfold functionsOfArity
  rw [functions_rename, List.filter_map]
  refine congrArg (List.map _ ·) (congrArg (List.filter · s.functions) (funext fun named => ?_))
  show ((named.2.rename r).params.length == arity) = (named.2.params.length == arity)
  rw [Function.params_rename, List.length_map]

/-- The name in an alias is renamed with the statement. -/
theorem aliased?_rename (s : Stmt) : (s.rename r).aliased? = s.aliased?.map r := by
  cases s with
  | expr e =>
    cases e with
    | assign op target value =>
      rcases op with _ | op
      · exact Expr.soleIdent?_rename r value
      · rfl
    | _ => rfl
  | declare d =>
    show (d.rename r).declarators.findSome? _ = Option.map r (d.declarators.findSome? _)
    -- the first alias among the declarators stays the first
    rw [Declaration.declarators_rename, List.findSome?_map, List.map_findSome?]
    refine congrArg (List.findSome? · d.declarators) (funext fun ⟨name, init⟩ => ?_)
    cases init with
    | none => rfl
    | some e => exact Expr.soleIdent?_rename r e
  | _ => rfl

/-- A handler of two statements or more is no decoy. -/
theorem decoyOperand?_of_two (block : List Stmt) (param : Option Name) (first second : Stmt)
    (rest : List Stmt) (finalizer : Option (List Stmt)) :
    (attempt block (some ⟨param, first :: second :: rest⟩) finalizer).decoyOperand? = none := by
  unfold decoyOperand?
  split
  · rename_i h
    cases h
  · rfl

/-- The operand of a renamed decoy is the renamed operand. -/
theorem decoyOperand?_rename (s : Stmt) :
    (s.rename r).decoyOperand? = s.decoyOperand?.map r := by
  cases s with
  | attempt block handler finalizer =>
    -- only a handler of one statement, which returns a sum, has an operand
    rcases handler with _ | ⟨param, _ | ⟨first, _ | ⟨second, rest⟩⟩⟩
    · rfl
    · rfl
    · cases first with
      | giveBack value =>
        rcases value with _ | e
        · rfl
        · cases e with
          | binary op left right =>
            cases op with
            | arithmetic op =>
              cases op with
              | add => exact Expr.ident?_rename r right
              | _ => rfl
            | _ => rfl
          | _ => rfl
      | _ => rfl
    · rw [decoyOperand?_of_two]
      exact decoyOperand?_of_two _ _ _ _ _ _
  | _ => rfl

/-- A renamed guard calls the renamed function with the renamed arguments. -/
theorem guardedCall?_rename (s : Stmt) : (s.rename r).guardedCall? =
    s.guardedCall?.map fun (callee, args) => (r callee, args.map (Expr.rename r)) := by
  cases s with
  | expr e =>
    -- any other form of guard has no call, renamed or not
    cases e with
    | logical op left right =>
      cases right with
      | sequence items =>
        rcases items with _ | ⟨first, rest⟩
        · rfl
        · cases first with
          | assign op target value =>
            cases value with
            | call callee args =>
              cases callee with
              | ident callee =>
                exact congrArg (fun args => some (r callee, args)) (Expr.renameAll_eq_map r args)
              | _ => rfl
            | _ => rfl
          | _ => rfl
      | _ => rfl
    | _ => rfl
  | _ => rfl

end Stmt

end Parts

/-! ## Candidates -/

namespace Candidate

/-- A candidate whose function goes by another name. -/
def rename (r : Name → Name) (c : Candidate) : Candidate :=
  ⟨c.transform, r c.callee, c.leading⟩

variable {r : Name → Name}

/-- Renaming by an injective map keeps candidates apart. -/
theorem rename_injective (hr : r.Injective) : (rename r).Injective := by
  rintro ⟨t, callee, leading⟩ ⟨t', callee', leading'⟩ h
  simp only [rename, Candidate.mk.injEq] at h
  obtain ⟨rfl, hcallee, rfl⟩ := h
  rw [hr hcallee]

/-- A decoy returns the parameter exactly when the renamed decoy returns the renamed parameter. -/
theorem ofDecoy?_rename (hr : r.Injective) (name : Name) (f : Function) :
    ofDecoy? (r name) (f.rename r) = (ofDecoy? name f).map (rename r) := by
  unfold ofDecoy?
  rw [Function.guard?_rename, Function.params_rename]
  cases f.guard? with
  | none => rfl
  | some guard =>
    have hshape := Shape.decoyGuard.accepts_rename r (by decide) (.stmt guard)
    -- the renaming is injective, so it makes no two different names equal
    have hparam : ((guard.rename r).decoyOperand? == (f.params.map r).head?) =
        (guard.decoyOperand? == f.params.head?) := by
      rw [Stmt.decoyOperand?_rename, List.head?_map, Bool.eq_iff_iff, beq_iff_eq, beq_iff_eq]
      exact (Option.map_injective hr).eq_iff
    show (if Shape.decoyGuard.accepts (.stmt (guard.rename r)) &&
        (guard.rename r).decoyOperand? == (f.params.map r).head? then
        some (⟨.n, r name, []⟩ : Candidate) else none) = _
    rw [hparam, show Shape.decoyGuard.accepts (.stmt (guard.rename r)) = _ from hshape]
    exact (apply_ite (Option.map (rename r)) _ (some ⟨.n, name, []⟩) none).symm

/-- The candidate of a guarded call is renamed with the function that has the guard. -/
theorem ofCallGuard?_rename (f : Function) :
    ofCallGuard? (f.rename r) = (ofCallGuard? f).map (rename r) := by
  unfold ofCallGuard?
  rw [Function.guard?_rename]
  cases f.guard? with
  | none => rfl
  | some guard =>
    have hshape := Shape.callGuard.accepts_rename r (by decide) (.stmt guard)
    show (if Shape.callGuard.accepts (.stmt (guard.rename r)) then _ else none) =
      Option.map (rename r) (if Shape.callGuard.accepts (.stmt guard) then _ else none)
    rw [show Shape.callGuard.accepts (.stmt (guard.rename r)) = _ from hshape]
    by_cases haccepts : Shape.callGuard.accepts (.stmt guard)
    · rw [if_pos haccepts, if_pos haccepts, Stmt.guardedCall?_rename]
      -- by the number of arguments: only one or two give a candidate
      rcases hcall : guard.guardedCall? with _ | ⟨callee, _ | ⟨first, _ | ⟨second, _ | ⟨third, rest⟩⟩⟩⟩
      · rfl
      · rfl
      · rfl
      · -- a literal has no name to replace
        obtain ⟨l, rfl⟩ := Shape.literal_of_accepts_callGuard haccepts hcall
        rfl
      · rfl
    · rw [if_neg haccepts, if_neg haccepts]
      rfl

/-- The first transform is found in a renamed statement as it is in the statement. -/
theorem n?_rename (hr : r.Injective) (s : Stmt) : n? (s.rename r) = (n? s).map (rename r) := by
  have hshape := Shape.aliasing.accepts_rename r (by decide) (.stmt s)
  rw [n?_eq, n?_eq, Stmt.aliased?_rename, Stmt.functionsOfArity_rename,
    show Shape.aliasing.accepts (.stmt (s.rename r)) = _ from hshape,
    apply_ite (Option.map (rename r)), Option.map_map, Option.map_map, List.findSome?_map,
    List.map_findSome?]
  -- an alias comes first, and only without one are the functions looked at
  refine congrArg _ (congrArg (List.findSome? · _) (funext fun named => ?_))
  exact ofDecoy?_rename hr named.1 named.2

/-- The second transform is found in a renamed statement as it is in the statement. -/
theorem sig?_rename (s : Stmt) : sig? (s.rename r) = (sig? s).map (rename r) := by
  rw [sig?_eq, sig?_eq, Stmt.functionsOfArity_rename, List.findSome?_map, List.map_findSome?]
  exact congrArg (List.findSome? · _) (funext fun named => ofCallGuard?_rename named.2)

/-- A renamed statement gives the renamed candidate. -/
theorem ofStatement?_rename (hr : r.Injective) (t : Transform) (s : Stmt) :
    ofStatement? t (s.rename r) = (ofStatement? t s).map (rename r) := by
  cases t with
  | n => exact n?_rename hr s
  | sig => exact sig?_rename s

/-- The candidates of a renamed module are the renamed candidates, in their order. -/
theorem candidatesIn_rename (hr : r.Injective) (t : Transform) (module : List Stmt) :
    candidatesIn t (module.map (Stmt.rename r)) = (candidatesIn t module).map (rename r) := by
  unfold candidatesIn
  rw [List.filterMap_map, List.map_filterMap]
  exact congrArg (List.filterMap · module) (funext (ofStatement?_rename hr t))

end Candidate

/-! ## Modules and reductions -/

section Modules

variable (r : Name → Name)

def Entry.rename : Entry → Entry
  | .direct => .direct
  | .member name => .member (r name)
  | .index key => .index (key.rename r)

namespace ModuleCall

/-- A module in its wrapper with all names replaced. -/
def rename (m : ModuleCall) : ModuleCall :=
  ⟨m.leading.map (Stmt.rename r), m.name.map r, m.definition.rename r, m.entry.rename r,
    m.args.map (Expr.rename r)⟩

/-- A renamed script has the renamed module, if it has one. -/
theorem ofProgram?_rename (p : Program) :
    ofProgram? (p.rename r) = (ofProgram? p).map (rename r) := by
  have hargs (args : List Expr) : Expr.renameAll r args = args.map (Expr.rename r) :=
    Expr.renameAll_eq_map r args
  -- a script of no statement, of one, of two and of more
  rcases p with ⟨_ | ⟨first, _ | ⟨last, _ | ⟨third, rest⟩⟩⟩⟩
  · rfl
  · cases first with
    | expr e =>
      cases e with
      -- alone, a call of the function itself or of a member of it
      | call callee args =>
        cases callee with
        | function name f =>
          show some (ModuleCall.mk [] _ _ .direct (Expr.renameAll r args)) = _
          rw [hargs]
          rfl
        | member target method =>
          cases target with
          | function name f =>
            show some (ModuleCall.mk [] _ _ (.member (r method)) (Expr.renameAll r args)) = _
            rw [hargs]
            rfl
          | _ => rfl
        | index target key =>
          cases target with
          | function name f =>
            show some (ModuleCall.mk [] _ _ (.index (key.rename r)) (Expr.renameAll r args)) = _
            rw [hargs]
            rfl
          | _ => rfl
        | _ => rfl
      | _ => rfl
    | _ => rfl
  -- with a statement before it only a direct call of a function counts
  · rw [ofProgram?_two, show ofProgram? (Program.rename r ⟨[first, last]⟩) = _ from
      ofProgram?_two (first.rename r) (last.rename r), Option.map_map]
    cases last with
    | expr e =>
      cases e with
      | call callee args =>
        cases callee with
        | function name f =>
          show some (ModuleCall.mk [first.rename r] _ _ .direct (Expr.renameAll r args)) = _
          rw [hargs]
          rfl
        | _ => rfl
      | _ => rfl
    | _ => rfl
  · rw [ofProgram?_of_three]
    exact ofProgram?_of_three _ _ _ _

/-- The statements of a renamed module are the renamed statements. -/
theorem statements_rename (m : ModuleCall) :
    (m.rename r).statements = m.statements.map (Stmt.rename r) := by
  unfold statements
  rw [show (m.rename r).definition.body = _ from Function.body_rename r m.definition,
    apply_ite (List.map (Stmt.rename r)), List.map_drop]
  rw [show (m.rename r).leading.isEmpty = m.leading.isEmpty from List.isEmpty_map]

/-- Whether a statement is kept does not depend on names. -/
theorem isRetained_rename (s : Stmt) : (s.rename r).isRetained = s.isRetained := by
  cases s with
  | expr e => cases e <;> rfl
  | _ => rfl

/-- The statements that are kept are renamed with the others. -/
theorem filter_isRetained_rename (body : List Stmt) :
    (body.map (Stmt.rename r)).filter Stmt.isRetained =
      (body.filter Stmt.isRetained).map (Stmt.rename r) := by
  rw [List.filter_map]
  exact congrArg (fun kept => List.map _ (List.filter kept body)) (funext (isRetained_rename r))

end ModuleCall

/-- The reason of a failure with the names of its candidates replaced. -/
def ReductionError.rename : ReductionError → ReductionError
  | .ambiguous t found => .ambiguous t (found.map (Candidate.rename r))
  | e => e

end Modules

section Reduce

variable {r : Name → Name}

/-- The one candidate of a module is renamed with it, and so is the reason why there is none. -/
theorem soleCandidate_rename (hr : r.Injective) (t : Transform) (module : List Stmt) :
    (∀ c, soleCandidate t module = .ok c →
      soleCandidate t (module.map (Stmt.rename r)) = .ok (c.rename r)) ∧
    ∀ e, soleCandidate t module = .error e →
      soleCandidate t (module.map (Stmt.rename r)) = .error (e.rename r) := by
  have hdistinct : distinctCandidates (candidatesIn t (module.map (Stmt.rename r))) =
      (distinctCandidates (candidatesIn t module)).map (Candidate.rename r) := by
    rw [Candidate.candidatesIn_rename hr, distinctCandidates_map (Candidate.rename_injective hr)]
  -- there is none, exactly one or more than one; the renaming leaves their number as it is
  rcases soleCandidate_cases t module with ⟨hnil, hs⟩ | ⟨c, hd, hs⟩ | ⟨hlen, hs⟩
  · rw [hs]
    refine ⟨nofun, fun e he => ?_⟩
    cases he
    refine soleCandidate_of_nil ?_
    rw [Candidate.candidatesIn_rename hr, hnil]
    rfl
  · rw [hs]
    refine ⟨fun c' hc => ?_, nofun⟩
    cases hc
    refine soleCandidate_of_singleton ?_
    rw [hdistinct, hd]
    rfl
  · rw [hs]
    refine ⟨nofun, fun e he => ?_⟩
    cases he
    rw [soleCandidate_of_two_le (by rw [hdistinct, List.length_map]; exact hlen), hdistinct]
    rfl

/-- A renamed statement gives the renamed candidate. So a renamed script has a reduction exactly
    when the script has one: the renamed wrapper around the renamed retained statements, which hands
    out the renamed candidates. Otherwise it has none for the same reason, renamed. -/
theorem reduce_rename (hr : r.Injective) :
    (∀ t s, Candidate.ofStatement? t (s.rename r) =
      (Candidate.ofStatement? t s).map (Candidate.rename r)) ∧
    ∀ p : Program,
      (∀ q, p.reduce = .ok q → ∃ m n sig, ModuleCall.ofProgram? p = some m ∧
        q = ⟨pageStandIns ++ m.rewrap
          (m.statements.filter Stmt.isRetained ++ [handOut n, handOut sig])⟩ ∧
        (p.rename r).reduce = .ok ⟨pageStandIns ++ (m.rename r).rewrap
          ((m.statements.filter Stmt.isRetained).map (Stmt.rename r) ++
            [handOut (n.rename r), handOut (sig.rename r)])⟩) ∧
      ∀ e, p.reduce = .error e → (p.rename r).reduce = .error (e.rename r) := by
  refine ⟨Candidate.ofStatement?_rename hr, fun p => ?_⟩
  -- a renamed script has a module exactly if the script has one
  cases hm : ModuleCall.ofProgram? p with
  | none =>
    have hm' : ModuleCall.ofProgram? (p.rename r) = none := by
      rw [ModuleCall.ofProgram?_rename, hm]
      rfl
    rw [Program.reduce_of_none hm, Program.reduce_of_none hm']
    refine ⟨nofun, fun e he => ?_⟩
    cases he
    rfl
  | some m =>
    have hm' : ModuleCall.ofProgram? (p.rename r) = some (m.rename r) := by
      rw [ModuleCall.ofProgram?_rename, hm]
      rfl
    obtain ⟨hnok, hnerror⟩ := soleCandidate_rename hr .n m.statements
    obtain ⟨hsigok, hsigerror⟩ := soleCandidate_rename hr .sig m.statements
    rw [← ModuleCall.statements_rename] at hnok hnerror hsigok hsigerror
    refine ⟨fun q hq => ?_, fun e he => ?_⟩
    · obtain ⟨n, sig, hn, hsig, rfl⟩ := (Program.reduce_eq_ok_iff_of_module hm).mp hq
      refine ⟨m, n, sig, rfl, rfl, ?_⟩
      rw [Program.reduce_of_ok hm' (hnok n hn) (hsigok sig hsig), ModuleCall.assemble,
        ModuleCall.reducedBody, ModuleCall.statements_rename, ModuleCall.filter_isRetained_rename]
    · -- the renamed script fails at the same transform
      obtain hn | ⟨n, hn, hsig⟩ := (Program.reduce_eq_error_iff_of_module hm).mp he
      · exact Program.reduce_of_n_error hm' (hnerror e hn)
      · exact Program.reduce_of_sig_error hm' (hnok n hn) (hsigerror e hsig)

/-- Two aliases stay two when every name gets a tail. -/
theorem reduce_rename_tail :
    Function.Injective (fun name : Name => name ++ "0") ∧
    (Program.rename (· ++ "0") ⟨[.expr (.call (.function none ⟨[],
        [.define "a" (.array [.ident "f"]), .define "b" (.array [.ident "g"])]⟩) [])]⟩).reduce =
      .error (.ambiguous .n [⟨.n, "f0", []⟩, ⟨.n, "g0", []⟩]) := by
  have hr : Function.Injective (fun name : Name => name ++ "0") := by
    intro a b h
    rw [← String.toList_inj, String.toList_append, String.toList_append] at h
    exact String.toList_inj.mp (List.append_cancel_right h)
  exact ⟨hr, ((reduce_rename hr).2 _).2 (.ambiguous .n [⟨.n, "f", []⟩, ⟨.n, "g", []⟩]) (by rfl)⟩

end Reduce

end Descramble
