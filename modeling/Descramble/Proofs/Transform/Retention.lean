import Descramble.Proofs.Transform.Assembly
import Descramble.Proofs.Transform.Candidate

/-!
# What a reduction keeps of a module

Of a module only those statements are dropped that merely evaluate an expression, and none of these
gives a candidate. What a reduction adds gives no candidate either, so the reduced module, reduced
once more, has the same transforms and loses nothing.

Main statements: `Program.reduce_keeps` and `Program.reduce_again`.
-/

namespace Descramble

/-! ## Retained statements -/

/-- Whether a statement only evaluates an expression, which is neither an assignment nor a bare
    literal. -/
def Stmt.OnlyEvaluates (s : Stmt) : Prop :=
  ∃ e, s = .expr e ∧ (∀ op target value, e ≠ .assign op target value) ∧ ∀ l, e ≠ .literal l

namespace Stmt

variable {s : Stmt}

/-- The statements that are dropped are those that only evaluate an expression. -/
theorem isRetained_eq_false_iff : s.isRetained = false ↔ s.OnlyEvaluates := by
  constructor
  · intro h
    cases s with
    | expr e =>
      -- of the expressions, assignments and bare literals are kept
      cases e with
      | assign _ _ _ | literal _ => cases h
      | _ => exact ⟨_, rfl, nofun, nofun⟩
    | _ => cases h
  · rintro ⟨e, rfl, hassign, hliteral⟩
    cases e with
    | assign op target value => exact absurd rfl (hassign op target value)
    | literal l => exact absurd rfl (hliteral l)
    | _ => rfl

/-- A statement that defines a function is kept. -/
theorem isRetained_of_mem_functions {name : Name} {f : Function} (h : (name, f) ∈ s.functions) :
    s.isRetained = true := by
  obtain _ | _ | _ := mem_functions_iff.mp h <;> rfl

/-- A statement with an alias is kept. -/
theorem isRetained_of_aliased? {name : Name} (h : s.aliased? = some name) :
    s.isRetained = true := by
  unfold aliased? at h
  split at h
  · rfl
  · rfl
  · cases h

end Stmt

namespace Candidate

variable {t : Transform} {s : Stmt}

/-- A statement that gives a candidate is worth keeping. -/
theorem isRetained_of_ofStatement? {c : Candidate} (h : ofStatement? t s = some c) :
    s.isRetained = true := by
  -- a candidate comes from an alias or from a function, and a statement that binds one is kept
  cases t with
  | n =>
    obtain ⟨name, -, halias | ⟨f, hf⟩⟩ := n?_eq_some h
    · exact Stmt.isRetained_of_aliased? halias
    · exact Stmt.isRetained_of_mem_functions hf
  | sig =>
    obtain ⟨_, f, hf, -⟩ := sig?_eq_some h
    exact Stmt.isRetained_of_mem_functions hf

/-- A statement that is dropped gives no candidate. -/
theorem ofStatement?_of_not_isRetained (h : s.isRetained = false) (t : Transform) :
    ofStatement? t s = none := by
  refine Option.eq_none_iff_forall_ne_some.mpr fun c hc => ?_
  rw [isRetained_of_ofStatement? hc] at h
  cases h

/-- The statement that hands out a transform gives no candidate, whatever it calls. -/
theorem ofStatement?_handOut (t : Transform) (c : Candidate) :
    ofStatement? t (handOut c) = none := by
  refine Option.eq_none_iff_forall_ne_some.mpr fun d hd => ?_
  -- it binds no function, and no list of one identifier
  cases t with
  | n =>
    obtain ⟨name, -, halias | ⟨f, hf⟩⟩ := n?_eq_some hd
    · cases halias
    · cases hf
  | sig =>
    obtain ⟨_, f, hf, -⟩ := sig?_eq_some hd
    cases hf

end Candidate

/-! ## The candidates of a reduced module -/

/-- Statements give their candidates in their order. -/
theorem candidatesIn_append (t : Transform) (body rest : List Stmt) :
    candidatesIn t (body ++ rest) = candidatesIn t body ++ candidatesIn t rest :=
  List.filterMap_append

/-- Dropping statements loses no candidate. -/
theorem candidatesIn_filter_isRetained (t : Transform) (body : List Stmt) :
    candidatesIn t (body.filter Stmt.isRetained) = candidatesIn t body := by
  unfold candidatesIn
  rw [List.filterMap_filter]
  -- a statement that is dropped would have given none
  refine congrArg (List.filterMap · body) (funext fun s => ?_)
  cases hs : s.isRetained with
  | true => rfl
  | false => exact (Candidate.ofStatement?_of_not_isRetained hs t).symm

/-- Which candidate is the sole one depends on the candidates only. -/
theorem soleCandidate_congr {t : Transform} {body body' : List Stmt}
    (h : candidatesIn t body = candidatesIn t body') :
    soleCandidate t body = soleCandidate t body' := by
  unfold soleCandidate
  rw [show body.filterMap (Candidate.ofStatement? t) = candidatesIn t body' from h]
  rfl

/-- A sole candidate is handed out under the name of its transform. -/
theorem handOut_of_soleCandidate {t : Transform} {body : List Stmt} {c : Candidate}
    (h : soleCandidate t body = .ok c) :
    handOut c = .expr (.assign none (.member (.ident "_result") t.name) c.wrapper) := by
  obtain ⟨s, -, hs⟩ := exists_of_soleCandidate h
  rw [handOut, Candidate.transform_of_ofStatement? hs]
  rfl

namespace ModuleCall

/-- The body of a reduced module gives the candidates of the module. -/
theorem candidatesIn_reducedBody (m : ModuleCall) (t : Transform) (n sig : Candidate) :
    candidatesIn t (m.reducedBody n sig) = candidatesIn t m.statements := by
  -- the two statements at the end add none
  have hadded : candidatesIn t [handOut n, handOut sig] = [] := by
    simp only [candidatesIn, List.filterMap_cons, List.filterMap_nil,
      Candidate.ofStatement?_handOut]
  rw [reducedBody, candidatesIn_append, candidatesIn_filter_isRetained, hadded, List.append_nil]

/-- Of the body of a reduced module nothing is dropped any more. -/
theorem filter_reducedBody (m : ModuleCall) (n sig : Candidate) :
    (m.reducedBody n sig).filter Stmt.isRetained = m.reducedBody n sig := by
  refine List.filter_eq_self.mpr fun s hs => ?_
  -- what was kept is kept again, and so are the two assignments
  rcases List.mem_append.mp hs with hs | hs
  · exact (List.mem_filter.mp hs).2
  · rcases List.mem_cons.mp hs with rfl | hs
    · rfl
    · rw [List.mem_singleton.mp hs]
      rfl

/-! ## The reduced module on its own -/

/-- The module of a reduced program without the statements before it. -/
def reduced (m : ModuleCall) (n sig : Candidate) : ModuleCall :=
  { m with leading := [], definition := ⟨m.definition.params, m.reducedBody n sig⟩ }

section Reduced

variable (m : ModuleCall) (n sig : Candidate)

/-- The last statement of a reduced program is the module again. -/
theorem ofProgram?_reduced :
    ∃ last, (m.assemble n sig).body.getLast? = some last ∧
      ofProgram? ⟨[last]⟩ = some (m.reduced n sig) := by
  refine ⟨_, ?_, ofProgram?_call m.entry m.name (m.reduced n sig).definition m.args⟩
  rw [assemble, rewrap_eq, ← List.append_assoc, List.getLast?_concat]
  rfl

/-- It has the same sole candidates. -/
theorem soleCandidate_reduced (t : Transform) :
    soleCandidate t (m.reduced n sig).statements = soleCandidate t m.statements :=
  soleCandidate_congr (candidatesIn_reducedBody m t n sig)

/-- And of its statements nothing is dropped. -/
theorem filter_reduced :
    (m.reduced n sig).statements.filter Stmt.isRetained = (m.reduced n sig).statements :=
  filter_reducedBody m n sig

end Reduced

end ModuleCall

/-! ## Reductions -/

/-- An alias of the function `b`. -/
def aliasStmt : Stmt :=
  .expr (.assign none (.ident "a") (.array [.ident "b"]))

/-- A function with a guarded call of `f`. -/
def callerStmt : Stmt :=
  .function "s" ⟨["x", "y", "z"],
    [.expr (.logical .and (.ident "x") (.sequence
      [.assign none (.ident "x") (.call (.ident "f") [.call (.ident "d") [.ident "x"]]),
        .call (.ident "h") []])),
      .giveBack (some (.ident "x"))]⟩

/-- A module that calls `log` before these two, entered after the given statements. -/
def loggingModule (leading : List Stmt) : ModuleCall :=
  ⟨leading, none, ⟨["g"], [.define "w" .this, .expr (.call (.ident "log") []),
    .expr (.text "use strict"), aliasStmt, callerStmt]⟩, .direct, [.ident "p"]⟩

/-- The script of such a module. -/
def loggingScript (leading : List Stmt) : Program :=
  ⟨(loggingModule leading).rewrap (loggingModule leading).definition.body⟩

namespace Program

variable {p q : Program} {m : ModuleCall}

/-- With a module, all that can be wrong is that a transform has no candidate or several. -/
theorem reduce_cases (hm : ModuleCall.ofProgram? p = some m) :
    (∃ n sig, soleCandidate .n m.statements = .ok n ∧ soleCandidate .sig m.statements = .ok sig ∧
      p.reduce = .ok (m.assemble n sig)) ∨
    (∃ t, p.reduce = .error (.notFound t)) ∨
    ∃ t found, p.reduce = .error (.ambiguous t found) := by
  -- the signature transform is looked for only once the other has been found
  rcases soleCandidate_cases .n m.statements with ⟨-, hn⟩ | ⟨n, -, hn⟩ | ⟨-, hn⟩
  · exact .inr (.inl ⟨.n, reduce_of_n_error hm hn⟩)
  · rcases soleCandidate_cases .sig m.statements with ⟨-, hsig⟩ | ⟨sig, -, hsig⟩ | ⟨-, hsig⟩
    · exact .inr (.inl ⟨.sig, reduce_of_sig_error hm hn hsig⟩)
    · exact .inl ⟨n, sig, hn, hsig, reduce_of_ok hm hn hsig⟩
    · exact .inr (.inr ⟨.sig, _, reduce_of_sig_error hm hn hsig⟩)
  · exact .inr (.inr ⟨.n, _, reduce_of_n_error hm hn⟩)

/-- A script with a module has a reduction unless a transform has no candidate or several. The
    reduction is the script with the page's stand-ins before it and another module body: of the
    statements that are not skipped it keeps all but those that only evaluate an expression, which
    give no candidate, and it hands out the two transforms after them. -/
theorem reduce_keeps (hm : ModuleCall.ofProgram? p = some m) :
    p.body = m.leading ++
      [.expr (.call (m.entry.callee (.function m.name m.definition)) m.args)] ∧
    ((∃ q, p.reduce = .ok q) ∨ (∃ t, p.reduce = .error (.notFound t)) ∨
      ∃ t found, p.reduce = .error (.ambiguous t found)) ∧
    (∀ q, p.reduce = .ok q → ∃ body kept n sig,
      body = m.definition.body.drop m.leading.length ∧ kept = body.filter Stmt.isRetained ∧
      soleCandidate .n body = .ok n ∧ soleCandidate .sig body = .ok sig ∧
      q.body = pageStandIns ++ m.leading ++
        [.expr (.call (m.entry.callee (.function m.name ⟨m.definition.params, kept ++
          [.expr (.assign none (.member (.ident "_result") "n") n.wrapper),
            .expr (.assign none (.member (.ident "_result") "sig") sig.wrapper)]⟩)) m.args)]) ∧
    ∀ s : Stmt, (s.isRetained = false ↔ s.OnlyEvaluates) ∧
      (s.OnlyEvaluates → ∀ t, Candidate.ofStatement? t s = none) := by
  -- the script as written, why it may fail, what its reduction is, and what is dropped
  refine ⟨?_, ?_, fun q hq => ?_, fun s => ⟨Stmt.isRetained_eq_false_iff, fun hs => ?_⟩⟩
  · rw [ModuleCall.body_of_ofProgram? hm, ModuleCall.rewrap_eq, Function.eta]
  · exact (reduce_cases hm).imp_left fun ⟨_, _, _, _, h⟩ => ⟨_, h⟩
  · obtain ⟨n, sig, hn, hsig, rfl⟩ := (reduce_eq_ok_iff_of_module hm).mp hq
    -- the statements looked at begin after as many as stand before the module
    have hbody := ModuleCall.statements_eq_drop hm
    refine ⟨m.statements, _, n, sig, hbody, rfl, hn, hsig, ?_⟩
    rw [ModuleCall.assemble, ModuleCall.rewrap_eq, ModuleCall.reducedBody,
      handOut_of_soleCandidate hn, handOut_of_soleCandidate hsig, List.append_assoc]
    rfl
  · exact Candidate.ofStatement?_of_not_isRetained (Stmt.isRetained_eq_false_iff.mpr hs)

/-- What is left of such a module after a declaration: its first statement is skipped, and the call
    of `log` is dropped. -/
theorem reduce_keeps_logging :
    let leading : List Stmt := [.define "p" (.object [])]
    ModuleCall.ofProgram? (loggingScript leading) = some (loggingModule leading) ∧
    ∃ q, (loggingScript leading).reduce = .ok q ∧
      q.body = pageStandIns ++ leading ++
        [.expr (.call (.function none ⟨["g"], [.expr (.text "use strict"), aliasStmt, callerStmt,
          .expr (.assign none (.member (.ident "_result") "n")
            (.arrow ["n"] (.expr (.call (.ident "b") [.ident "n"])))),
          .expr (.assign none (.member (.ident "_result") "sig")
            (.arrow ["sig"] (.expr (.call (.ident "f") [.ident "sig"]))))]⟩) [.ident "p"])] := by
  intro leading
  have hm : ModuleCall.ofProgram? (loggingScript leading) = some (loggingModule leading) := rfl
  have hq : (loggingScript leading).reduce =
      .ok ((loggingModule leading).assemble ⟨.n, "b", []⟩ ⟨.sig, "f", []⟩) := rfl
  obtain ⟨body, kept, n, sig, rfl, rfl, hn, hsig, hbody⟩ := (reduce_keeps hm).2.2.1 _ hq
  cases hn
  cases hsig
  exact ⟨hm, _, hq, hbody⟩

/-- The module of a reduced program, on its own, has the transforms of the script. It is reduced
    without losing a statement, and hands out the transforms a second time. -/
theorem reduce_again (hq : p.reduce = .ok q) :
    ∃ m m' last n sig,
      ModuleCall.ofProgram? p = some m ∧ q.body.getLast? = some last ∧
      ModuleCall.ofProgram? ⟨[last]⟩ = some m' ∧ m'.statements = m'.definition.body ∧
      (soleCandidate .n m.statements = .ok n ∧ soleCandidate .sig m.statements = .ok sig) ∧
      (soleCandidate .n m'.statements = .ok n ∧ soleCandidate .sig m'.statements = .ok sig) ∧
      m'.statements.filter Stmt.isRetained = m'.statements ∧
      Program.reduce ⟨[last]⟩ = .ok ⟨pageStandIns ++
        m'.rewrap (m'.definition.body ++ [handOut n, handOut sig])⟩ := by
  obtain ⟨m, n, sig, hm, hn, hsig, rfl⟩ := reduce_eq_ok_iff.mp hq
  obtain ⟨last, hlast, hm'⟩ := ModuleCall.ofProgram?_reduced m n sig
  -- the statements that were kept give the same candidates as before, and those that hand them out
  -- give none
  have hn' := (ModuleCall.soleCandidate_reduced m n sig .n).trans hn
  have hsig' := (ModuleCall.soleCandidate_reduced m n sig .sig).trans hsig
  have hfilter := ModuleCall.filter_reduced m n sig
  refine ⟨m, _, last, n, sig, hm, hlast, hm', rfl, ⟨hn, hsig⟩, ⟨hn', hsig'⟩, hfilter, ?_⟩
  rw [reduce_of_ok hm' hn' hsig', ModuleCall.assemble, ModuleCall.reducedBody, hfilter]
  rfl

/-- Such a module on its own, for instance, hands out its two functions twice. -/
theorem reduce_again_logging :
    let n : Candidate := ⟨.n, "b", []⟩
    let sig : Candidate := ⟨.sig, "f", []⟩
    (loggingScript []).reduce = .ok ((loggingModule []).assemble n sig) ∧
    ∃ last, ((loggingModule []).assemble n sig).body.getLast? = some last ∧
      Program.reduce ⟨[last]⟩ = .ok ⟨pageStandIns ++ (loggingModule []).rewrap
        [.define "w" .this, .expr (.text "use strict"), aliasStmt, callerStmt,
          handOut n, handOut sig, handOut n, handOut sig]⟩ := by
  intro n sig
  have hq : (loggingScript []).reduce = .ok ((loggingModule []).assemble n sig) := rfl
  obtain ⟨m, m', last, n', sig', hm, hlast, hm', -, ⟨hn, hsig⟩, -, -, hagain⟩ := reduce_again hq
  obtain rfl : loggingModule [] = m := Option.some.inj hm
  obtain rfl : n = n' := Except.ok.inj hn
  obtain rfl : sig = sig' := Except.ok.inj hsig
  obtain rfl := Option.some.inj hlast
  obtain rfl := Option.some.inj hm'
  exact ⟨hq, _, hlast, hagain⟩

end Program

end Descramble
