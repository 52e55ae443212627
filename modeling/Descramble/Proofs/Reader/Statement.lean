import Descramble.Proofs.Reader.Production

/-!
# Statements and the count of the readers

The readers of a script with different counts do the same with every text that is shorter than both
counts. So the count that a whole text is read with does not matter, what is read is well-formed,
and what is left is an end of the text.

Main statements: `alike_statement`, `nested_alike`.
-/

namespace Descramble.Reader

namespace Production

variable {K : Nat} {N M : Nested} (h : N.Alike K M)
include h

/-- A declaration and the end of the statement. -/
theorem alike_declarationStatement :
    Alike (K + 1) 1 Stmt.Sound (declarationStatement N) (declarationStatement M) :=
  (alike_declaration h).bind fun _ hd => alike_statementEnd.bind fun _ _ =>
    Alike.pure (Stmt.sound_of hd.1 hd.2)

/-- A function that is declared has a name, parameters and a block. -/
theorem alike_functionStatement :
    Alike (K + 1) 1 Stmt.Sound (functionStatement N) (functionStatement M) :=
  (alike_keyword "function" (by decide)).bind fun _ _ =>
    alike_ident.any.bind fun _ hname =>
      ((alike_params h).within (Nat.le_succ K)).bind fun _ hparams =>
        ((alike_block h).within (Nat.le_succ K)).bind fun _ hbody =>
          Alike.pure (Stmt.sound_of ⟨hname, hparams⟩ (Stmt.sound_all hbody))

/-- A `return` may have a value. -/
theorem alike_returnStatement :
    Alike (K + 1) 1 Stmt.Sound (returnStatement N) (returnStatement M) := by
  refine (alike_keyword "return" (by decide)).bind fun _ _ =>
    (alike_innerExpr h).optional.bind fun value hvalue =>
      alike_statementEnd.bind fun _ _ => Alike.pure (Stmt.sound_of trivial ?_)
  exact Expr.sound_all fun e he => hvalue e (Option.mem_toList.mp he)

/-- The two statements of an `if`, after its condition. -/
def branches (nested : Nested) (test : Expr) : Reader Stmt := do
  let yes ← nested.statement
  return .ifElse test yes (← optional (do keyword "else"; nested.statement))

/-- The statements of an `if` are sound, and an `else` belongs to the nearest one before it. -/
theorem alike_branches {test : Expr} (htest : test.Sound) :
    Alike K 1 Stmt.Sound (branches N test) (branches M test) := by
  have helse : Alike K 1 Stmt.Sound
      (do keyword "else"; N.statement) (do keyword "else"; M.statement) :=
    (alike_keyword "else" (by decide)).bind fun _ _ => h.statement.within (Nat.sub_le _ _)
  -- that the parts are sound is read off each of them; that no `else` dangles is not
  have hparts : Alike K 1
      (fun st : Stmt => ∀ part ∈ st.inner, Part.Everywhere Part.WellFormed part)
      (branches N test) (branches M test) := by
    refine h.statement.bind fun yes hyes =>
      (helse.shorter (Nat.sub_le _ _)).optional.bind fun no hno => Alike.pure ?_
    intro part hpart
    rcases List.mem_cons.mp hpart with rfl | hpart
    · exact htest
    rcases List.mem_cons.mp hpart with rfl | hpart
    · exact hyes
    · exact Stmt.sound_all (fun st hst => hno st (Option.mem_toList.mp hst)) part hpart
  refine hparts.strengthen fun s st rest hs hread hinside => Stmt.sound_of ?_ hinside
  obtain ⟨yes, mid, hyes, hrest⟩ := bind_eq_ok hread
  obtain ⟨no, mid', hno, hpure⟩ := bind_eq_ok hrest
  cases hpure
  -- an `else` that has been read was not the one of an `if` inside the first statement: had that
  -- ended open, no `else` could have been read after it
  rcases optional_eq_ok hno with ⟨no, rfl, hok⟩ | ⟨rfl, rfl, _⟩
  · refine Bool.eq_false_iff.mpr fun hopen => ?_
    obtain ⟨place, hfails⟩ := h.open_end s yes mid hs hyes hopen
    rw [hfails] at hok
    cases hok
  · trivial

/-- A word, a condition in parentheses and the statements behind it. -/
theorem alike_ifStatement :
    Alike (K + 1) 1 Stmt.Sound (ifStatement N) (ifStatement M) :=
  (alike_keyword "if" (by decide)).bind fun _ _ =>
    ((alike_parenthesized h).within (Nat.le_succ K)).bind fun _ htest =>
      (alike_branches h htest).any

/-- What a loop begins with is a declaration or an expression. -/
theorem alike_forStart :
    Alike K 1 (fun start => (∀ d, start = .declare d → d.WellFormed) ∧
      ∀ part ∈ start.inner, Part.Everywhere Part.WellFormed part)
      (forStart N) (forStart M) := by
  refine .orElse (((alike_declaration h).shorter (Nat.le_succ K)).bind fun d hd =>
    Alike.pure ⟨fun other hother => ?_, hd.2⟩) ((alike_innerExpr h).bind fun e he =>
      Alike.pure ⟨(fun _ h => by cases h), fun part hpart => ?_⟩)
  · cases hother
    exact hd.1
  · cases List.mem_singleton.mp hpart
    exact he

/-- A `for` loop has three parts in parentheses, of which each may be missing. -/
theorem alike_forStatement :
    Alike (K + 1) 1 Stmt.Sound (forStatement N) (forStatement M) := by
  refine (alike_keyword "for" (by decide)).bind fun _ _ =>
    (alike_symbol "(" (by decide)).any.bind fun _ _ =>
    (alike_forStart h).optional.bind fun start hstart =>
    (alike_symbol ";" (by decide)).any.bind fun _ _ =>
    (alike_innerExpr h).optional.bind fun test htest =>
    (alike_symbol ";" (by decide)).any.bind fun _ _ =>
    (alike_innerExpr h).optional.bind fun step hstep =>
    (alike_symbol ")" (by decide)).any.bind fun _ _ =>
    h.statement.any.bind fun body hbody => Alike.pure (Stmt.sound_of ?_ fun part hpart => ?_)
  · cases start with
    | none => trivial
    | some start =>
      cases start with
      | declare d => exact (hstart _ rfl).1 d rfl
      | expr e => trivial
  -- the parts inside come from the beginning, the test, the step or the body
  · simp only [Stmt.inner, List.mem_append, List.mem_singleton] at hpart
    rcases hpart with ((hpart | hpart) | hpart) | rfl
    · obtain ⟨start', hmem, hpart⟩ := List.mem_flatMap.mp hpart
      exact (hstart start' (Option.mem_toList.mp hmem)).2 part hpart
    · exact Expr.sound_all (fun e he => htest e (Option.mem_toList.mp he)) part hpart
    · exact Expr.sound_all (fun e he => hstep e (Option.mem_toList.mp he)) part hpart
    · exact hbody

/-- A `while` loop has a condition in parentheses and a statement. -/
theorem alike_whileStatement :
    Alike (K + 1) 1 Stmt.Sound (whileStatement N) (whileStatement M) := by
  refine (alike_keyword "while" (by decide)).bind fun _ _ =>
    ((alike_parenthesized h).within (Nat.le_succ K)).bind fun _ htest =>
      h.statement.any.bind fun body hbody =>
        Alike.pure (Stmt.sound_of trivial fun part hpart => ?_)
  rcases List.mem_cons.mp hpart with rfl | hpart
  · exact htest
  · cases List.mem_singleton.mp hpart
    exact hbody

/-- A case has a test, or is the one for whatever no test meets. -/
theorem alike_caseTest :
    Alike K 1 (fun test => ∀ e ∈ test, e.Sound) (caseTest N) (caseTest M) := by
  refine .orElse ((alike_keyword "case" (by decide)).bind fun _ _ =>
    ((alike_innerExpr h).within (Nat.sub_le _ _)).bind fun test htest =>
      (alike_symbol ":" (by decide)).any.bind fun _ _ => Alike.pure fun e he => ?_)
    ((alike_keyword "default" (by decide)).bind fun _ _ =>
      (alike_symbol ":" (by decide)).any.bind fun _ _ => Alike.pure fun _ h => by cases h)
  cases he
  exact htest

/-- A case has statements, up to the next case. -/
theorem alike_switchCase :
    Alike K 1 (fun c => ∀ part ∈ c.inner, Part.Everywhere Part.WellFormed part)
      (switchCase N) (switchCase M) := by
  refine (alike_caseTest h).bind fun test htest =>
    ((h.statement.many h.bound_left h.bound_right).shorter (Nat.sub_le _ _)).bind
      fun body hbody => Alike.pure fun part hpart => ?_
  rcases List.mem_append.mp hpart with hpart | hpart
  · exact Expr.sound_all (fun e he => htest e (Option.mem_toList.mp he)) part hpart
  · exact Stmt.sound_all hbody part hpart

/-- A `switch` has a subject in parentheses and cases in braces. -/
theorem alike_switchStatement :
    Alike (K + 1) 1 Stmt.Sound (switchStatement N) (switchStatement M) := by
  refine (alike_keyword "switch" (by decide)).bind fun _ _ =>
    ((alike_parenthesized h).within (Nat.le_succ K)).bind fun _ hsubject =>
      (alike_symbol "\x7b" (by decide)).any.bind fun _ _ =>
        ((alike_switchCase h).many h.bound_left h.bound_right).bind fun clauses hclauses =>
          (alike_symbol "\x7d" (by decide)).any.bind fun _ _ =>
            Alike.pure (Stmt.sound_of trivial fun part hpart => ?_)
  rcases List.mem_cons.mp hpart with rfl | hpart
  · exact hsubject
  · obtain ⟨c, hc, hpart⟩ := List.mem_flatMap.mp hpart
    exact hclauses c hc part hpart

/-- A handler may have a parameter, and has a block. -/
theorem alike_catchClause :
    Alike K 1 (fun c => (∀ param ∈ c.param, IsName param) ∧ ∀ s ∈ c.body, s.Sound)
      (catchClause N) (catchClause M) := by
  have hparam : Alike K 1 IsName catchParam catchParam :=
    (alike_symbol "(" (by decide)).bind fun _ _ => alike_ident.any.bind fun _ hname =>
      (alike_symbol ")" (by decide)).any.bind fun _ _ => Alike.pure hname
  exact (alike_keyword "catch" (by decide)).bind fun _ _ =>
    (hparam.shorter (Nat.sub_le _ _)).optional.bind fun _ hname =>
      ((alike_block h).within (by omega)).bind fun _ hbody =>
        Alike.pure ⟨hname, hbody⟩

/-- The parts of a `try`, before it is known whether there are enough of them. -/
def attemptParts (nested : Nested) :
    Reader (List Stmt × Option CatchClause × Option (List Stmt)) := do
  keyword "try"
  let body ← block nested
  let handler ← optional (catchClause nested)
  let finalizer ← optional (do keyword "finally"; block nested)
  return (body, handler, finalizer)

omit h in
/-- A `try` is read as its parts, and refused where both that may be missing are. -/
theorem attemptStatement_apply (N : Nested) (s : List Char) :
    attemptStatement N s =
      match attemptParts N s with
      | .ok ((body, handler, finalizer), rest) =>
        if handler.isNone && finalizer.isNone then .error ⟨s, false⟩
        else .ok (.attempt body handler finalizer, rest)
      | .error e => .error e := by
  unfold attemptStatement attemptParts
  -- part by part, since each may end both readers in the same error
  simp only [bind_apply]
  cases keyword "try" s with
  | error e => rfl
  | ok r₁ =>
  dsimp only
  cases block N r₁.2 with
  | error e => rfl
  | ok r₂ =>
  dsimp only
  cases optional (catchClause N) r₂.2 with
  | error e => rfl
  | ok r₃ =>
  dsimp only
  cases optional (do keyword "finally"; block N) r₃.2 with
  | error e => rfl
  | ok r₄ =>
    obtain ⟨handler, rest₃⟩ := r₃
    obtain ⟨finalizer, rest₄⟩ := r₄
    cases handler <;> cases finalizer <;> rfl

/-- The parts of a `try` are sound where they are there. -/
theorem alike_attemptParts :
    Alike (K + 1) 1 (fun parts => (∀ s ∈ parts.1, s.Sound) ∧
      (∀ c ∈ parts.2.1, (∀ param ∈ c.param, IsName param) ∧ ∀ s ∈ c.body, s.Sound) ∧
      ∀ body ∈ parts.2.2, ∀ s ∈ body, s.Sound) (attemptParts N) (attemptParts M) := by
  have hblock : Alike K 0 (fun body => ∀ s ∈ body, s.Sound) (block N) (block M) :=
    (alike_block h).within (Nat.le_succ K)
  exact (alike_keyword "try" (by decide)).bind fun _ _ =>
    hblock.bind fun _ hbody =>
    (alike_catchClause h).optional.bind fun _ hhandler =>
    ((alike_keyword "finally" (by decide)).any.bind fun _ _ => hblock).optional.bind
      fun _ hfinalizer => Alike.pure ⟨hbody, hhandler, hfinalizer⟩

omit h in
/-- A `try` whose parts are sound is sound if it has a handler or a last part. -/
theorem attempt_sound {body : List Stmt} {handler : Option CatchClause}
    {finalizer : Option (List Stmt)} (hparts : ¬(handler.isNone && finalizer.isNone))
    (hbody : ∀ s ∈ body, s.Sound)
    (hhandler : ∀ c ∈ handler, (∀ param ∈ c.param, IsName param) ∧ ∀ s ∈ c.body, s.Sound)
    (hfinalizer : ∀ body ∈ finalizer, ∀ s ∈ body, s.Sound) :
    (Stmt.attempt body handler finalizer).Sound := by
  refine Stmt.sound_of ⟨?_, fun c hc => (hhandler c hc).1⟩ fun part hpart => ?_
  -- one of the two parts is there, as the reader has checked
  · cases handler with
    | some c => exact .inl (Option.some_ne_none c)
    | none =>
      cases finalizer with
      | some body => exact .inr (Option.some_ne_none body)
      | none => exact absurd rfl hparts
  · simp only [Stmt.inner, List.mem_append] at hpart
    rcases hpart with (hpart | hpart) | hpart
    · exact Stmt.sound_all hbody part hpart
    · obtain ⟨c, hc, hpart⟩ := List.mem_flatMap.mp hpart
      exact Stmt.sound_all (hhandler c (Option.mem_toList.mp hc)).2 part hpart
    · cases finalizer with
      | none => cases hpart
      | some body => exact Stmt.sound_all (hfinalizer body rfl) part hpart

/-- A `try` is refused at its beginning, where its parts have begun too. -/
theorem alike_attemptStatement :
    Alike (K + 1) 1 Stmt.Sound (attemptStatement N) (attemptStatement M) where
  same s hs := by
    rw [attemptStatement_apply, attemptStatement_apply, (alike_attemptParts h).same s hs]
  reads s st rest hs hread := by
    rw [attemptStatement_apply] at hread
    cases hparts : attemptParts N s with
    | error e => rw [hparts] at hread; cases hread
    | ok r =>
      obtain ⟨⟨body, handler, finalizer⟩, rest'⟩ := r
      rw [hparts] at hread
      dsimp only at hread
      -- too few parts are an error, so what was read has enough
      split at hread
      · cases hread
      · rename_i henough
        cases hread
        obtain ⟨hsuffix, hlen, hbody, hhandler, hfinalizer⟩ :=
          (alike_attemptParts h).reads s _ _ hs hparts
        exact ⟨hsuffix, hlen, attempt_sound henough hbody hhandler hfinalizer⟩
  fails s e hs hread := by
    rw [attemptStatement_apply] at hread
    cases hparts : attemptParts N s with
    | error e' =>
      rw [hparts] at hread
      cases hread
      exact (alike_attemptParts h).fails s _ hs hparts
    | ok r =>
      rw [hparts] at hread
      dsimp only at hread
      split at hread
      · cases hread
        exact List.suffix_refl _
      · cases hread

omit h in
/-- A statement with one expression is sound if the expression is. -/
theorem expr_stmt_sound {e : Expr} {st : Stmt} (here : st.WellFormed)
    (hinner : st.inner = [.expr e]) (he : e.Sound) : st.Sound := by
  refine Stmt.sound_of here fun part hpart => ?_
  rw [hinner] at hpart
  cases List.mem_singleton.mp hpart
  exact he

/-- A `throw` has a value. -/
theorem alike_raiseStatement :
    Alike (K + 1) 1 Stmt.Sound (raiseStatement N) (raiseStatement M) :=
  (alike_keyword "throw" (by decide)).bind fun _ _ =>
    (alike_innerExpr h).any.bind fun _ he => alike_statementEnd.bind fun _ _ =>
      Alike.pure (expr_stmt_sound trivial rfl he)

/-- An expression on its own is a statement. -/
theorem alike_expressionStatement :
    Alike (K + 1) 1 Stmt.Sound (expressionStatement N) (expressionStatement M) :=
  (alike_expr h).bind fun _ he => alike_statementEnd.bind fun _ _ =>
    Alike.pure (expr_stmt_sound trivial rfl he)

omit h in
/-- A statement without parts is sound if it is well-formed. -/
theorem leaf_sound {st : Stmt} (here : st.WellFormed) (hinner : st.inner = []) : st.Sound :=
  Stmt.sound_of here fun _ hpart => by cases hinner ▸ hpart

/-- Every statement begins with a mark or a word of its own, or is an expression. -/
theorem alike_statement : Alike (K + 1) 1 Stmt.Sound (statement N) (statement M) := by
  -- the two that are a word and nothing more
  have hword (word : String) (st : Stmt) (hne : 0 < word.toList.length) (hst : st.Sound) :
      Alike (K + 1) 1 Stmt.Sound (do keyword word; statementEnd; return st)
        (do keyword word; statementEnd; return st) :=
    (alike_keyword word hne).bind fun _ _ => alike_statementEnd.bind fun _ _ => Alike.pure hst
  exact
    .orElse ((alike_block h).bind fun _ hbody =>
      Alike.pure (Stmt.sound_of trivial (Stmt.sound_all hbody))) <|
    .orElse (alike_declarationStatement h) <|
    .orElse (alike_functionStatement h) <|
    .orElse (alike_returnStatement h) <|
    .orElse (alike_ifStatement h) <|
    .orElse (alike_forStatement h) <|
    .orElse (alike_whileStatement h) <|
    .orElse (alike_switchStatement h) <|
    .orElse (alike_attemptStatement h) <|
    .orElse (alike_raiseStatement h) <|
    .orElse (hword "break" .breakOut (by decide) (leaf_sound trivial rfl)) <|
    .orElse (hword "continue" .continueLoop (by decide) (leaf_sound trivial rfl)) <|
    .orElse (Alike.symbol_value (by decide) (leaf_sound trivial rfl)) <|
    alike_expressionStatement h

/-! ## Where an `else` may follow -/

omit h in
/-- A statement that ends open is an `if` or a loop. -/
theorem statement_open {s rest : List Char} {st : Stmt} (hread : statement N s = .ok (st, rest))
    (hopen : st.endsOpen) :
    ifStatement N s = .ok (st, rest) ∨ forStatement N s = .ok (st, rest) ∨
      whileStatement N s = .ok (st, rest) := by
  -- a production that gives closed statements only has not read this one
  have hnot {p : Reader Stmt} (hp : Gives (fun st => st.endsOpen = false) p)
      (hread : p s = .ok (st, rest)) : False := by
    rw [hp s st rest hread] at hopen
    cases hopen
  -- the alternatives in the order in which they are tried; all but three give a closed statement
  unfold statement at hread
  rcases orElse_eq_ok hread with hread | ⟨_, hread⟩
  · exact (hnot (.bind fun _ => .pure rfl) hread).elim
  rcases orElse_eq_ok hread with hread | ⟨_, hread⟩
  · exact (hnot (.bind fun _ => .bind fun _ => .pure rfl) hread).elim
  rcases orElse_eq_ok hread with hread | ⟨_, hread⟩
  · exact (hnot (.bind fun _ => .bind fun _ => .bind fun _ => .bind fun _ => .pure rfl)
      hread).elim
  rcases orElse_eq_ok hread with hread | ⟨_, hread⟩
  · exact (hnot (.bind fun _ => .bind fun _ => .bind fun _ => .pure rfl) hread).elim
  rcases orElse_eq_ok hread with hread | ⟨_, hread⟩
  · exact .inl hread
  rcases orElse_eq_ok hread with hread | ⟨_, hread⟩
  · exact .inr (.inl hread)
  rcases orElse_eq_ok hread with hread | ⟨_, hread⟩
  · exact .inr (.inr hread)
  rcases orElse_eq_ok hread with hread | ⟨_, hread⟩
  · exact (hnot (.bind fun _ => .bind fun _ => .bind fun _ => .bind fun _ => .bind fun _ =>
      .pure rfl) hread).elim
  rcases orElse_eq_ok hread with hread | ⟨_, hread⟩
  · rw [attemptStatement_apply] at hread
    split at hread
    · split at hread
      · cases hread
      · cases hread
        cases hopen
    · cases hread
  rcases orElse_eq_ok hread with hread | ⟨_, hread⟩
  · exact (hnot (.bind fun _ => .bind fun _ => .bind fun _ => .pure rfl) hread).elim
  rcases orElse_eq_ok hread with hread | ⟨_, hread⟩
  · exact (hnot (.bind fun _ => .bind fun _ => .pure rfl) hread).elim
  rcases orElse_eq_ok hread with hread | ⟨_, hread⟩
  · exact (hnot (.bind fun _ => .bind fun _ => .pure rfl) hread).elim
  rcases orElse_eq_ok hread with hread | ⟨_, hread⟩
  · exact (hnot (.bind fun _ => .pure rfl) hread).elim
  · exact (hnot (.bind fun _ => .bind fun _ => .pure rfl) hread).elim

/-- What follows a statement that ends open does not go on with an `else`. -/
theorem fails_else {s rest : List Char} {st : Stmt} (hs : s.length < K + 1)
    (hread : statement N s = .ok (st, rest)) (hopen : st.endsOpen) :
    Fails (do keyword "else"; N.statement) rest := by
  have hkeyword (word : String) (mid : List Char) (hne : 0 < word.toList.length)
      (hword : keyword word s = .ok ((), mid)) : mid.length < K := by
    have := ((alike_keyword word hne).reads s _ mid hs hword).2.1
    omega
  -- the statement ends with the statement inside it, for which the nested readers know it; only an
  -- `if` without an `else` ends open by itself, and that one has looked for the `else` in vain
  rcases statement_open hread hopen with hif | hfor | hwhile
  · obtain ⟨_, mid, hword, hif⟩ := bind_eq_ok hif
    obtain ⟨test, mid₁, htest, hif⟩ := bind_eq_ok hif
    obtain ⟨yes, mid₂, hyes, hif⟩ := bind_eq_ok hif
    obtain ⟨no, mid₃, hno, hpure⟩ := bind_eq_ok hif
    have hmid := hkeyword "if" mid (by decide) hword
    have := ((alike_parenthesized h).reads mid test mid₁ (by omega) htest).2.1
    have := (h.statement.reads mid₁ yes mid₂ (by omega) hyes).2.1
    -- with an `else` the statement ends as the one behind it does
    rcases optional_eq_ok hno with ⟨no, rfl, helse⟩ | ⟨rfl, rfl, hfails⟩
    · obtain ⟨_, mid₄, helse', hno⟩ := bind_eq_ok helse
      have := ((alike_keyword "else" (by decide)).reads (L := K) mid₂ _ mid₄ (by omega) helse').2.1
      cases hpure
      exact h.open_end mid₄ no _ (by omega) hno hopen
    · cases hpure
      exact hfails
  · obtain ⟨_, mid, hword, hfor⟩ := bind_eq_ok hfor
    obtain ⟨_, mid₁, hbracket, hfor⟩ := bind_eq_ok hfor
    obtain ⟨start, mid₂, hstart, hfor⟩ := bind_eq_ok hfor
    obtain ⟨_, mid₃, hmark, hfor⟩ := bind_eq_ok hfor
    obtain ⟨test, mid₄, htest, hfor⟩ := bind_eq_ok hfor
    obtain ⟨_, mid₅, hmark', hfor⟩ := bind_eq_ok hfor
    obtain ⟨step, mid₆, hstep, hfor⟩ := bind_eq_ok hfor
    obtain ⟨_, mid₇, hclose, hfor⟩ := bind_eq_ok hfor
    obtain ⟨body, mid₈, hbody, hpure⟩ := bind_eq_ok hfor
    have hmid := hkeyword "for" mid (by decide) hword
    have h₁ := ((alike_symbol "(" (by decide)).reads mid _ mid₁ hmid hbracket).2.1
    have h₂ := ((alike_forStart h).optional.reads mid₁ _ mid₂ (by omega) hstart).2.1
    have h₃ := ((alike_symbol ";" (by decide)).reads (L := K) mid₂ _ mid₃ (by omega) hmark).2.1
    have h₄ := ((alike_innerExpr h).optional.reads mid₃ _ mid₄ (by omega) htest).2.1
    have h₅ := ((alike_symbol ";" (by decide)).reads (L := K) mid₄ _ mid₅ (by omega) hmark').2.1
    have h₆ := ((alike_innerExpr h).optional.reads mid₅ _ mid₆ (by omega) hstep).2.1
    have h₇ := ((alike_symbol ")" (by decide)).reads (L := K) mid₆ _ mid₇ (by omega) hclose).2.1
    cases hpure
    exact h.open_end mid₇ body _ (by omega) hbody hopen
  · obtain ⟨_, mid, hword, hwhile⟩ := bind_eq_ok hwhile
    obtain ⟨test, mid₁, htest, hwhile⟩ := bind_eq_ok hwhile
    obtain ⟨body, mid₂, hbody, hpure⟩ := bind_eq_ok hwhile
    have hmid := hkeyword "while" mid (by decide) hword
    have := ((alike_parenthesized h).reads mid test mid₁ (by omega) htest).2.1
    cases hpure
    exact h.open_end mid₁ body _ (by omega) hbody hopen

end Production

/-! ## The count does not matter -/

/-- No text is shorter than nothing. -/
theorem Alike.none {α : Type} {l : Nat} {P : α → Prop} {p q : Reader α} : Alike 0 l P p q :=
  ⟨fun _ hs => absurd hs (Nat.not_lt_zero _), fun _ _ _ hs => absurd hs (Nat.not_lt_zero _),
    fun _ _ hs => absurd hs (Nat.not_lt_zero _)⟩

/-- The readers that count down from `n` to any readers. -/
def tied (last : Nested) : Nat → Nested
  | 0 => last
  | n + 1 =>
    let inner := tied last n
    ⟨n + 1, Production.assignment inner, Production.unary inner, Production.construct inner,
      Production.statement inner⟩

/-- Readers that count down do the same with texts shorter than both counts, whatever they count
    down to: on such a text the count never runs out. -/
theorem tied_alike {last last' : Nested} {K n m : Nat} (hn : K ≤ n) (hm : K ≤ m) :
    (tied last n).Alike K (tied last' m) := by
  induction K generalizing last last' n m with
  | zero =>
    exact ⟨Nat.zero_le _, Nat.zero_le _, .none, .none, .none, .none,
      fun _ _ _ hs => absurd hs (Nat.not_lt_zero _)⟩
  | succ K ih =>
    -- both counts can be counted down once more
    obtain ⟨n, rfl⟩ : ∃ k, n = k + 1 := ⟨n - 1, by omega⟩
    obtain ⟨m, rfl⟩ : ∃ k, m = k + 1 := ⟨m - 1, by omega⟩
    have h : (tied last n).Alike K (tied last' m) := ih (by omega) (by omega)
    refine ⟨hn, hm, Production.alike_assignment h, Production.alike_unary h,
      Production.alike_construct h, Production.alike_statement h, fun s st rest hs hread hopen => ?_⟩
    -- the readers after the `else` count one more, which the shorter text does not tell apart
    have hnext : (tied last n).Alike K (tied last (n + 1)) := ih (by omega) (by omega)
    have hlen := ((Production.alike_statement h).reads s st rest hs hread).2.1
    have helse : Alike K 1 Stmt.Sound (do keyword "else"; (tied last n).statement)
        (do keyword "else"; (tied last (n + 1)).statement) :=
      (alike_keyword "else" (by decide)).bind fun _ _ =>
        hnext.statement.within (Nat.sub_le _ _)
    exact (helse.fails_iff (by omega)).mp (Production.fails_else h hs hread hopen)

/-- The readers of a script count down to readers that fail. -/
theorem tied_nested_zero (n : Nat) : tied (nested 0) n = nested n := by
  induction n with
  | zero => rfl
  | succ n ih =>
    unfold tied
    rw [ih]
    rfl

/-- Readers with different counts do the same with texts shorter than both. -/
theorem nested_alike {K n m : Nat} (hn : K ≤ n) (hm : K ≤ m) :
    (nested n).Alike K (nested m) := by
  rw [← tied_nested_zero n, ← tied_nested_zero m]
  exact tied_alike hn hm

end Descramble.Reader
