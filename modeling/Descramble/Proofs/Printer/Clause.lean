import Descramble.Proofs.Printer.Statement

/-!
# Statements with several parts are read back

Loops with a head of three places, each of which may be empty, the clauses of a `switch`, and the
handler and finalizer of a `try`.

Main statements: `reads_for`, `reads_switch`, `reads_attempt`.
-/

namespace Descramble.Reader

attribute [local simp] Printer.stmt

variable {n depth : Nat} {s mid r r' : List Char} {e : Expr} {st : Stmt} {body : List Stmt}

/-! ## Loops -/

/-- A place for an expression that may be empty, up to the mark that closes it. -/
theorem afterBlank_text {value : Option Expr} (h : ∀ e ∈ value, ReadsBack n depth e) {c : Char}
    (hc : c = ';' ∨ c = ')')
    (hn : ((Printer.afterBlank (Printer.optionalExpr depth value)).toList ++ c :: r).length < n) :
    ∃ s, skipGap ((Printer.afterBlank (Printer.optionalExpr depth value)).toList ++ c :: r) =
        .ok s ∧
      optional (Production.innerExpr (nested n)) s = .ok (value, c :: r) := by
  -- both marks end an expression and stand at the start of none
  have hall : c ∈ endings ∧ c ∈ closings := by rcases hc with rfl | rfl <;> decide
  have hfollows : Follows (c :: r) (c :: r) := follows_closing hall.1 r
  cases value with
  | none =>
    rw [Printer.optionalExpr, Printer.afterBlank] at hn ⊢
    have hinner : Fails (Production.innerExpr (nested n)) (c :: r) :=
      ((assignment_fails hn fun d hd => by cases hd; exact hall.1).bind _).bind _
    exact ⟨c :: r, hfollows.gap, optional_of_fails hinner⟩
  | some e =>
    have he := h e rfl
    have htext : (Printer.afterBlank (Printer.optionalExpr depth (some e))).toList ++ c :: r =
        ' ' :: ((Printer.expr depth e).toList ++ c :: r) := by
      rw [Printer.optionalExpr, Printer.afterBlank, String.toList_append, List.append_assoc]
      rfl
    rw [htext] at hn ⊢
    rw [List.length_cons] at hn
    obtain ⟨kind, hkind, _⟩ := he.leads _ hfollows.wordEnd
    refine ⟨_, (follows_blank hkind.solid.skipGap).gap, ?_⟩
    exact optional_of_ok (he.written.whole _ _ (by omega) hfollows
      ((stops_closing hall.2 r).mono (by decide)))

/-- What a loop starts with, up to the semicolon after it. -/
theorem forStart_text {start : Option ForStart}
    (hwf : ∀ d, start = some (.declare d) → d.WellFormed)
    (h : ∀ e, .expr e ∈ start.toList.flatMap ForStart.inner → ReadsBack n depth e)
    (hn : ((Printer.forStart depth start).toList ++ ';' :: r).length < n) :
    ∃ s, skipGap ((Printer.forStart depth start).toList ++ ';' :: r) = .ok s ∧
      optional (Production.forStart (nested n)) s = .ok (start, ';' :: r) := by
  have hfollows : Follows (';' :: r) (';' :: r) := follows_closing (by decide) r
  cases start with
  | none =>
    rw [Printer.forStart] at hn ⊢
    have hinner : Fails (Production.innerExpr (nested n)) (';' :: r) :=
      ((assignment_fails hn fun d hd => by cases hd; decide).bind _).bind _
    have hstart : Fails (Production.forStart (nested n)) (';' :: r) :=
      .orElse ⟨_, rfl⟩ (hinner.bind _)
    exact ⟨';' :: r, hfollows.gap, optional_of_fails hstart⟩
  | some start =>
    rw [Option.toList_some, List.flatMap_singleton] at h
    cases start with
    | declare d =>
      rw [Printer.forStart] at hn ⊢
      have hread := declaration_text (hwf d rfl) h hn
      have hsolid := ((reads_declare (n := n) (hwf d rfl) h).leads r).1.skipGap
      rw [Printer.stmt, String.toList_append, List.append_assoc] at hsolid
      exact ⟨_, hsolid, optional_of_ok (orElse_of_ok (bind_of_ok hread))⟩
    | expr e =>
      rw [Printer.forStart] at hn ⊢
      have he := h e (.head _)
      obtain ⟨kind, hkind, _⟩ := he.leads _ hfollows.wordEnd
      have hwhole := he.written.whole _ _ hn hfollows
        ((stops_closing (by decide) r).mono (by decide))
      have hkeyword {word : String} (hword : word ∈ ["var", "let", "const"]) :
          Fails (keyword word) ((Printer.expr depth e).toList ++ ';' :: r) := by
        refine hkind.keyword_fails ?_
        have hall : ∀ kind : LeadKind, ∀ word ∈ ["var", "let", "const"], word ∈ kind.excluded := by
          intro kind
          cases kind <;> decide
        exact hall kind word hword
      -- an expression starts with none of the words that start a declaration
      have hdeclaration : Fails (Production.declaration (nested n))
          ((Printer.expr depth e).toList ++ ';' :: r) :=
        Fails.bind (.orElse ((hkeyword (by decide)).bind _) <|
          .orElse ((hkeyword (by decide)).bind _) ((hkeyword (by decide)).bind _)) _
      refine ⟨_, hkind.solid.skipGap, optional_of_ok ?_⟩
      exact (orElse_of_fails (hdeclaration.bind _)).trans (bind_of_ok hwhole)

/-- A loop with a head of three places is read back. -/
theorem reads_for {start : Option ForStart} {test step : Option Expr}
    (hwf : ∀ d, start = some (.declare d) → d.WellFormed)
    (hstart : ∀ e, .expr e ∈ start.toList.flatMap ForStart.inner → ReadsBack n depth e)
    (htest : ∀ e ∈ test, ReadsBack n depth e) (hstep : ∀ e ∈ step, ReadsBack n depth e)
    (hbody : StmtReadsBack n depth st) :
    StmtReadsBack n depth (.forLoop start test step st) := by
  have htext (r : List Char) : (Printer.stmt depth (.forLoop start test step st)).toList ++ r =
      "for".toList ++ ' ' :: ("(".toList ++ ((Printer.forStart depth start).toList ++
        ';' :: ((Printer.afterBlank (Printer.optionalExpr depth test)).toList ++
          ';' :: ((Printer.afterBlank (Printer.optionalExpr depth step)).toList ++
            ')' :: (' ' :: ((Printer.stmt depth st).toList ++ r)))))) := by
    rw [Printer.stmt]
    simp only [String.toList_append, List.append_assoc]
    rfl
  refine .of_word htext (by decide) (by decide) (fun _ => not_isWordChar_blank) ?_
  intro r r' hn hr hfinally helse
  simp only [List.length_append, List.length_cons] at hn
  -- the three places of the header, each up to the mark after it
  obtain ⟨s₁, hs₁, hread₁⟩ := forStart_text (n := n)
    (r := (Printer.afterBlank (Printer.optionalExpr depth test)).toList ++
      ';' :: ((Printer.afterBlank (Printer.optionalExpr depth step)).toList ++
        ')' :: (' ' :: ((Printer.stmt depth st).toList ++ r))))
    hwf hstart (by simp only [List.length_append, List.length_cons]; omega)
  obtain ⟨s₂, hs₂, hread₂⟩ := afterBlank_text (n := n)
    (r := (Printer.afterBlank (Printer.optionalExpr depth step)).toList ++
      ')' :: (' ' :: ((Printer.stmt depth st).toList ++ r)))
    htest (.inl rfl) (by simp only [List.length_append, List.length_cons]; omega)
  obtain ⟨s₃, hs₃, hread₃⟩ := afterBlank_text (n := n)
    (r := ' ' :: ((Printer.stmt depth st).toList ++ r))
    hstep (.inr rfl) (by simp only [List.length_append, List.length_cons]; omega)
  have hblank := (follows_blank (hbody.leads r).1.skipGap).gap
  -- five kinds of statement are tried before loops with a header
  iterate 5 refine (orElse_of_fails ⟨_, rfl⟩).trans ?_
  refine orElse_of_ok ((bind_of_ok (keyword_text "for" (follows_blank rfl))).trans ?_)
  refine (bind_of_ok (symbol_text "(" hs₁)).trans ((bind_of_ok hread₁).trans ?_)
  refine (bind_of_ok (symbol_text ";" hs₂)).trans ((bind_of_ok hread₂).trans ?_)
  refine (bind_of_ok (symbol_text ";" hs₃)).trans ((bind_of_ok hread₃).trans ?_)
  refine (bind_of_ok (symbol_text ")" hblank)).trans ?_
  exact bind_of_ok (hbody.reads r r' (by rw [List.length_append]; omega) hr hfinally helse)

/-! ## Clauses of a switch -/

/-- A place where the statements of a clause end. -/
structure EndsClause (n : Nat) (s : List Char) : Prop where
  statement : Fails (nested n).statement s
  finalizer : leadingWord s ≠ "finally".toList
  alternative : leadingWord s ≠ "else".toList

/-- What a clause is introduced by. -/
def clauseText (depth : Nat) : Option Expr → String
  | none => "default"
  | some test => "case " ++ Printer.expr depth test

/-- The text of a clause, and of those after it. -/
theorem toList_switchCases (depth : Nat) (clause : SwitchCase) (rest : List SwitchCase)
    (r : List Char) :
    (Printer.switchCases depth (clause :: rest)).toList ++ r =
      (Printer.indentation depth).toList ++ ((clauseText depth clause.test).toList ++
        ':' :: ('\n' :: ((Printer.indentedLines (depth + 1)
          (Printer.stmts (depth + 1) clause.body)).toList ++
            ((Printer.switchCases depth rest).toList ++ r)))) := by
  obtain ⟨test, body⟩ := clause
  cases test with
  | none =>
    rw [Printer.switchCases, clauseText]
    simp only [String.toList_append, List.append_assoc]
    rfl
  | some test =>
    rw [Printer.switchCases, clauseText]
    simp only [String.toList_append, List.append_assoc]
    rfl

/-- The word and the test of a clause, up to the gap after the colon. -/
theorem caseTest_text {test : Option Expr} (h : ∀ e ∈ test, ReadsBack n depth e)
    (hn : ((clauseText depth test).toList ++ ':' :: r).length < n) (hr : skipGap r = .ok r') :
    EndsClause n ((clauseText depth test).toList ++ ':' :: r) ∧
      skipGap ((clauseText depth test).toList ++ ':' :: r) =
        .ok ((clauseText depth test).toList ++ ':' :: r) ∧
      Production.caseTest (nested n) ((clauseText depth test).toList ++ ':' :: r) =
        .ok (test, r') := by
  have hcolon : Follows (':' :: r) (':' :: r) := follows_colon r
  cases test with
  | none =>
    have hword : leadingWord ("default".toList ++ ':' :: r) = "default".toList :=
      (leadingWord_append (by decide) hcolon.wordEnd).1
    rw [clauseText] at hn ⊢
    refine ⟨⟨statement_fails_of_clause (by decide) hcolon hn, ?_, ?_⟩, rfl, ?_⟩
    · rw [hword]
      decide
    · rw [hword]
      decide
    · refine (orElse_of_fails ⟨_, rfl⟩).trans ?_
      exact (bind_of_ok (keyword_text "default" hcolon)).trans (bind_of_ok (symbol_text ":" hr))
  | some test =>
    have he := h test rfl
    have htext : (clauseText depth (some test)).toList ++ ':' :: r =
        "case".toList ++ ' ' :: ((Printer.expr depth test).toList ++ ':' :: r) := by
      rw [clauseText, String.toList_append, List.append_assoc]
      rfl
    rw [htext] at hn ⊢
    -- the test stands behind a blank, and the colon ends it
    obtain ⟨kind, hkind, _⟩ := he.leads _ hcolon.wordEnd
    have hfollows := follows_blank hkind.solid.skipGap
    have hword := (leadingWord_append (w := "case".toList) (by decide) hfollows.wordEnd).1
    refine ⟨⟨statement_fails_of_clause (by decide) hfollows hn, ?_, ?_⟩, rfl, ?_⟩
    · rw [hword]
      decide
    · rw [hword]
      decide
    · simp only [List.length_append, List.length_cons] at hn
      have hwhole := he.written.whole _ _
        (by simp only [List.length_append, List.length_cons]; omega) hcolon
        ((stops_closing (by decide) r).mono (by decide))
      refine orElse_of_ok ((bind_of_ok (keyword_text "case" hfollows)).trans ?_)
      exact (bind_of_ok hwhole).trans (bind_of_ok (symbol_text ":" hr))

/-- The clauses of a `switch`, up to its closing brace. -/
theorem clauses_text {cases : List SwitchCase} (bound : Nat) (hbound : cases.length ≤ bound)
    (htests : ∀ clause ∈ cases, ∀ e ∈ clause.test, ReadsBack n depth e)
    (hbodies : ∀ clause ∈ cases, ∀ st ∈ clause.body, StmtReadsBack n (depth + 1) st)
    (hn : ((Printer.switchCases depth cases).toList ++ r).length < n)
    (hr : skipGap r = .ok ('\x7d' :: r')) (hend : EndsClause n ('\x7d' :: r')) :
    ∃ s, skipGap ((Printer.switchCases depth cases).toList ++ r) = .ok s ∧ EndsClause n s ∧
      many (Production.switchCase (nested n)) bound s = .ok (cases, '\x7d' :: r') := by
  -- from the end, since each clause ends where the next one begins
  induction cases generalizing bound with
  | nil =>
    have hcase : Fails (Production.switchCase (nested n)) ('\x7d' :: r') :=
      Fails.bind (.orElse ⟨_, rfl⟩ ⟨_, rfl⟩) _
    rw [Printer.switchCases]
    exact ⟨'\x7d' :: r', hr, hend, many_of_fails hcase bound⟩
  | cons clause rest ih =>
    rw [List.length_cons] at hbound
    obtain ⟨bound, rfl⟩ : ∃ b, bound = b + 1 := ⟨bound - 1, by omega⟩
    rw [toList_switchCases] at hn ⊢
    simp only [List.length_append, List.length_cons] at hn
    obtain ⟨mid, hmid, hends, hrest⟩ := ih bound (by omega)
      (fun clause hmem => htests clause (List.mem_cons_of_mem _ hmem))
      (fun clause hmem => hbodies clause (List.mem_cons_of_mem _ hmem))
      (by rw [List.length_append]; omega)
    have hlines := length_le_indentedLines (depth + 1) (Printer.stmts (depth + 1) clause.body)
    rw [length_stmts] at hlines
    -- the statements of this clause end where the next one begins
    obtain ⟨s, hs, _, _, hbody⟩ := many_text (depth + 1) n
      (hbodies clause List.mem_cons_self) (by omega)
      (by simp only [List.length_append]; omega) hmid hends.statement hends.finalizer
      hends.alternative
    obtain ⟨hends', hskip, htest⟩ := caseTest_text (n := n) (r := '\n' ::
        ((Printer.indentedLines (depth + 1) (Printer.stmts (depth + 1) clause.body)).toList ++
          ((Printer.switchCases depth rest).toList ++ r)))
      (htests clause List.mem_cons_self)
      (by simp only [List.length_append, List.length_cons]; omega)
      ((skipGap_blank (by decide) _).trans hs)
    refine ⟨_, (skipGap_indentation depth _).trans hskip, hends', many_of_ok ?_ hrest⟩
    obtain ⟨test, body⟩ := clause
    exact (bind_of_ok htest).trans (bind_of_ok hbody)

/-- There is at least a character for every clause. -/
theorem length_le_switchCases (depth : Nat) (cases : List SwitchCase) :
    cases.length ≤ (Printer.switchCases depth cases).toList.length := by
  induction cases with
  | nil => exact Nat.zero_le _
  | cons clause rest ih =>
    have happend := toList_switchCases depth clause rest []
    rw [List.append_nil, List.append_nil] at happend
    rw [happend]
    simp only [List.length_append, List.length_cons]
    omega

/-- A `switch` is read back, with its clauses. -/
theorem reads_switch {cases : List SwitchCase} (hsubject : ReadsBack n depth e)
    (htests : ∀ clause ∈ cases, ∀ e ∈ clause.test, ReadsBack n (depth + 1) e)
    (hbodies : ∀ clause ∈ cases, ∀ st ∈ clause.body, StmtReadsBack n (depth + 2) st) :
    StmtReadsBack n depth (.switch e cases) := by
  have htext (r : List Char) : (Printer.stmt depth (.switch e cases)).toList ++ r =
      "switch".toList ++ ' ' :: ((Printer.parenthesized (Printer.expr depth e)).toList ++
        ' ' :: ("\x7b".toList ++ '\n' :: ((Printer.switchCases (depth + 1) cases).toList ++
          ((Printer.indentation depth).toList ++ '\x7d' :: r)))) := by
    rw [Printer.stmt]
    simp only [Printer.parenthesized, String.toList_append, List.append_assoc]
    rfl
  refine .of_word htext (by decide) (by decide) (fun _ => not_isWordChar_blank) ?_
  intro r r' hn hr _ _
  simp only [List.length_append, List.length_cons] at hn
  obtain ⟨hfollows, hsubject'⟩ := test_text hsubject (s := "\x7b".toList ++ '\n' ::
      ((Printer.switchCases (depth + 1) cases).toList ++
        ((Printer.indentation depth).toList ++ '\x7d' :: r)))
    (by simp only [List.length_append, List.length_cons]; omega) rfl
  -- the bound on the clauses is not met
  have hlength := length_le_switchCases (depth + 1) cases
  -- the closing brace ends the last clause
  have hend : EndsClause n ('\x7d' :: r) := by
    refine ⟨statement_fails_at_end (by rw [List.length_cons]; omega) fun c hc => ?_, ?_, ?_⟩
    · cases hc
      rfl
    · rw [leadingWord_cons_of_not (by decide)]
      decide
    · rw [leadingWord_cons_of_not (by decide)]
      decide
  obtain ⟨s, hs, _, hcases⟩ := clauses_text (n := n)
    (r := (Printer.indentation depth).toList ++ '\x7d' :: r) n (by omega) htests hbodies
    (by simp only [List.length_append, List.length_cons]; omega)
    ((skipGap_indentation depth _).trans rfl) hend
  have hopen := symbol_text "\x7b" ((skipGap_blank (c := '\n') (by decide) _).trans hs)
  -- seven kinds of statement are tried before this one
  iterate 7 refine (orElse_of_fails ⟨_, rfl⟩).trans ?_
  refine orElse_of_ok ((bind_of_ok (keyword_text "switch" hfollows)).trans ?_)
  refine (bind_of_ok hsubject').trans ((bind_of_ok hopen).trans ((bind_of_ok hcases).trans ?_))
  exact bind_of_ok (symbol_text "\x7d" hr)

/-! ## Handlers and finalizers -/

/-- A finalizer, or what comes after where there is none. -/
theorem finallyText_text {finalizer : Option (List Stmt)}
    (hbody : ∀ body ∈ finalizer, ∀ st ∈ body, StmtReadsBack n (depth + 1) st)
    (hn : ((Printer.finallyText depth finalizer).toList ++ r).length < n)
    (hr : skipGap r = .ok r') (hfinally : leadingWord r' ≠ "finally".toList) :
    ∃ s, skipGap ((Printer.finallyText depth finalizer).toList ++ r) = .ok s ∧
      (finalizer ≠ none → leadingWord s ≠ "catch".toList) ∧
      optional (do keyword "finally"; Production.block (nested n)) s = .ok (finalizer, r') := by
  cases finalizer with
  | none =>
    have hkeyword : Fails (keyword "finally") r' := keyword_fails (by decide) hfinally
    rw [Printer.finallyText]
    exact ⟨r', hr, fun hne => absurd rfl hne, optional_of_fails (hkeyword.bind _)⟩
  | some body =>
    have htext : (Printer.finallyText depth (some body)).toList ++ r =
        ' ' :: ("finally".toList ++ ' ' ::
          ((Printer.braced depth (Printer.stmts (depth + 1) body)).toList ++ r)) := by
      rw [Printer.finallyText]
      simp only [String.toList_append, List.append_assoc]
      rfl
    rw [htext] at hn ⊢
    simp only [List.length_append, List.length_cons] at hn
    -- the word, then the block up to what comes after the whole statement
    have hread : (do keyword "finally"; Production.block (nested n) : Reader (List Stmt))
        ("finally".toList ++ ' ' ::
          ((Printer.braced depth (Printer.stmts (depth + 1) body)).toList ++ r)) =
          .ok (body, r') := by
      obtain ⟨cs, hcs⟩ := braced_cons depth (Printer.stmts (depth + 1) body)
      have hblock := block_text (hbody body rfl) (by rw [List.length_append]; omega) hr
      rw [hcs] at hblock ⊢
      exact (bind_of_ok (keyword_text "finally" (follows_blank rfl))).trans hblock
    refine ⟨_, (follows_blank rfl).gap, fun _ => ?_, optional_of_ok hread⟩
    rw [(leadingWord_append (by decide) not_isWordChar_blank).1]
    decide

/-- A handler, or what comes after where there is none. -/
theorem catchText_text {handler : Option CatchClause}
    (hparam : ∀ clause ∈ handler, ∀ param ∈ clause.param, IsName param)
    (hbody : ∀ clause ∈ handler, ∀ st ∈ clause.body, StmtReadsBack n (depth + 1) st)
    (hn : ((Printer.catchText depth handler).toList ++ r).length < n)
    (hr : skipGap r = .ok r') (hcatch : handler = none → leadingWord r' ≠ "catch".toList) :
    ∃ s, skipGap ((Printer.catchText depth handler).toList ++ r) = .ok s ∧
      optional (Production.catchClause (nested n)) s = .ok (handler, r') := by
  cases handler with
  | none =>
    have hkeyword : Fails (keyword "catch") r' := keyword_fails (by decide) (hcatch rfl)
    rw [Printer.catchText]
    exact ⟨r', hr, optional_of_fails (hkeyword.bind _)⟩
  | some clause =>
    obtain ⟨param, body⟩ := clause
    have hstatements : ∀ st ∈ body, StmtReadsBack n (depth + 1) st := hbody ⟨param, body⟩ rfl
    -- a handler without a parameter goes on with its block
    cases param with
    | none =>
      have htext : (Printer.catchText depth (some ⟨none, body⟩)).toList ++ r =
          ' ' :: ("catch".toList ++ ' ' ::
            ((Printer.braced depth (Printer.stmts (depth + 1) body)).toList ++ r)) := by
        rw [Printer.catchText]
        simp only [String.toList_append, List.append_assoc]
        rfl
      rw [htext] at hn ⊢
      simp only [List.length_append, List.length_cons] at hn
      have hblock := block_text hstatements (by rw [List.length_append]; omega) hr
      obtain ⟨cs, hcs⟩ := braced_cons depth (Printer.stmts (depth + 1) body)
      rw [hcs] at hblock ⊢
      have hnone : Fails Production.catchParam ('\x7b' :: cs ++ r) := ⟨_, rfl⟩
      refine ⟨_, (follows_blank rfl).gap, optional_of_ok ?_⟩
      refine (bind_of_ok (keyword_text "catch" (follows_blank rfl))).trans ?_
      exact (bind_of_ok (optional_of_fails hnone)).trans (bind_of_ok hblock)
    | some param =>
      -- a handler with a parameter has it in parentheses before its block
      have hname := hparam ⟨some param, body⟩ rfl param rfl
      have htext : (Printer.catchText depth (some ⟨some param, body⟩)).toList ++ r =
          ' ' :: ("catch".toList ++ ' ' :: ("(".toList ++ (param.toList ++ (")".toList ++ ' ' ::
            ((Printer.braced depth (Printer.stmts (depth + 1) body)).toList ++ r))))) := by
        rw [Printer.catchText]
        simp only [String.toList_append, List.append_assoc]
        rfl
      rw [htext] at hn ⊢
      simp only [List.length_append, List.length_cons] at hn
      have hblock := block_text hstatements (by rw [List.length_append]; omega) hr
      have hclose : Follows (")".toList ++ ' ' ::
          ((Printer.braced depth (Printer.stmts (depth + 1) body)).toList ++ r)) (")".toList ++ ' ' ::
            ((Printer.braced depth (Printer.stmts (depth + 1) body)).toList ++ r)) :=
        follows_closing (by decide) _
      have hsolid := ((ident_item (n := n) hname).solid _ hclose.wordEnd).skipGap
      have hparam' : Production.catchParam ("(".toList ++ (param.toList ++ (")".toList ++ ' ' ::
          ((Printer.braced depth (Printer.stmts (depth + 1) body)).toList ++ r)))) =
            .ok (param, (Printer.braced depth (Printer.stmts (depth + 1) body)).toList ++ r) := by
        refine (bind_of_ok (symbol_text "(" hsolid)).trans ?_
        refine (bind_of_ok (ident_text hname hclose)).trans ?_
        exact bind_of_ok (symbol_text ")" (skipGap_braced depth _ r))
      refine ⟨_, (follows_blank rfl).gap, optional_of_ok ?_⟩
      refine (bind_of_ok (keyword_text "catch" (follows_blank rfl))).trans ?_
      exact (bind_of_ok (optional_of_ok hparam')).trans (bind_of_ok hblock)

/-- A `try` has a handler or a finalizer, so what comes after is not taken for one. -/
theorem reads_attempt {handler : Option CatchClause} {finalizer : Option (List Stmt)}
    (hparts : handler ≠ none ∨ finalizer ≠ none)
    (hparam : ∀ clause ∈ handler, ∀ param ∈ clause.param, IsName param)
    (hbody : ∀ st ∈ body, StmtReadsBack n (depth + 1) st)
    (hhandler : ∀ clause ∈ handler, ∀ st ∈ clause.body, StmtReadsBack n (depth + 1) st)
    (hfinalizer : ∀ body ∈ finalizer, ∀ st ∈ body, StmtReadsBack n (depth + 1) st) :
    StmtReadsBack n depth (.attempt body handler finalizer) := by
  have htext (r : List Char) : (Printer.stmt depth (.attempt body handler finalizer)).toList ++ r =
      "try".toList ++ ' ' :: ((Printer.braced depth (Printer.stmts (depth + 1) body)).toList ++
        ((Printer.catchText depth handler).toList ++
          ((Printer.finallyText depth finalizer).toList ++ r))) := by
    rw [Printer.stmt]
    simp only [String.toList_append, List.append_assoc]
    rfl
  refine .of_word htext (by decide) (by decide) (fun _ => not_isWordChar_blank) ?_
  intro r r' hn hr hfinally _
  simp only [List.length_append, List.length_cons] at hn
  -- from the end: the finalizer decides what the text after the handler starts with
  obtain ⟨s₂, hs₂, hcatch, hread₂⟩ := finallyText_text hfinalizer
    (by rw [List.length_append]; omega) hr hfinally
  obtain ⟨s₁, hs₁, hread₁⟩ := catchText_text hparam hhandler
    (by simp only [List.length_append]; omega) hs₂
    fun hnone => hcatch (hparts.resolve_left (fun hne => hne hnone))
  have hblock := block_text hbody (by simp only [List.length_append]; omega) hs₁
  have hparts' : Production.attemptParts (nested n) ("try".toList ++ ' ' ::
      ((Printer.braced depth (Printer.stmts (depth + 1) body)).toList ++
        ((Printer.catchText depth handler).toList ++
          ((Printer.finallyText depth finalizer).toList ++ r)))) =
        .ok ((body, handler, finalizer), r') := by
    have hfollows := Follows.mk (skipGap_braced depth (Printer.stmts (depth + 1) body)
      ((Printer.catchText depth handler).toList ++
        ((Printer.finallyText depth finalizer).toList ++ r))) not_isWordChar_blank
    refine (bind_of_ok (keyword_text "try" hfollows)).trans ?_
    exact (bind_of_ok hblock).trans ((bind_of_ok hread₁).trans (bind_of_ok hread₂))
  -- a `try` with neither part is an error, which a well-formed one cannot be
  have hattempt : Production.attemptStatement (nested n) ("try".toList ++ ' ' ::
      ((Printer.braced depth (Printer.stmts (depth + 1) body)).toList ++
        ((Printer.catchText depth handler).toList ++
          ((Printer.finallyText depth finalizer).toList ++ r)))) =
        .ok (.attempt body handler finalizer, r') := by
    rw [Production.attemptStatement_apply, hparts']
    refine if_neg ?_
    rw [Bool.and_eq_true, Option.isNone_iff_eq_none, Option.isNone_iff_eq_none]
    exact fun hnone => hparts.elim (fun hne => hne hnone.1) fun hne => hne hnone.2
  -- eight kinds of statement are tried before this one
  iterate 8 refine (orElse_of_fails ⟨_, rfl⟩).trans ?_
  exact orElse_of_ok hattempt

end Descramble.Reader
