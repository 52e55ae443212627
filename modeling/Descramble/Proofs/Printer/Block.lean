import Descramble.Proofs.Printer.Access

/-!
# Blocks of statements are read back

Statements stand on lines of their own, one after the other. A statement is read up to the gap after
it, unless one of the words that go on with a statement comes next; no statement begins with one of
these.

Main statements: `many_text`, `block_text`, `statement_fails_of_clause`.
-/

namespace Descramble.Reader

variable {n depth : Nat} {s mid r r' : List Char} {st : Stmt} {body : List Stmt}

/-- The text of a statement is read as it, unless what comes after would go on with it. -/
structure StmtReadsBack (n depth : Nat) (st : Stmt) : Prop where
  reads : ∀ r r', ((Printer.stmt depth st).toList ++ r).length < n → skipGap r = .ok r' →
    leadingWord r' ≠ "finally".toList → (st.endsOpen → leadingWord r' ≠ "else".toList) →
    (nested n).statement ((Printer.stmt depth st).toList ++ r) = .ok (st, r')
  /-- The statement does not go on with another one, either. -/
  leads : ∀ r, Solid ((Printer.stmt depth st).toList ++ r) ∧
    leadingWord ((Printer.stmt depth st).toList ++ r) ≠ "finally".toList ∧
    leadingWord ((Printer.stmt depth st).toList ++ r) ≠ "else".toList

/-! ## Lines -/

/-- Indentation is part of the gap. -/
theorem skipGap_indentation (depth : Nat) (s : List Char) :
    skipGap ((Printer.indentation depth).toList ++ s) = skipGap s := by
  unfold Printer.indentation
  rw [String.toList_ofList]
  induction 2 * depth with
  | zero => rfl
  | succ k ih =>
    rw [List.replicate_succ, List.cons_append]
    exact (skipGap_blank (by decide) _).trans ih

/-- One line, and the lines after it. -/
theorem toList_indentedLines (depth : Nat) (text : String) (rest : List String) (r : List Char) :
    (Printer.indentedLines depth (text :: rest)).toList ++ r =
      (Printer.indentation depth).toList ++ (text.toList ++
        '\n' :: ((Printer.indentedLines depth rest).toList ++ r)) := by
  rw [Printer.indentedLines]
  simp only [String.toList_append, List.append_assoc]
  rfl

/-- Every statement has a text. -/
theorem length_stmts (depth : Nat) (body : List Stmt) :
    (Printer.stmts depth body).length = body.length := by
  induction body with
  | nil => rfl
  | cons st body ih => rw [Printer.stmts, List.length_cons, List.length_cons, ih]

/-- There is at least a character for every line. -/
theorem length_le_indentedLines (depth : Nat) (texts : List String) :
    texts.length ≤ (Printer.indentedLines depth texts).toList.length := by
  induction texts with
  | nil => exact Nat.zero_le _
  | cons text rest ih =>
    have happend := toList_indentedLines depth text rest []
    rw [List.append_nil, List.append_nil] at happend
    rw [happend]
    simp only [List.length_append, List.length_cons]
    omega

/-- The statements of a block, up to what is no statement. -/
theorem many_text (lines bound : Nat) (hbody : ∀ st ∈ body, StmtReadsBack n depth st)
    (hbound : body.length ≤ bound)
    (hn : ((Printer.indentedLines lines (Printer.stmts depth body)).toList ++ r).length < n)
    (hr : skipGap r = .ok r') (hend : Fails (nested n).statement r')
    (hfinally : leadingWord r' ≠ "finally".toList) (helse : leadingWord r' ≠ "else".toList) :
    ∃ s, skipGap ((Printer.indentedLines lines (Printer.stmts depth body)).toList ++ r) = .ok s ∧
      leadingWord s ≠ "finally".toList ∧ leadingWord s ≠ "else".toList ∧
      many (nested n).statement bound s = .ok (body, r') := by
  -- from the last statement on: what a statement is read up to depends on what comes after it
  induction body generalizing bound with
  | nil => exact ⟨r', hr, hfinally, helse, many_of_fails hend bound⟩
  | cons st body ih =>
    rw [List.length_cons] at hbound
    obtain ⟨bound, rfl⟩ : ∃ b, bound = b + 1 := ⟨bound - 1, by omega⟩
    rw [Printer.stmts, toList_indentedLines] at hn ⊢
    simp only [List.length_append, List.length_cons] at hn
    obtain ⟨mid, hmid, hfinally', helse', hmany⟩ :=
      ih bound (fun st hst => hbody st (List.mem_cons_of_mem _ hst)) (by omega)
        (by rw [List.length_append]; omega)
    obtain ⟨hreads, hleads⟩ := hbody st List.mem_cons_self
    have hnewline : skipGap ('\n' :: ((Printer.indentedLines lines
        (Printer.stmts depth body)).toList ++ r)) = .ok mid :=
      (skipGap_blank (by decide) _).trans hmid
    -- the next statement begins with neither of the words that would go on with this one
    obtain ⟨hsolid, hnofinally, hnoelse⟩ := hleads ('\n' :: ((Printer.indentedLines lines
      (Printer.stmts depth body)).toList ++ r))
    refine ⟨_, ?_, hnofinally, hnoelse, many_of_ok (hreads _ mid ?_ hnewline hfinally' ?_) hmany⟩
    · rw [skipGap_indentation]
      exact hsolid.skipGap
    · simp only [List.length_append, List.length_cons]
      omega
    · exact fun _ => helse'

/-! ## Where no statement begins -/

/-- A reserved word is no name. -/
theorem ident_fails_of_reserved {word : Name} (hword : IsWord word) (hreserved : isReserved word)
    (hr : Follows r r') : Fails ident (word.toList ++ r) := by
  refine ⟨word.toList ++ r, ?_⟩
  unfold ident
  rw [anyWord_text hword hr]
  exact if_pos hreserved

/-- No expression begins with a word of a `switch`. -/
theorem assignment_fails_of_clause {word : String} (hword : word ∈ ["case", "default"])
    (hr : Follows r r') (hn : (word.toList ++ r).length < n) :
    Fails (nested n).assignment (word.toList ++ r) := by
  have hident : Fails ident (word.toList ++ r) := by
    refine ident_fails_of_reserved ?_ ?_ hr
    all_goals
      simp only [List.mem_cons, List.not_mem_nil, or_false] at hword
      rcases hword with rfl | rfl
    · exact ⟨'c', "ase".toList, rfl, by decide, by decide⟩
    · exact ⟨'d', "efault".toList, rfl, by decide, by decide⟩
    · decide
    · decide
  -- the words are reserved, so they are no names, and nothing else begins with one of them
  have hparts : Fails (Production.params (nested n)) (word.toList ++ r) ∧
      Fails (keyword "new") (word.toList ++ r) ∧ Plain (word.toList ++ r) ∧
      Fails (Production.primary (nested n)) (word.toList ++ r) := by
    simp only [List.mem_cons, List.not_mem_nil, or_false] at hword
    rcases hword with rfl | rfl
    all_goals
      refine ⟨⟨_, rfl⟩, ⟨_, rfl⟩, ⟨⟨_, rfl⟩, ⟨_, rfl⟩⟩, ?_⟩
      refine Fails.of_eq (primary_of_word (by decide) _) ?_
      exact .orElse ⟨_, rfl⟩ <| .orElse ⟨_, rfl⟩ <| .orElse ⟨_, rfl⟩ <| .orElse ⟨_, rfl⟩ <|
        .orElse ⟨_, rfl⟩ <| .orElse ⟨_, rfl⟩ <| .orElse ⟨_, rfl⟩ <| .orElse ⟨_, rfl⟩ <|
        hident.bind _
  obtain ⟨hparams, hnew, hplain, hprimary⟩ := hparts
  obtain ⟨place, harrow⟩ : Fails (Production.arrow (nested n)) (word.toList ++ r) :=
    ((hident.bind _).orElse hparams).bind _
  refine Fails.of_eq ((assignment_eq hn).trans (assignment_apply harrow)) ?_
  exact (conditional_fails (unary_fails (hnew.bind _) hplain hprimary)).bind _

/-- An expression statement fails where no expression begins. -/
theorem expressionStatement_fails (hs : s.length < n) (h : Fails (nested n).assignment s) :
    Fails (Production.expressionStatement (nested n)) s := by
  have hassignment : Fails (Production.assignment (nested n)) s :=
    Fails.of_eq (assignment_eq hs).symm h
  exact ((hassignment.bind _).bind _).bind _

/-- No statement begins at a closing brace or at the end of the text. -/
theorem statement_fails_at_end (hs : s.length < n) (h : ∀ c ∈ s.head?, c = '\x7d') :
    Fails (nested n).statement s := by
  have hexpression : Fails (Production.expressionStatement (nested n)) s := by
    refine expressionStatement_fails hs (assignment_fails hs fun c hc => ?_)
    rw [h c hc]
    decide
  refine Fails.of_eq (statement_eq hs) ?_
  -- thirteen kinds of statement are tried before expressions, and each wants a first character
  cases s with
  | nil =>
    exact .orElse ⟨_, rfl⟩ <| .orElse ⟨_, rfl⟩ <| .orElse ⟨_, rfl⟩ <| .orElse ⟨_, rfl⟩ <|
      .orElse ⟨_, rfl⟩ <| .orElse ⟨_, rfl⟩ <| .orElse ⟨_, rfl⟩ <| .orElse ⟨_, rfl⟩ <|
      .orElse ⟨_, rfl⟩ <| .orElse ⟨_, rfl⟩ <| .orElse ⟨_, rfl⟩ <| .orElse ⟨_, rfl⟩ <|
      .orElse ⟨_, rfl⟩ hexpression
  | cons c s =>
    obtain rfl := h c rfl
    exact .orElse ⟨_, rfl⟩ <| .orElse ⟨_, rfl⟩ <| .orElse ⟨_, rfl⟩ <| .orElse ⟨_, rfl⟩ <|
      .orElse ⟨_, rfl⟩ <| .orElse ⟨_, rfl⟩ <| .orElse ⟨_, rfl⟩ <| .orElse ⟨_, rfl⟩ <|
      .orElse ⟨_, rfl⟩ <| .orElse ⟨_, rfl⟩ <| .orElse ⟨_, rfl⟩ <| .orElse ⟨_, rfl⟩ <|
      .orElse ⟨_, rfl⟩ hexpression

/-- No statement begins with a word of a `switch`. -/
theorem statement_fails_of_clause {word : String} (hword : word ∈ ["case", "default"])
    (hr : Follows r r') (hn : (word.toList ++ r).length < n) :
    Fails (nested n).statement (word.toList ++ r) := by
  have hexpression : Fails (Production.expressionStatement (nested n)) (word.toList ++ r) :=
    expressionStatement_fails hn (assignment_fails_of_clause hword hr hn)
  refine Fails.of_eq (statement_eq hn) ?_
  simp only [List.mem_cons, List.not_mem_nil, or_false] at hword
  rcases hword with rfl | rfl
  all_goals
    exact .orElse ⟨_, rfl⟩ <| .orElse ⟨_, rfl⟩ <| .orElse ⟨_, rfl⟩ <| .orElse ⟨_, rfl⟩ <|
      .orElse ⟨_, rfl⟩ <| .orElse ⟨_, rfl⟩ <| .orElse ⟨_, rfl⟩ <| .orElse ⟨_, rfl⟩ <|
      .orElse ⟨_, rfl⟩ <| .orElse ⟨_, rfl⟩ <| .orElse ⟨_, rfl⟩ <| .orElse ⟨_, rfl⟩ <|
      .orElse ⟨_, rfl⟩ hexpression

/-- Where an expression begins that is neither a function nor an object, the statement is one. -/
theorem statement_of_lead {N : Nested} {kind : LeadKind} (h : Lead kind s)
    (hkind : kind ≠ .ambiguous) :
    Production.statement N s = Production.expressionStatement N s := by
  -- nothing that an expression can begin with is a word of a statement
  have hkeyword (word : String) (hword : word ∈ "function" :: statementWords) :
      Fails (keyword word) s := by
    refine h.keyword_fails ?_
    cases kind with
    | ambiguous => exact absurd rfl hkind
    | plain =>
      have hall : ∀ w ∈ "function" :: statementWords, w ∈ LeadKind.plain.excluded := by decide
      exact hall word hword
    | operator => exact hword
  have hbrace : Fails (symbol "\x7b") s := by
    refine symbol_fails ?_
    have hne := h.head_ne_brace hkind
    obtain ⟨c, cs, rfl, _⟩ := h.head
    exact if_neg (hne c rfl).symm
  have hsemicolon : Fails (symbol ";") s := h.symbol_fails rfl (by decide) (by decide)
  have hattempt : Fails (Production.attemptStatement N) s := by
    obtain ⟨place, htry⟩ := hkeyword "try" (by decide)
    exact ⟨place, bind_of_error htry⟩
  exact (orElse_of_fails ((hbrace.bind _).bind _)).trans <|
    (orElse_of_fails (((((hkeyword "var" (by decide)).bind _).orElse
      (((hkeyword "let" (by decide)).bind _).orElse
        ((hkeyword "const" (by decide)).bind _))).bind _).bind _)).trans <|
    (orElse_of_fails ((hkeyword "function" (by decide)).bind _)).trans <|
    (orElse_of_fails ((hkeyword "return" (by decide)).bind _)).trans <|
    (orElse_of_fails ((hkeyword "if" (by decide)).bind _)).trans <|
    (orElse_of_fails ((hkeyword "for" (by decide)).bind _)).trans <|
    (orElse_of_fails ((hkeyword "while" (by decide)).bind _)).trans <|
    (orElse_of_fails ((hkeyword "switch" (by decide)).bind _)).trans <|
    (orElse_of_fails hattempt).trans <|
    (orElse_of_fails ((hkeyword "throw" (by decide)).bind _)).trans <|
    (orElse_of_fails ((hkeyword "break" (by decide)).bind _)).trans <|
    (orElse_of_fails ((hkeyword "continue" (by decide)).bind _)).trans <|
    orElse_of_fails (hsemicolon.bind _)

/-- An expression statement reads the same expression as a part does. -/
theorem expr_eq (hs : s.length < n) :
    Production.expr (nested n) s = Production.innerExpr (nested n) s := by
  -- the two differ only in the count that they are read with
  have halike : Alike n 1 Expr.Sound (Production.innerExpr (nested n)) (Production.expr (nested n)) :=
    Production.alike_commaJoined
      (nested_alike (K := n) (Nat.le_refl n) (Nat.le_succ n)).assignment (Nat.le_succ n)
      (Nat.le_succ n)
  exact (halike.same s hs).symm

/-! ## Blocks -/

/-- A block is read back: its brace, its statements and the closing brace. -/
theorem block_text (hbody : ∀ st ∈ body, StmtReadsBack n (depth + 1) st)
    (hn : ((Printer.braced depth (Printer.stmts (depth + 1) body)).toList ++ r).length < n)
    (hr : skipGap r = .ok r') :
    Production.block (nested n)
        ((Printer.braced depth (Printer.stmts (depth + 1) body)).toList ++ r) = .ok (body, r') := by
  have hclose := symbol_text "\x7d" hr
  have hend (hs : ('\x7d' :: r).length < n) : Fails (nested n).statement ('\x7d' :: r) :=
    statement_fails_at_end hs fun c hc => by cases hc; rfl
  -- a block without statements has no lines between its braces
  cases body with
  | nil =>
    have hopen : symbol "\x7b" ("\x7b".toList ++ '\x7d' :: r) = .ok ((), '\x7d' :: r) :=
      symbol_text "\x7b" rfl
    have htext : (Printer.braced depth (Printer.stmts (depth + 1) [])).toList ++ r =
        "\x7b".toList ++ '\x7d' :: r := by
      unfold Printer.braced
      rw [Printer.stmts, List.isEmpty_nil, if_pos rfl]
      rfl
    rw [htext] at hn ⊢
    rw [List.length_append] at hn
    refine (bind_of_ok hopen).trans ?_
    refine (bind_of_ok (many_of_fails (hend (by omega)) n)).trans ?_
    exact bind_of_ok hclose
  | cons st body =>
    have htext : (Printer.braced depth (Printer.stmts (depth + 1) (st :: body))).toList ++ r =
        "\x7b".toList ++ '\n' :: ((Printer.indentedLines (depth + 1)
          (Printer.stmts (depth + 1) (st :: body))).toList ++
            ((Printer.indentation depth).toList ++ '\x7d' :: r)) := by
      unfold Printer.braced
      rw [Printer.stmts, List.isEmpty_cons, if_neg Bool.false_ne_true]
      simp only [String.toList_append, List.append_assoc]
      rfl
    rw [htext] at hn ⊢
    simp only [List.length_append, List.length_cons] at hn
    have hbrace : skipGap ((Printer.indentation depth).toList ++ '\x7d' :: r) = .ok ('\x7d' :: r) :=
      (skipGap_indentation depth _).trans rfl
    -- there are no more statements than characters, so the bound on them is not met
    have hbound := length_le_indentedLines (depth + 1) (Printer.stmts (depth + 1) (st :: body))
    rw [length_stmts] at hbound
    obtain ⟨s, hs, _, _, hmany⟩ := many_text (depth + 1) n hbody (by omega)
      (by simp only [List.length_append, List.length_cons]; omega) hbrace
      (hend (by rw [List.length_cons]; omega)) (by rw [leadingWord_cons_of_not (by decide)]; decide)
      (by rw [leadingWord_cons_of_not (by decide)]; decide)
    have hopen := symbol_text "\x7b" ((skipGap_blank (c := '\n') (by decide) _).trans hs)
    exact (bind_of_ok hopen).trans ((bind_of_ok hmany).trans (bind_of_ok hclose))

end Descramble.Reader
