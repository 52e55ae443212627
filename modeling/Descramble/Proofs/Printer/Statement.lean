import Descramble.Proofs.Printer.Function

/-!
# Statements are read back

Which reader takes a statement is settled by its first word, and where that begins an expression, by
the first token of the expression. The printer puts parentheses around an expression that would be
taken for another kind of statement.

Main statements: one for each kind of statement, `reads_expr` up to `reads_attempt`.
-/

namespace Descramble.Reader

attribute [local simp] Printer.stmt

variable {n depth : Nat} {s mid r r' : List Char} {e test : Expr} {st yes no : Stmt}
  {body : List Stmt}

/-! ## What a statement begins with -/

/-- A text that a statement may go on with is not the text of a statement. -/
theorem leads_of_word {word : String} (hword : ∀ c ∈ word.toList, isWordChar c)
    (hne : word.toList ≠ [] ∧ word.toList ≠ "finally".toList ∧ word.toList ≠ "else".toList)
    (hr : ∀ c ∈ r.head?, isWordChar c = false) :
    Solid (word.toList ++ r) ∧ leadingWord (word.toList ++ r) ≠ "finally".toList ∧
      leadingWord (word.toList ++ r) ≠ "else".toList := by
  rw [(leadingWord_append hword hr).1]
  obtain ⟨c, cs, hcs⟩ := List.exists_cons_of_ne_nil hne.1
  refine ⟨⟨c, cs ++ r, by rw [hcs]; rfl, not_isBlank_of_isWordChar (hword c ?_)⟩, hne.2⟩
  rw [hcs]
  exact List.mem_cons_self

/-- A text that begins with a mark is no gap, and begins with no word. -/
theorem leads_of_mark {c : Char} (hblank : isBlank c = false ∧ c ≠ '/')
    (hc : isWordChar c = false) (s : List Char) :
    Solid (c :: s) ∧ leadingWord (c :: s) ≠ "finally".toList ∧
      leadingWord (c :: s) ≠ "else".toList := by
  rw [leadingWord_cons_of_not hc]
  exact ⟨⟨c, s, rfl, hblank⟩, by decide, by decide⟩

/-- A text that begins an expression is no gap, and no statement goes on with it. -/
theorem leads_of_lead {kind : LeadKind} (h : Lead kind s) :
    Solid s ∧ leadingWord s ≠ "finally".toList ∧ leadingWord s ≠ "else".toList := by
  have hall : ∀ kind : LeadKind, "finally" ∈ kind.excluded ∧ "else" ∈ kind.excluded := by
    intro kind
    cases kind <;> decide
  exact ⟨h.solid, h.leadingWord_ne (hall kind).1, h.leadingWord_ne (hall kind).2⟩

/-- No word goes on with a blank. -/
theorem not_isWordChar_blank {s : List Char} : ∀ c ∈ (' ' :: s).head?, isWordChar c = false := by
  intro c hc
  cases hc
  decide

/-- No word goes on with a semicolon. -/
theorem not_isWordChar_semicolon {s : List Char} :
    ∀ c ∈ (';' :: s).head?, isWordChar c = false := by
  intro c hc
  cases hc
  decide

/-! ## Expressions and jumps -/

/-- The end of a statement that is written with a semicolon. -/
theorem statementEnd_text (hr : skipGap r = .ok r') : statementEnd (';' :: r) = .ok ((), r') :=
  symbol_text ";" hr

/-- An expression on its own. -/
theorem reads_expr (h : ReadsBack n depth e) : StmtReadsBack n depth (.expr e) := by
  have htext : ∃ text, Printer.stmt depth (.expr e) = text ++ ";" ∧ Leads 0 false text.toList ∧
      ReadsAs n 1 (Production.innerExpr (nested n)) text.toList e := by
    rw [Printer.stmt]
    -- an expression that could start a block or a declaration stands in parentheses
    cases hambiguous : e.startsAmbiguously with
    | true =>
      have hwritten : Written n 1 (Printer.parenthesized (Printer.expr depth e)).toList e false :=
        .parenthesized h.leads h.written
      exact ⟨_, rfl, leads_parenthesized 0 _, hwritten.whole⟩
    | false =>
      have hleads := h.leads
      rw [hambiguous] at hleads
      exact ⟨_, rfl, hleads.mono (fun hk => absurd hk (by decide)), h.written.whole⟩
  obtain ⟨text, htext, hleads, hread⟩ := htext
  have hlist (r : List Char) : (Printer.stmt depth (.expr e)).toList ++ r =
      text.toList ++ ';' :: r := by
    rw [htext, String.toList_append, List.append_assoc]
    rfl
  constructor
  case reads =>
    intro r r' hn hr _ _
    rw [hlist] at hn ⊢
    obtain ⟨kind, hkind, _, hambiguous⟩ := hleads _ not_isWordChar_semicolon
    rw [statement_eq hn, statement_of_lead hkind (hambiguous rfl)]
    -- r)
    have hwhole := hread (';' :: r) _ hn (follows_closing (by decide) r)
      ((stops_closing (by decide) r).mono (by decide))
    exact (bind_of_ok ((expr_eq hn).trans hwhole)).trans (bind_of_ok (statementEnd_text hr))
  case leads =>
    intro r
    rw [hlist]
    obtain ⟨kind, hkind, _⟩ := hleads _ not_isWordChar_semicolon
    exact leads_of_lead hkind

/-- A statement that begins with a word of its own. -/
theorem StmtReadsBack.of_word {word : String} {tail : List Char → List Char}
    (htext : ∀ r, (Printer.stmt depth st).toList ++ r = word.toList ++ tail r)
    (hword : ∀ c ∈ word.toList, isWordChar c)
    (hne : word.toList ≠ [] ∧ word.toList ≠ "finally".toList ∧ word.toList ≠ "else".toList)
    (htail : ∀ r, ∀ c ∈ (tail r).head?, isWordChar c = false)
    (hreads : ∀ r r', (word.toList ++ tail r).length < n → skipGap r = .ok r' →
      leadingWord r' ≠ "finally".toList → (st.endsOpen → leadingWord r' ≠ "else".toList) →
      Production.statement (nested n) (word.toList ++ tail r) = .ok (st, r')) :
    StmtReadsBack n depth st where
  reads r r' hn hr hfinally helse := by
    rw [htext] at hn ⊢
    rw [statement_eq hn]
    exact hreads r r' hn hr hfinally helse
  leads r := by
    rw [htext]
    exact leads_of_word hword hne (htail r)

/-- A jump out of a loop or a `switch`. -/
theorem reads_breakOut : StmtReadsBack n depth .breakOut := by
  have htext (r : List Char) : (Printer.stmt depth .breakOut).toList ++ r =
      "break".toList ++ ';' :: r := by
    rw [Printer.stmt]
    rfl
  refine .of_word htext (by decide) (by decide) (fun _ => not_isWordChar_semicolon) ?_
  intro r r' _ hr _ _
  have hkeyword := keyword_text "break" (follows_closing (c := ';') (by decide) r)
  -- the other statements with a word of their own are tried first, and each fails at its word
  iterate 10 refine (orElse_of_fails ⟨_, rfl⟩).trans ?_
  exact orElse_of_ok ((bind_of_ok hkeyword).trans (bind_of_ok (statementEnd_text hr)))

/-- A jump to the next turn of a loop. -/
theorem reads_continueLoop : StmtReadsBack n depth .continueLoop := by
  have htext (r : List Char) : (Printer.stmt depth .continueLoop).toList ++ r =
      "continue".toList ++ ';' :: r := by
    rw [Printer.stmt]
    rfl
  refine .of_word htext (by decide) (by decide) (fun _ => not_isWordChar_semicolon) ?_
  intro r r' _ hr _ _
  have hkeyword := keyword_text "continue" (follows_closing (c := ';') (by decide) r)
  iterate 11 refine (orElse_of_fails ⟨_, rfl⟩).trans ?_
  exact orElse_of_ok ((bind_of_ok hkeyword).trans (bind_of_ok (statementEnd_text hr)))

/-- A statement that does nothing. -/
theorem reads_empty : StmtReadsBack n depth .empty := by
  have htext (r : List Char) : (Printer.stmt depth .empty).toList ++ r = ";".toList ++ r := by
    rw [Printer.stmt]
  constructor
  case reads =>
    intro r r' hn hr _ _
    rw [htext] at hn ⊢
    rw [statement_eq hn]
    -- every other statement begins with a word or a brace
    iterate 12 refine (orElse_of_fails ⟨_, rfl⟩).trans ?_
    exact orElse_of_ok (bind_of_ok (symbol_text ";" hr))
  case leads =>
    intro r
    rw [htext]
    exact leads_of_mark (by decide) (by decide) r

/-- A value that is thrown. -/
theorem reads_raise (h : ReadsBack n depth e) : StmtReadsBack n depth (.raise e) := by
  have htext (r : List Char) : (Printer.stmt depth (.raise e)).toList ++ r =
      "throw".toList ++ ' ' :: ((Printer.expr depth e).toList ++ ';' :: r) := by
    rw [Printer.stmt]
    simp only [String.toList_append, List.append_assoc]
    rfl
  refine .of_word htext (by decide) (by decide) (fun _ => not_isWordChar_blank) ?_
  intro r r' hn hr _ _
  simp only [List.length_append, List.length_cons] at hn
  obtain ⟨kind, hkind, _⟩ := h.leads _ (not_isWordChar_semicolon (s := r))
  have hwhole := h.written.whole (';' :: r) _
    (by simp only [List.length_append, List.length_cons]; omega) (follows_closing (by decide) r)
    ((stops_closing (by decide) r).mono (by decide))
  have hkeyword := keyword_text "throw" (follows_blank hkind.solid.skipGap)
  iterate 9 refine (orElse_of_fails ⟨_, rfl⟩).trans ?_
  refine orElse_of_ok ((bind_of_ok hkeyword).trans ?_)
  exact (bind_of_ok hwhole).trans (bind_of_ok (statementEnd_text hr))

/-- A `return`, with a value or without. -/
theorem reads_giveBack {value : Option Expr} (h : ∀ e ∈ value, ReadsBack n depth e) :
    StmtReadsBack n depth (.giveBack value) := by
  cases value with
  | none =>
    have htext (r : List Char) : (Printer.stmt depth (.giveBack none)).toList ++ r =
        "return".toList ++ ';' :: r := by
      rw [Printer.stmt, Printer.optionalExpr]
      rfl
    refine .of_word htext (by decide) (by decide) (fun _ => not_isWordChar_semicolon) ?_
    intro r r' hn hr _ _
    rw [List.length_append] at hn
    have hkeyword := keyword_text "return" (follows_closing (c := ';') (by decide) r)
    -- no expression starts with a semicolon
    have hinner : Fails (Production.innerExpr (nested n)) (';' :: r) :=
      ((assignment_fails (by omega) fun c hc => by cases hc; decide).bind _).bind _
    iterate 3 refine (orElse_of_fails ⟨_, rfl⟩).trans ?_
    refine orElse_of_ok ((bind_of_ok hkeyword).trans ?_)
    exact (bind_of_ok (optional_of_fails hinner)).trans (bind_of_ok (statementEnd_text hr))
  | some e =>
    have he := h e rfl
    have htext (r : List Char) : (Printer.stmt depth (.giveBack (some e))).toList ++ r =
        "return".toList ++ ' ' :: ((Printer.expr depth e).toList ++ ';' :: r) := by
      rw [Printer.stmt, Printer.optionalExpr, Printer.afterBlank]
      simp only [String.toList_append, List.append_assoc]
      rfl
    refine .of_word htext (by decide) (by decide) (fun _ => not_isWordChar_blank) ?_
    intro r r' hn hr _ _
    simp only [List.length_append, List.length_cons] at hn
    obtain ⟨kind, hkind, _⟩ := he.leads _ (not_isWordChar_semicolon (s := r))
    have hwhole := he.written.whole (';' :: r) _
      (by simp only [List.length_append, List.length_cons]; omega) (follows_closing (by decide) r)
      ((stops_closing (by decide) r).mono (by decide))
    have hkeyword := keyword_text "return" (follows_blank hkind.solid.skipGap)
    iterate 3 refine (orElse_of_fails ⟨_, rfl⟩).trans ?_
    refine orElse_of_ok ((bind_of_ok hkeyword).trans ?_)
    exact (bind_of_ok (optional_of_ok hwhole)).trans (bind_of_ok (statementEnd_text hr))

/-! ## Blocks, functions and branches -/

/-- Statements in braces. -/
theorem reads_block (hbody : ∀ st ∈ body, StmtReadsBack n (depth + 1) st) :
    StmtReadsBack n depth (.block body) := by
  constructor
  case reads =>
    intro r r' hn hr _ _
    rw [statement_eq hn]
    rw [Printer.stmt] at hn ⊢
    exact orElse_of_ok (bind_of_ok (block_text hbody hn hr))
  case leads =>
    intro r
    rw [Printer.stmt]
    obtain ⟨cs, hcs⟩ := braced_cons depth (Printer.stmts (depth + 1) body)
    rw [hcs]
    exact leads_of_mark (by decide) (by decide) _

/-- A function that is declared. -/
theorem reads_function {name : Name} {definition : Function} (hname : IsName name)
    (hparams : ∀ param ∈ definition.params, IsName param)
    (hbody : ∀ st ∈ definition.body, StmtReadsBack n (depth + 1) st) :
    StmtReadsBack n depth (.function name definition) := by
  have htext (r : List Char) : (Printer.stmt depth (.function name definition)).toList ++ r =
      "function".toList ++ ' ' :: (name.toList ++
        ((signatureText depth definition.params definition.body).toList ++ r)) := by
    rw [Printer.stmt, functionHead_some]
    simp only [String.toList_append, List.append_assoc]
    rfl
  refine .of_word htext (by decide) (by decide) (fun _ => not_isWordChar_blank) ?_
  intro r r' hn hr _ _
  simp only [List.length_append, List.length_cons] at hn
  have hsignature := follows_signature depth definition.params definition.body r
  obtain ⟨mid, hparams', hblock⟩ := signature_text (n := n) (r := r) depth hparams hbody
    (by rw [List.length_append]; omega) hr
  have hsolid := ((ident_item (n := n) hname).solid _ hsignature.wordEnd).skipGap
  -- after the word comes the name, then the parameters and the block
  have hkeyword := keyword_text "function" (follows_blank hsolid)
  iterate 2 refine (orElse_of_fails ⟨_, rfl⟩).trans ?_
  refine orElse_of_ok ((bind_of_ok hkeyword).trans ?_)
  refine (bind_of_ok (ident_text hname hsignature)).trans ((bind_of_ok hparams').trans ?_)
  cases definition
  exact bind_of_ok hblock

/-- A condition in parentheses, with a blank on either side. -/
theorem test_text (h : ReadsBack n depth test)
    (hn : ((Printer.parenthesized (Printer.expr depth test)).toList ++ ' ' :: s).length < n)
    (hs : skipGap s = .ok r') :
    Follows (' ' :: ((Printer.parenthesized (Printer.expr depth test)).toList ++ ' ' :: s))
        ((Printer.parenthesized (Printer.expr depth test)).toList ++ ' ' :: s) ∧
      Production.parenthesized (nested n)
          ((Printer.parenthesized (Printer.expr depth test)).toList ++ ' ' :: s) =
        .ok (test, r') := by
  rw [toList_parenthesized] at hn ⊢
  exact ⟨follows_blank rfl, parenthesized_text h.leads h.written.whole hn (follows_blank hs).gap⟩

/-- An `if` without an `else`, where none may follow it. -/
theorem reads_if (htest : ReadsBack n depth test) (hyes : StmtReadsBack n depth yes) :
    StmtReadsBack n depth (.ifElse test yes none) := by
  have htext (r : List Char) : (Printer.stmt depth (.ifElse test yes none)).toList ++ r =
      "if".toList ++ ' ' :: ((Printer.parenthesized (Printer.expr depth test)).toList ++
        ' ' :: ((Printer.stmt depth yes).toList ++ r)) := by
    rw [Printer.stmt]
    simp only [Printer.parenthesized, String.toList_append, List.append_assoc]
    rfl
  refine .of_word htext (by decide) (by decide) (fun _ => not_isWordChar_blank) ?_
  intro r r' hn hr hfinally helse
  simp only [List.length_append, List.length_cons] at hn
  obtain ⟨hfollows, htest'⟩ := test_text htest
    (by simp only [List.length_append, List.length_cons]; omega) (hyes.leads r).1.skipGap
  -- nothing after it may be read as its `else`
  have hnoelse : Fails (keyword "else") r' := keyword_fails (by decide) (helse rfl)
  iterate 4 refine (orElse_of_fails ⟨_, rfl⟩).trans ?_
  refine orElse_of_ok ((bind_of_ok (keyword_text "if" hfollows)).trans ?_)
  refine (bind_of_ok htest').trans ?_
  refine (bind_of_ok (hyes.reads r r' (by rw [List.length_append]; omega) hr hfinally
    fun _ => helse rfl)).trans ?_
  exact bind_of_ok (optional_of_fails (hnoelse.bind _))

/-- An `if` without an `else` ends open. -/
theorem endsOpen_of_isOpenIf (h : st.isOpenIf) : st.endsOpen := by
  cases st with
  | ifElse test yes no =>
    cases no with
    | none => rfl
    | some no => cases h
  | _ => cases h

/-- An `else` belongs to the statement in front of it that ends open, so there must be none. -/
theorem reads_ifElse (htest : ReadsBack n depth test) (hyes : StmtReadsBack n depth yes)
    (hno : StmtReadsBack n depth no) (hclosed : yes.endsOpen = false) :
    StmtReadsBack n depth (.ifElse test yes (some no)) := by
  have htext (r : List Char) : (Printer.stmt depth (.ifElse test yes (some no))).toList ++ r =
      "if".toList ++ ' ' :: ((Printer.parenthesized (Printer.expr depth test)).toList ++
        ' ' :: ((Printer.stmt depth yes).toList ++ ' ' :: ("else".toList ++
          ' ' :: ((Printer.stmt depth no).toList ++ r)))) := by
    -- a first branch that is closed gets no braces of its own
    have hopen : yes.isOpenIf = false := by
      refine Bool.eq_false_iff.mpr fun hopen => ?_
      rw [endsOpen_of_isOpenIf hopen] at hclosed
      cases hclosed
    rw [Printer.stmt, hopen, if_neg Bool.false_ne_true]
    simp only [Printer.parenthesized, String.toList_append, List.append_assoc]
    rfl
  refine .of_word htext (by decide) (by decide) (fun _ => not_isWordChar_blank) ?_
  intro r r' hn hr hfinally helse
  simp only [List.length_append, List.length_cons] at hn
  have hsolid := (hyes.leads (' ' :: ("else".toList ++
    ' ' :: ((Printer.stmt depth no).toList ++ r)))).1.skipGap
  obtain ⟨hfollows, htest'⟩ := test_text htest
    (by simp only [List.length_append, List.length_cons]; omega) hsolid
  -- the first branch is closed, so the word `else` ends it
  have hyes' : (nested n).statement ((Printer.stmt depth yes).toList ++
      ' ' :: ("else".toList ++ ' ' :: ((Printer.stmt depth no).toList ++ r))) =
        .ok (yes, "else".toList ++ ' ' :: ((Printer.stmt depth no).toList ++ r)) := by
    refine hyes.reads _ _ (by simp only [List.length_append, List.length_cons]; omega)
      (follows_blank rfl).gap ?_ fun hopen => ?_
    · rw [(leadingWord_append (by decide) not_isWordChar_blank).1]
      decide
    · rw [hclosed] at hopen
      cases hopen
  have hno' : (do keyword "else"; (nested n).statement : Reader Stmt)
      ("else".toList ++ ' ' :: ((Printer.stmt depth no).toList ++ r)) = .ok (no, r') := by
    refine (bind_of_ok (keyword_text "else" (follows_blank (hno.leads r).1.skipGap))).trans ?_
    exact hno.reads r r' (by rw [List.length_append]; omega) hr hfinally helse
  iterate 4 refine (orElse_of_fails ⟨_, rfl⟩).trans ?_
  refine orElse_of_ok ((bind_of_ok (keyword_text "if" hfollows)).trans ?_)
  refine (bind_of_ok htest').trans ((bind_of_ok hyes').trans ?_)
  exact bind_of_ok (optional_of_ok hno')

/-- A loop with a condition. -/
theorem reads_while (htest : ReadsBack n depth test) (hbody : StmtReadsBack n depth st) :
    StmtReadsBack n depth (.whileLoop test st) := by
  have htext (r : List Char) : (Printer.stmt depth (.whileLoop test st)).toList ++ r =
      "while".toList ++ ' ' :: ((Printer.parenthesized (Printer.expr depth test)).toList ++
        ' ' :: ((Printer.stmt depth st).toList ++ r)) := by
    rw [Printer.stmt]
    simp only [Printer.parenthesized, String.toList_append, List.append_assoc]
    rfl
  refine .of_word htext (by decide) (by decide) (fun _ => not_isWordChar_blank) ?_
  intro r r' hn hr hfinally helse
  simp only [List.length_append, List.length_cons] at hn
  obtain ⟨hfollows, htest'⟩ := test_text htest
    (by simp only [List.length_append, List.length_cons]; omega) (hbody.leads r).1.skipGap
  iterate 6 refine (orElse_of_fails ⟨_, rfl⟩).trans ?_
  refine orElse_of_ok ((bind_of_ok (keyword_text "while" hfollows)).trans ?_)
  refine (bind_of_ok htest').trans ?_
  exact bind_of_ok (hbody.reads r r' (by rw [List.length_append]; omega) hr hfinally helse)

/-! ## Declarations -/

/-- The text of one name that a declaration introduces. -/
def declaratorText (depth : Nat) (d : Declarator) : String :=
  match d.init with
  | none => d.name
  | some init => d.name ++ " = " ++ Printer.atLeast 2 init.binding (Printer.expr depth init)

/-- The declarators of a declaration are written one by one. -/
theorem declaratorTexts_eq_map (depth : Nat) (declarators : List Declarator) :
    Printer.declaratorTexts depth declarators = declarators.map (declaratorText depth) := by
  induction declarators with
  | nil => rfl
  | cons d declarators ih =>
    obtain ⟨name, init⟩ := d
    cases init with
    | none => rw [Printer.declaratorTexts, ih]; rfl
    | some init => rw [Printer.declaratorTexts, ih]; rfl

/-- Where the last of several readers is not ruled out, it fails, too. -/
theorem Fails.right {α : Type} {p q : Reader α} (h : Fails (p <|> q) s) : Fails q s := by
  obtain ⟨place, h⟩ := h
  rw [orElse_apply] at h
  cases hp : p s with
  | ok res => rw [hp] at h; cases h
  | error e =>
    obtain ⟨place', isFinal⟩ := e
    rw [hp] at h
    cases isFinal with
    | true => cases h
    | false => exact ⟨place, h⟩

/-- What stops an assignment is no plain one. -/
theorem Stops.equals {k : Nat} (h : Stops k s) (hk : k ≤ 2) :
    Fails (Reader.operator "=" ['=', '>']) s := by
  obtain ⟨place, hplain⟩ :
      Fails (do Reader.operator "=" ['=', '>']; return (none : Option Arithmetic)) s :=
    -- the plain assignment is the last of the twelve that are tried
    (h.assignment hk).right.right.right.right.right.right.right.right.right.right.right
  rw [bind_apply] at hplain
  cases hoperator : Reader.operator "=" ['=', '>'] s with
  | ok res => rw [hoperator] at hplain; cases hplain
  | error e =>
    rw [hoperator] at hplain
    cases hplain
    exact ⟨place, hoperator⟩

/-- A declared name is read back, with its initializer if it has one. -/
theorem declarator_item {d : Declarator} (hname : IsName d.name)
    (hinit : ∀ e ∈ d.init, ReadsBack n depth e) :
    ReadsItem n (Production.declarator (nested n)) (declaratorText depth d).toList d := by
  obtain ⟨name, init⟩ := d
  cases init with
  | none =>
    constructor
    case reads =>
      intro r r' hn hr hstop
      -- what stops an assignment is no `=`
      have hequals := (hstop.equals (Nat.le_refl 2)).bind fun _ => (nested n).assignment
      refine (bind_of_ok (ident_text hname hr)).trans ?_
      exact bind_of_ok (optional_of_fails hequals)
    case solid => exact (ident_item (n := n) hname).solid
  | some init =>
    have he := hinit init rfl
    have htext (r : List Char) : (declaratorText depth ⟨name, some init⟩).toList ++ r =
        name.toList ++ ' ' :: ("=".toList ++ ' ' ::
          ((Printer.atLeast 2 init.binding (Printer.expr depth init)).toList ++ r)) := by
      simp only [declaratorText, String.toList_append, List.append_assoc]
      rfl
    constructor
    case reads =>
      intro r r' hn hr hstop
      have hgap := (follows_blank (he.skipGap_atLeast 2 hr.wordEnd)).gap
      rw [htext] at hn ⊢
      simp only [List.length_append, List.length_cons] at hn
      have hvalue : (do operator "=" ['=', '>']; (nested n).assignment : Reader Expr)
          ("=".toList ++ ' ' ::
            ((Printer.atLeast 2 init.binding (Printer.expr depth init)).toList ++ r)) =
            .ok (init, r') := by
        refine (bind_of_ok (operator_text "=" (fun c hc => ?_) hgap)).trans ?_
        · cases hc
          decide
        · exact he.item.reads r r' (by rw [List.length_append]; omega) hr hstop
      refine (bind_of_ok (ident_text hname (follows_blank rfl))).trans ?_
      exact bind_of_ok (optional_of_ok hvalue)
    case solid =>
      intro r _
      rw [htext]
      exact (ident_item (n := n) hname).solid _ not_isWordChar_blank

/-- The word that a declaration begins with is read back. -/
theorem declarationKind_text (kind : DeclarationKind) (h : Follows r r') :
    Production.declarationKind (kind.text.toList ++ r) = .ok (kind, r') := by
  cases kind with
  | functionScoped => exact orElse_of_ok (bind_of_ok (keyword_text "var" h))
  | blockScoped =>
    refine (orElse_of_fails ⟨_, rfl⟩).trans ?_
    exact orElse_of_ok (bind_of_ok (keyword_text "let" h))
  | constant =>
    refine (orElse_of_fails ⟨_, rfl⟩).trans ((orElse_of_fails ⟨_, rfl⟩).trans ?_)
    exact bind_of_ok (keyword_text "const" h)

/-- A declaration up to the semicolon after it. -/
theorem declaration_text {d : Declaration} (hd : d.WellFormed)
    (hinit : ∀ e, .expr e ∈ d.inner → ReadsBack n depth e)
    (hn : ((Printer.declarationText depth d).toList ++ ';' :: r).length < n) :
    Production.declaration (nested n) ((Printer.declarationText depth d).toList ++ ';' :: r) =
      .ok (d, ';' :: r) := by
  obtain ⟨kind, declarators⟩ := d
  obtain ⟨hne, hnames⟩ := hd
  obtain ⟨first, others, rfl⟩ := List.exists_cons_of_ne_nil hne
  have hitems (d : Declarator) (hmem : d ∈ first :: others) :
      ReadsItem n (Production.declarator (nested n)) (declaratorText depth d).toList d := by
    refine declarator_item (hnames d hmem) fun e he => hinit e (List.mem_map.mpr ⟨e, ?_, rfl⟩)
    exact List.mem_filterMap.mpr ⟨d, hmem, he⟩
  have htext : (Printer.declarationText depth ⟨kind, first :: others⟩).toList ++ ';' :: r =
      kind.text.toList ++ ' ' ::
        ((commaSeparated ((first :: others).map (declaratorText depth))).toList ++ ';' :: r) := by
    rw [Printer.declarationText, declaratorTexts_eq_map]
    simp only [String.toList_append, List.append_assoc]
    rfl
  rw [htext] at hn ⊢
  simp only [List.length_append, List.length_cons] at hn
  have hfollows : Follows (';' :: r) (';' :: r) := follows_closing (by decide) r
  have hbound := length_le_afterCommas (declaratorText depth) others
  have hlist := sepBy1_text n hitems
    (by rw [toList_commaSeparated, List.length_append] at hn; omega)
    (by simp only [List.length_append, List.length_cons]; omega) hfollows
    ((stops_closing (by decide) r).mono (by decide))
  have hsolid : skipGap ((commaSeparated ((first :: others).map (declaratorText depth))).toList ++
      ';' :: r) = .ok ((commaSeparated ((first :: others).map (declaratorText depth))).toList ++
        ';' :: r) := by
    rw [toList_commaSeparated, List.append_assoc]
    refine ((hitems first List.mem_cons_self).solid _ ?_).skipGap
    -- the first name is followed by the semicolon or by a comma
    cases others with
    | nil => exact not_isWordChar_semicolon
    | cons d others =>
      intro c hc
      cases hc
      decide
  refine (bind_of_ok (declarationKind_text kind (follows_blank hsolid))).trans ?_
  exact bind_of_ok hlist

/-- A declaration on its own. -/
theorem reads_declare {d : Declaration} (hd : d.WellFormed)
    (hinit : ∀ e, .expr e ∈ d.inner → ReadsBack n depth e) :
    StmtReadsBack n depth (.declare d) := by
  have hlist (r : List Char) : (Printer.stmt depth (.declare d)).toList ++ r =
      (Printer.declarationText depth d).toList ++ ';' :: r := by
    rw [Printer.stmt, String.toList_append, List.append_assoc]
    rfl
  have hkind : ∃ word ∈ ["var", "let", "const"], ∀ r, ∃ tail,
      (Printer.declarationText depth d).toList ++ r = word.toList ++ ' ' :: tail := by
    obtain ⟨kind, declarators⟩ := d
    refine ⟨kind.text, by cases kind <;> decide, fun r => ?_⟩
    rw [Printer.declarationText]
    simp only [String.toList_append, List.append_assoc]
    exact ⟨_, rfl⟩
  obtain ⟨word, hword, hkind⟩ := hkind
  constructor
  case reads =>
    intro r r' hn hr _ _
    rw [hlist] at hn ⊢
    have hread := declaration_text hd hinit hn
    obtain ⟨tail, htail⟩ := hkind (';' :: r)
    rw [statement_eq hn]
    -- a declaration begins with a word, and a block does not
    have hblock : Fails (do return .block (← Production.block (nested n)) : Reader Stmt)
        ((Printer.declarationText depth d).toList ++ ';' :: r) := by
      rw [htail]
      simp only [List.mem_cons, List.not_mem_nil, or_false] at hword
      rcases hword with rfl | rfl | rfl <;> exact ⟨_, rfl⟩
    refine (orElse_of_fails hblock).trans ?_
    exact orElse_of_ok ((bind_of_ok hread).trans (bind_of_ok (statementEnd_text hr)))
  case leads =>
    intro r
    rw [hlist]
    obtain ⟨tail, htail⟩ := hkind (';' :: r)
    rw [htail]
    have hall : ∀ word ∈ ["var", "let", "const"], (∀ c ∈ word.toList, isWordChar c) ∧
        word.toList ≠ [] ∧ word.toList ≠ "finally".toList ∧ word.toList ≠ "else".toList := by
      decide
    exact leads_of_word (hall word hword).1 (hall word hword).2 not_isWordChar_blank

end Descramble.Reader
