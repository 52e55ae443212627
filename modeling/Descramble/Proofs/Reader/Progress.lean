import Descramble.Proofs.Reader.Statement
import Descramble.Proofs.Text.Position
import Descramble.Script.Equality
import Descramble.Script.Parse

/-!
# Reading ends

Every reader of the grammar leaves an end of its text, most of them a shorter one. A part that is
read inside another starts further on in the text, so the readers never get to the end of their
count, and what they would do there does not matter. Errors lie inside the text.

Main statements: `Takes.alike`, one statement for all readers of the grammar, and `parse_progress`.
-/

namespace Descramble

namespace Reader

open Production in
/-- The readers of the grammar, over readers for the parts inside, and how many characters each
    takes at least. -/
inductive Takes : {α : Type} → Nat → (Nested → Reader α) → Prop
  -- tokens
  | gap : Takes 0 fun _ => gap
  | wordEnd : Takes 0 fun _ => wordEnd
  | symbol (mark : String) (h : 0 < mark.toList.length) : Takes 1 fun _ => symbol mark
  | operator (mark : String) (longer : List Char) (h : 0 < mark.toList.length) :
    Takes 1 fun _ => operator mark longer
  | keyword (word : String) (h : 0 < word.toList.length) : Takes 1 fun _ => keyword word
  | anyWord : Takes 1 fun _ => anyWord
  | ident : Takes 1 fun _ => ident
  | hexNumber : Takes 1 fun _ => hexNumber
  | decimalNumber : Takes 1 fun _ => decimalNumber
  | number : Takes 1 fun _ => number
  | string : Takes 1 fun _ => string
  -- operators
  | token (op : Infix) : Takes 1 fun _ => op.token
  | unaryOperator : Takes 1 fun _ => unaryOperator
  | updateOperator : Takes 1 fun _ => updateOperator
  | assignmentOperator : Takes 1 fun _ => assignmentOperator
  -- expressions
  | innerAssignment : Takes 1 Nested.assignment
  | innerUnary : Takes 1 Nested.unary
  | innerConstruct : Takes 1 Nested.construct
  | innerExpr : Takes 1 innerExpr
  | trailingComma : Takes 0 fun _ => trailingComma
  | params : Takes 1 params
  | items (closing : String) (h : 0 < closing.toList.length) : Takes 0 (items · closing)
  | arguments : Takes 1 arguments
  | propertyKey : Takes 1 fun _ => propertyKey
  | property : Takes 1 property
  | objectLiteral : Takes 1 objectLiteral
  | arrayLiteral : Takes 1 arrayLiteral
  | functionExpression : Takes 1 functionExpression
  | parenthesized : Takes 1 parenthesized
  | primary : Takes 1 primary
  | suffixes (calls : Bool) (e : Expr) : Takes 0 fun N => suffixes N calls N.bound e
  | construct : Takes 1 Production.construct
  | access : Takes 1 access
  | unary : Takes 1 Production.unary
  | chain (levels : Nat) : Takes 1 fun N => chain N.bound (Production.unary N) levels
  | conditional : Takes 1 conditional
  | arrow : Takes 1 arrow
  | assignment : Takes 1 Production.assignment
  | expr : Takes 1 Production.expr
  -- statements
  | innerStatement : Takes 1 Nested.statement
  | statements : Takes 0 fun N => many N.statement N.bound
  | statementEnd : Takes 0 fun _ => statementEnd
  | block : Takes 1 block
  | declarationKind : Takes 1 fun _ => declarationKind
  | declarator : Takes 1 declarator
  | declaration : Takes 1 declaration
  | declarationStatement : Takes 1 declarationStatement
  | functionStatement : Takes 1 functionStatement
  | returnStatement : Takes 1 returnStatement
  | ifStatement : Takes 1 ifStatement
  | forStart : Takes 1 forStart
  | forStatement : Takes 1 forStatement
  | whileStatement : Takes 1 whileStatement
  | caseTest : Takes 1 caseTest
  | switchCase : Takes 1 switchCase
  | switchStatement : Takes 1 switchStatement
  | catchClause : Takes 1 catchClause
  | attemptStatement : Takes 1 attemptStatement
  | raiseStatement : Takes 1 raiseStatement
  | expressionStatement : Takes 1 expressionStatement
  | statement : Takes 1 Production.statement

/-- A reader of the grammar does the same over readers that do the same with the texts further on:
    it leaves an end of its text, as much shorter as it takes. -/
theorem Takes.alike {α : Type} {l : Nat} {p : Nested → Reader α} (hp : Takes l p) {K : Nat}
    {N M : Nested} (h : N.Alike K M) : Alike K l (fun _ => True) (p N) (p M) := by
  -- what is read may have a property, which is forgotten here
  have hany {α : Type} {l : Nat} {P : α → Prop} {p q : Reader α} (hp : Alike K l P p q) :
      Alike K l (fun _ => True) p q :=
    hp.imp fun _ _ => trivial
  -- inside a production the texts are shorter by one
  have hnext {α : Type} {l : Nat} {P : α → Prop} {p q : Reader α} (hp : Alike (K + 1) l P p q) :
      Alike K l (fun _ => True) p q :=
    hany (hp.shorter (Nat.le_succ K))
  cases hp with
  | gap => exact alike_gap
  | wordEnd => exact alike_wordEnd
  | symbol mark hne => exact alike_symbol mark hne
  | operator mark longer hne => exact alike_operator mark longer hne
  | keyword word hne => exact alike_keyword word hne
  | anyWord => exact hany alike_anyWord
  | ident => exact hany alike_ident
  | hexNumber => exact hany alike_hexNumber
  | decimalNumber => exact hany alike_decimalNumber
  | number => exact hany alike_number
  | string => exact alike_string
  | token op => exact alike_token op
  | unaryOperator => exact alike_unaryOperator
  | updateOperator => exact alike_updateOperator
  | assignmentOperator => exact alike_assignmentOperator
  | innerAssignment => exact hany h.assignment
  | innerUnary => exact hany h.unary
  | innerConstruct => exact hany h.construct
  | innerExpr => exact hany (Production.alike_innerExpr h)
  | trailingComma => exact alike_trailingComma
  | params => exact hnext (Production.alike_params h)
  | items closing hne => exact hany (Production.alike_items h closing hne)
  | arguments => exact hnext (Production.alike_arguments h)
  | propertyKey => exact hany Production.alike_propertyKey
  | property => exact hany (Production.alike_property h)
  | objectLiteral => exact hnext (Production.alike_objectLiteral h)
  | arrayLiteral => exact hnext (Production.alike_arrayLiteral h)
  | functionExpression => exact hnext (Production.alike_functionExpression h)
  | parenthesized => exact hnext (Production.alike_parenthesized h)
  | primary => exact hnext (Production.alike_primary h)
  | suffixes calls e => exact hany (Production.alike_suffixes_imp h e calls)
  | construct => exact hnext (Production.alike_construct h)
  | access => exact hnext (Production.alike_access h)
  | unary => exact hnext (Production.alike_unary h)
  | chain levels => exact hnext (Production.alike_chain h levels)
  | conditional => exact hnext (Production.alike_conditional h)
  | arrow => exact hnext (Production.alike_arrow h)
  | assignment => exact hnext (Production.alike_assignment h)
  | expr => exact hnext (Production.alike_expr h)
  | innerStatement => exact hany h.statement
  | statements => exact hany (h.statement.many h.bound_left h.bound_right)
  | statementEnd => exact alike_statementEnd
  | block => exact hnext (Production.alike_block h)
  | declarationKind => exact alike_declarationKind
  | declarator => exact hnext (Production.alike_declarator h)
  | declaration => exact hnext (Production.alike_declaration h)
  | declarationStatement => exact hnext (Production.alike_declarationStatement h)
  | functionStatement => exact hnext (Production.alike_functionStatement h)
  | returnStatement => exact hnext (Production.alike_returnStatement h)
  | ifStatement => exact hnext (Production.alike_ifStatement h)
  | forStart => exact hany (Production.alike_forStart h)
  | forStatement => exact hnext (Production.alike_forStatement h)
  | whileStatement => exact hnext (Production.alike_whileStatement h)
  | caseTest => exact hany (Production.alike_caseTest h)
  | switchCase => exact hany (Production.alike_switchCase h)
  | switchStatement => exact hnext (Production.alike_switchStatement h)
  | catchClause => exact hany (Production.alike_catchClause h)
  | attemptStatement => exact hnext (Production.alike_attemptStatement h)
  | raiseStatement => exact hnext (Production.alike_raiseStatement h)
  | expressionStatement => exact hnext (Production.alike_expressionStatement h)
  | statement => exact hnext (Production.alike_statement h)

end Reader

/-! ## Whole texts -/

/-- The error of a whole text is placed at an end of it. -/
theorem readWhole_error {α : Type} {l : Nat} {P : α → Prop} {reader : Nat → Reader α}
    (hreader : ∀ n, Reader.Alike n l P (reader n) (reader n)) {text : String} {e : SyntaxError}
    (h : readWhole reader text = .error e) :
    ∃ after, after <:+ text.toList ∧ e.position = utf8Length after := by
  have hwhole : Reader.Alike (text.toList.length + 1) l P
      (do Reader.gap; reader (text.toList.length + 1))
      (do Reader.gap; reader (text.toList.length + 1)) :=
    Reader.alike_gap.andThen fun _ _ => hreader _
  unfold readWhole at h
  dsimp only at h
  -- either the reader stopped before the end, or it failed at a place of its own
  split at h
  · cases h
  · rename_i a rest _ hread
    cases h
    exact ⟨rest, (hwhole.reads _ a rest (Nat.lt_succ_self _) hread).1, rfl⟩
  · rename_i e' hread
    cases h
    exact ⟨e'.rest, hwhole.fails _ e' (Nat.lt_succ_self _) hread, rfl⟩

/-- The error of a program or an expression is placed at an end of its text. -/
theorem parse_error {text : String} {e : SyntaxError}
    (h : Program.parse text = .error e ∨ Expr.parse text = .error e) :
    ∃ after, after <:+ text.toList ∧ e.position = utf8Length after := by
  have hself (n : Nat) : (Reader.nested n).Alike n (Reader.nested n) :=
    Reader.nested_alike (Nat.le_refl n) (Nat.le_refl n)
  rcases h with h | h
  · have hprogram (n : Nat) : Reader.Alike n 0 (fun _ => True)
        (do return (⟨← Reader.many (Reader.statement n) n⟩ : Program))
        (do return ⟨← Reader.many (Reader.statement n) n⟩) :=
      (Reader.Takes.statements.alike (hself n)).bind fun _ _ => Reader.Alike.pure trivial
    exact readWhole_error hprogram h
  · exact readWhole_error (fun n => Reader.Takes.innerExpr.alike (hself n)) h

/-- Reading always ends, inside the text. Whatever the readers of the grammar would do at the end of
    their count, they do not get there on a text shorter than that; they leave an end of the text,
    as much shorter as they take; and their errors lie in the text. The error of a whole text has a
    position between two characters, and the line of that position is a line of the text. -/
theorem parse_progress :
    (∀ {α : Type} {l : Nat} {p : Reader.Nested → Reader α}, Reader.Takes l p →
      ∀ (last : Reader.Nested) (n m : Nat) (s : List Char), s.length < n → s.length < m →
        p (Reader.tied last n) s = p (Reader.nested m) s ∧
        (∀ a rest, p (Reader.nested m) s = .ok (a, rest) →
          rest <:+ s ∧ rest.length + l ≤ s.length) ∧
        ∀ e, p (Reader.nested m) s = .error e → e.rest <:+ s) ∧
    ∀ (text : String) (e : SyntaxError),
      Program.parse text = .error e ∨ Expr.parse text = .error e →
      ∃ before after, text.toList = before ++ after ∧ e.position = utf8Length after ∧
        beforePosition e.position text.toList = before ∧
        ((linesOf before).length < (linesOf text.toList).length →
          ∃ line ∈ linesOf text.toList,
            lineAt? e.position text.toList = some (max (linesOf before).length 1, line)) := by
  constructor
  · intro α l p hp last n m s hn hm
    have hlt := Nat.lt_succ_self s.length
    have hscript : Reader.Alike (s.length + 1) l (fun _ => True) (p (Reader.nested m))
        (p (Reader.tied last n)) := by
      rw [← Reader.tied_nested_zero m]
      exact hp.alike (Reader.tied_alike hm hn)
    refine ⟨(hscript.same s hlt).symm, fun a rest hread => ?_, fun e hread => ?_⟩
    -- what is left is an end of the text, by the same lemma
    · obtain ⟨hsuffix, hlen, _⟩ := hscript.reads s a rest hlt hread
      exact ⟨hsuffix, hlen⟩
    · exact hscript.fails s e hlt hread
  · intro text e h
    obtain ⟨after, ⟨before, htext⟩, hposition⟩ := parse_error h
    have hbefore : beforePosition e.position text.toList = before := by
      rw [hposition, ← htext, beforePosition_utf8Length]
    refine ⟨before, after, htext.symm, hposition, hbefore, fun hlines => ?_⟩
    rw [← hbefore] at hlines ⊢
    exact lineAt?_of_lt hlines

/-- A string that a line end breaks off: the error is at the line end, and on the first line. -/
theorem parse_progress_brokenString :
    Program.parse "x = 'é\n';" = .error ⟨3⟩ ∧
    (∃ line ∈ linesOf "x = 'é\n';".toList, lineAt? 3 "x = 'é\n';".toList = some (1, line)) ∧
    ∀ last, Reader.Production.statement (Reader.tied last 10) "x = 'é\n';".toList =
      Reader.Production.statement (Reader.nested 10) "x = 'é\n';".toList := by
  have hparse : Program.parse "x = 'é\n';" = .error ⟨3⟩ := by decide +kernel
  obtain ⟨before, after, _, _, hbefore, hline⟩ := parse_progress.2 _ _ (.inl hparse)
  subst hbefore
  exact ⟨hparse, hline (by decide), fun last =>
    (parse_progress.1 .statement last 10 10 _ (by decide) (by decide)).1⟩

end Descramble
