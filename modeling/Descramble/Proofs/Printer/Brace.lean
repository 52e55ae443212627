import Descramble.Proofs.Printer.Block

/-!
# An object literal is not taken for a block

Where a block is tried before an expression, the text of an object literal must not be read as one.
It begins with a brace, a key and a colon, and no statement is a key and a colon; only an object
without properties reads as a block.

Main statements: `statement_fails_of_key`, `block_fails`.
-/

namespace Descramble.Reader

variable {n depth : Nat} {s mid r r' : List Char} {e : Expr} {w : Name}

/-! ## A word and a colon -/

/-- A reader that reads up to the colon, if at all. -/
def ReadsToColon {α : Type} (p : Reader α) (s : List Char) (r : List Char) : Prop :=
  Fails p s ∨ ∃ a, p s = .ok (a, ':' :: r)

/-- What cannot go on at a colon fails after such a reader. -/
theorem ReadsToColon.fails {α β : Type} {p : Reader α} {f : α → Reader β}
    (h : ReadsToColon p s r) (hf : ∀ a, Fails (f a) (':' :: r)) : Fails (p >>= f) s := by
  rcases h with h | ⟨a, h⟩
  · exact h.bind f
  · exact .of_ok h (hf a)

/-- A reader that turns what it has read into a value reads as far. -/
theorem ReadsToColon.value {α β : Type} {p : Reader α} {f : α → β} (h : ReadsToColon p s r) :
    ReadsToColon (do return f (← p)) s r := by
  rcases h with h | ⟨a, h⟩
  · exact .inl (h.bind _)
  · exact .inr ⟨f a, bind_of_ok h⟩

/-- Of two such readers the one that is tried second reads no further either. -/
theorem ReadsToColon.orElse {α : Type} {p q : Reader α} (hp : ReadsToColon p s r)
    (hq : ReadsToColon q s r) : ReadsToColon (p <|> q) s r := by
  rcases hp with hp | ⟨a, hp⟩
  · rcases hq with hq | ⟨a, hq⟩
    · exact .inl (hp.orElse hq)
    · exact .inr ⟨a, (orElse_of_fails hp).trans hq⟩
  · exact .inr ⟨a, orElse_of_ok hp⟩

/-- A colon ends a word and stands after no gap. -/
theorem follows_colon (r : List Char) : Follows (':' :: r) (':' :: r) :=
  follows_closing (by decide) r

/-- A word with a fixed meaning is the whole word before the colon, or it is not read. -/
theorem keyword_colon (hw : IsWord w) {word : String} (hword : ∀ c ∈ word.toList, isWordChar c)
    (r : List Char) : ReadsToColon (keyword word) (w.toList ++ ':' :: r) r := by
  by_cases heq : w.toList = word.toList
  · rw [heq]
    exact .inr ⟨(), keyword_text word (follows_colon r)⟩
  · refine .inl (keyword_fails hword ?_)
    rw [(leadingWord_append hw.all (follows_colon r).wordEnd).1]
    exact heq

/-- A name is the whole word before the colon, unless the word is reserved. -/
theorem ident_colon (hw : IsWord w) (r : List Char) :
    ReadsToColon ident (w.toList ++ ':' :: r) r := by
  cases hreserved : isReserved w with
  | true => exact .inl (ident_fails_of_reserved hw hreserved (follows_colon r))
  | false => exact .inr ⟨w, ident_text ⟨hw, hreserved⟩ (follows_colon r)⟩

section Word

variable (hw : IsWord w)

include hw

/-- A mark is not read from a word. -/
theorem afterStart?_word (mark : String) {t : Char} {ts : List Char}
    (ht : mark.toList = t :: ts) (hstart : isWordStart t = false) (r : List Char) :
    afterStart? mark.toList (w.toList ++ r) = none := by
  obtain ⟨c, cs, hcs, hc, _⟩ := hw
  rw [ht, hcs]
  exact if_neg (ne_of_isWordStart hc hstart)

/-- A primary expression at a word before a colon ends there, if there is one. -/
theorem primary_colon (r : List Char) :
    ReadsToColon (Production.primary (nested n)) (w.toList ++ ':' :: r) r := by
  have hkeyword {word : String} (hword : ∀ c ∈ word.toList, isWordChar c) (value : Expr) :
      ReadsToColon (do keyword word; return value) (w.toList ++ ':' :: r) r :=
    (keyword_colon hw hword r).value
  have hmark (mark : String) {t : Char} {ts : List Char} (ht : mark.toList = t :: ts)
      (hstart : isWordStart t = false) : Fails (symbol mark) (w.toList ++ ':' :: r) :=
    symbol_fails (afterStart?_word hw mark ht hstart _)
  -- a function would need its parameters where the colon is
  have hfunction : Fails (Production.functionExpression (nested n)) (w.toList ++ ':' :: r) := by
    have hname : optional ident (':' :: r) = .ok (none, ':' :: r) :=
      optional_of_fails (ident_fails (by decide) r)
    exact (keyword_colon hw (by decide) r).fails fun _ => .of_ok hname (Fails.bind ⟨_, rfl⟩ _)
  have hliteral : Fails number (w.toList ++ ':' :: r) ∧ Fails string (w.toList ++ ':' :: r) := by
    obtain ⟨c, cs, hcs, hc, _⟩ := id hw
    rw [hcs]
    exact ⟨number_fails (isDigit_of_isWordStart hc) (ne_of_isWordStart hc (by decide)).symm _,
      string_fails (ne_of_isWordStart hc (by decide)).symm
        (ne_of_isWordStart hc (by decide)).symm _⟩
  exact .orElse (.inl (hliteral.1.bind _)) <| .orElse (.inl (hliteral.2.bind _)) <|
    .orElse (hkeyword (by decide) _) <| .orElse (hkeyword (by decide) _) <|
    .orElse (hkeyword (by decide) _) <| .orElse (hkeyword (by decide) _) <|
    .orElse (.inl hfunction) <| .orElse (.inl ((hmark "[" rfl (by decide)).bind _)) <|
    .orElse (.inl ((hmark "\x7b" rfl (by decide)).bind _)) <|
    .orElse (.inl ((hmark "(" rfl (by decide)).bind _)) (ident_colon hw r).value

/-- Nothing can be constructed at a colon. -/
theorem construct_colon (hn : (':' :: r).length < n) :
    Fails (Production.construct (nested n)) (w.toList ++ ':' :: r) := by
  obtain ⟨_, hconstruct, _, hprimary⟩ :=
    parts_fail (N := nested n) (s := ':' :: r) fun c hc => by cases hc; decide
  have hnested : Fails (nested n).construct (':' :: r) :=
    Fails.of_eq (construct_eq hn) hconstruct
  exact (keyword_colon hw (by decide) r).fails fun _ => (hnested.orElse hprimary).bind _

/-- No operator that is a mark stands before a word; one that is a word has no operand here. -/
theorem unary_colon (hn : (':' :: r).length < n) :
    Fails (Production.unary (nested n)) (w.toList ++ ':' :: r) ∨ Plain (w.toList ++ ':' :: r) := by
  have hmark (mark : String) {t : Char} {ts : List Char} (ht : mark.toList = t :: ts)
      (hstart : isWordStart t = false) : afterStart? mark.toList (w.toList ++ ':' :: r) = none :=
    afterStart?_word hw mark ht hstart _
  have hupdate : Fails updateOperator (w.toList ++ ':' :: r) :=
    .orElse ((symbol_fails (hmark "++" rfl (by decide))).bind _)
      ((symbol_fails (hmark "--" rfl (by decide))).bind _)
  have hoperator : ReadsToColon unaryOperator (w.toList ++ ':' :: r) r :=
    .orElse (.inl ((operator_fails (hmark "!" rfl (by decide))).bind _)) <|
    .orElse (.inl ((operator_fails (hmark "-" rfl (by decide))).bind _)) <|
    .orElse (.inl ((operator_fails (hmark "+" rfl (by decide))).bind _)) <|
    .orElse (.inl ((operator_fails (hmark "~" rfl (by decide))).bind _)) <|
    .orElse (keyword_colon hw (by decide) r).value <|
    .orElse (keyword_colon hw (by decide) r).value (keyword_colon hw (by decide) r).value
  rcases hoperator with hfails | ⟨op, hop⟩
  · exact .inr ⟨hfails, hupdate⟩
  -- the operator was a word, and its operand would begin with the colon
  · obtain ⟨_, hconstruct, hplain, hprimary⟩ :=
      parts_fail (N := nested n) (s := ':' :: r) fun c hc => by cases hc; decide
    have hnested : Fails (nested n).unary (':' :: r) :=
      Fails.of_eq (unary_eq hn) (unary_fails hconstruct hplain hprimary)
    exact .inl (.of_ok (lookFor_of_ok hop) (hnested.bind _))

/-- An expression at a word before a colon ends there, if there is one. -/
theorem assignment_colon (hn : (w.toList ++ ':' :: r).length < n) :
    ReadsToColon (nested n).assignment (w.toList ++ ':' :: r) r := by
  have hcolon : (':' :: r).length < n := by
    rw [List.length_append] at hn
    omega
  have hstop : Stops 0 (':' :: r) := stops_closing (by decide) r
  have hconditional : ReadsToColon (Production.conditional (nested n)) (w.toList ++ ':' :: r) r := by
    rcases unary_colon hw hcolon with hunary | hplain
    · exact .inl (conditional_fails hunary)
    · rcases primary_colon (n := n) hw r with hfails | ⟨e, hprimary⟩
      · exact .inl (conditional_fails (unary_fails (construct_colon hw hcolon) hplain hfails))
      · exact .inr ⟨e, conditional_of_primary (construct_colon hw hcolon) hplain hprimary
          (hstop.mono (by decide))⟩
  -- an arrow would stand where the colon is
  obtain ⟨place, harrow⟩ : Fails (Production.arrow (nested n)) (w.toList ++ ':' :: r) := by
    have hparams : Fails (Production.params (nested n)) (w.toList ++ ':' :: r) :=
      (symbol_fails (afterStart?_word hw "(" rfl (by decide) _)).bind _
    have hnames : ReadsToColon ((do return [← ident]) <|> Production.params (nested n))
        (w.toList ++ ':' :: r) r :=
      .orElse (ident_colon hw r).value (.inl hparams)
    exact hnames.fails fun _ => Fails.bind ⟨_, rfl⟩ _
  rcases hconditional with hfails | ⟨e, hconditional⟩
  · exact .inl (Fails.of_eq ((assignment_eq hn).trans (assignment_apply harrow)) (hfails.bind _))
  · refine .inr ⟨e, (assignment_eq hn).trans ?_⟩
    exact assignment_of_conditional harrow hconditional (hstop.assignment (by decide))

/-- A word before a colon is no statement, whether it has a fixed meaning or not. -/
theorem statement_fails_of_word (hn : (w.toList ++ ':' :: r).length < n) :
    Fails (nested n).statement (w.toList ++ ':' :: r) := by
  have hcolon : (':' :: r).length < n := by
    rw [List.length_append] at hn
    omega
  have hmark (mark : String) {t : Char} {ts : List Char} (ht : mark.toList = t :: ts)
      (hstart : isWordStart t = false) : Fails (symbol mark) (w.toList ++ ':' :: r) :=
    symbol_fails (afterStart?_word hw mark ht hstart _)
  have hkeyword {α : Type} {word : String} (hword : ∀ c ∈ word.toList, isWordChar c)
      {f : Unit → Reader α} (hf : Fails (f ()) (':' :: r)) :
      Fails (keyword word >>= f) (w.toList ++ ':' :: r) :=
    (keyword_colon hw hword r).fails fun _ => hf
  -- what may follow the words that begin statements does not begin with a colon
  have hident : Fails ident (':' :: r) := ident_fails (by decide) r
  have hinner : Fails (Production.innerExpr (nested n)) (':' :: r) :=
    (assignment_fails hcolon fun c hc => by cases hc; decide).bind _ |>.bind _
  have hend : Fails statementEnd (':' :: r) := ⟨_, rfl⟩
  have hdeclaration : Fails (Production.declarationStatement (nested n)) (w.toList ++ ':' :: r) := by
    have hkind : ReadsToColon Production.declarationKind (w.toList ++ ':' :: r) r :=
      .orElse (keyword_colon hw (by decide) r).value <|
      .orElse (keyword_colon hw (by decide) r).value (keyword_colon hw (by decide) r).value
    exact Fails.bind (hkind.fails fun _ => ((hident.bind _).bind _).bind _) _
  have hexpression : Fails (Production.expressionStatement (nested n)) (w.toList ++ ':' :: r) := by
    rcases assignment_colon hw hn with hfails | ⟨e, hread⟩
    · exact expressionStatement_fails hn hfails
    · have hcomma : Fails (symbol ",") (':' :: r) := symbol_fails rfl
      have hwhole : Production.innerExpr (nested n) (w.toList ++ ':' :: r) = .ok (e, ':' :: r) :=
        bind_of_ok (sepBy1_of_ok hread (many_of_fails (hcomma.bind _) n))
      exact .of_ok ((expr_eq hn).trans hwhole) (hend.bind _)
  refine Fails.of_eq (statement_eq hn) ?_
  exact .orElse (((hmark "\x7b" rfl (by decide)).bind _).bind _) <|
    .orElse hdeclaration <|
    .orElse (hkeyword (by decide) (hident.bind _)) <|
    .orElse (hkeyword (by decide) (.of_ok (optional_of_fails hinner) (hend.bind _))) <|
    .orElse (hkeyword (by decide) (Fails.bind ⟨_, rfl⟩ _)) <|
    .orElse (hkeyword (by decide) (Fails.bind ⟨_, rfl⟩ _)) <|
    .orElse (hkeyword (by decide) (Fails.bind ⟨_, rfl⟩ _)) <|
    .orElse (hkeyword (by decide) (Fails.bind ⟨_, rfl⟩ _)) <|
    .orElse (hkeyword (by decide) (Fails.bind ⟨_, rfl⟩ _)) <|
    .orElse (hkeyword (by decide) (hinner.bind _)) <|
    .orElse (hkeyword (by decide) (hend.bind _)) <|
    .orElse (hkeyword (by decide) (hend.bind _)) <|
    .orElse ((hmark ";" rfl (by decide)).bind _) hexpression

end Word

/-! ## A key and a colon -/

/-- A literal before a colon is an expression, but no statement. -/
theorem statement_fails_of_literal {t : List Char} {isNumber : Bool} (hlead : Leads 18 false t)
    (h : ResumesAccess n true t e isNumber) (hn : (t ++ ':' :: r).length < n) :
    Fails (nested n).statement (t ++ ':' :: r) := by
  have hwritten : Written n 18 t e isNumber := .of_access (hlead.mono fun _ => by decide) h
  obtain ⟨kind, hkind, _, hambiguous⟩ := hlead (':' :: r) (follows_colon r).wordEnd
  have hread := hwritten.whole _ _ hn (follows_colon r)
    ((stops_closing (by decide) r).mono (by decide))
  have hend : Fails statementEnd (':' :: r) := ⟨_, rfl⟩
  refine Fails.of_eq ((statement_eq hn).trans (statement_of_lead hkind (hambiguous rfl))) ?_
  exact .of_ok ((expr_eq hn).trans hread) (hend.bind _)

/-- A key before a colon is no statement, whatever kind of key it is. -/
theorem statement_fails_of_key {key : PropertyKey} (hkey : key.WellFormed) (hfinite : key.isFinite)
    (hn : (key.toText.toList ++ ':' :: r).length < n) :
    Fails (nested n).statement (key.toText.toList ++ ':' :: r) := by
  cases key with
  | word name => exact statement_fails_of_word hkey hn
  | text value =>
    have htext : (PropertyKey.text value).toText = (Literal.text value).toText := rfl
    have hwf : (Expr.literal (.text value)).WellFormed := trivial
    rw [htext] at hn ⊢
    exact statement_fails_of_literal (leads_literal hwf) (resumes_literal hwf trivial) hn
  | number number =>
    have htext : (PropertyKey.number number).toText = (Literal.number number).toText := rfl
    have hwf : (Expr.literal (.number number)).WellFormed := hkey
    rw [htext] at hn ⊢
    exact statement_fails_of_literal (leads_literal hwf) (resumes_literal hwf hfinite) hn

/-- The text of an object with a property is not read as a block. -/
theorem block_fails {key : PropertyKey} (hkey : key.WellFormed) (hfinite : key.isFinite)
    (hn : ('\x7b' :: (key.toText.toList ++ ':' :: r)).length < n) :
    Fails (Production.block (nested n)) ('\x7b' :: (key.toText.toList ++ ':' :: r)) := by
  rw [List.length_cons] at hn
  obtain ⟨hsolid, hread⟩ := propertyKey_text hkey hfinite r
  -- the key does not begin with a brace, since it can be read as a key
  have hclose : Fails (symbol "\x7d") (key.toText.toList ++ ':' :: r) := by
    obtain ⟨c, cs, hcs, _⟩ := hsolid
    rw [hcs] at hread ⊢
    refine symbol_fails (if_neg fun heq => ?_)
    obtain rfl : c = '\x7d' := heq.symm
    obtain ⟨place, hfails⟩ : Fails Production.propertyKey ('\x7d' :: cs) := ⟨_, rfl⟩
    rw [hfails] at hread
    cases hread
  have hstatement : Fails (nested n).statement (key.toText.toList ++ ':' :: r) :=
    statement_fails_of_key hkey hfinite (by omega)
  have hopen := symbol_text "\x7b" hsolid.skipGap
  exact .of_ok hopen (.of_ok (many_of_fails hstatement n) (hclose.bind _))

/-! ## Where the brace comes from -/

/-- An expression whose text begins with a brace begins with an object literal, at any depth. -/
def StartsWithObject (e : Expr) : Prop :=
  ∃ properties : List Property,
    (∀ property ∈ properties, property.key.WellFormed ∧ property.key.isFinite) ∧
      ∀ depth, ∃ u, (Printer.expr depth e).toList =
        (Printer.expr depth (.object properties)).toList ++ u

/-- The expression at the left end of another one. -/
theorem startsWithObject_of_left {left : Expr} {least : Nat} (hsound : left.Sound)
    (ih : ∀ s, (Printer.expr depth left).toList = '\x7b' :: s → StartsWithObject left)
    (hleft : ∀ depth, ∃ u, (Printer.expr depth e).toList =
      (Printer.atLeast least left.binding (Printer.expr depth left)).toList ++ u)
    (h : (Printer.expr depth e).toList = '\x7b' :: s) : StartsWithObject e := by
  -- in parentheses the left part would not begin with a brace
  by_cases hparentheses : left.binding < least
  · obtain ⟨u, hu⟩ := hleft depth
    unfold Printer.atLeast at hu
    rw [if_pos hparentheses, toList_parenthesized, h] at hu
    exact absurd (List.cons.inj hu).1 (by decide)
  · have htext (depth : Nat) : ∃ u, (Printer.expr depth e).toList =
        (Printer.expr depth left).toList ++ u := by
      obtain ⟨u, hu⟩ := hleft depth
      unfold Printer.atLeast at hu
      rw [if_neg hparentheses] at hu
      exact ⟨u, hu⟩
    obtain ⟨u, hu⟩ := htext depth
    obtain ⟨kind, hkind, _⟩ := leads_expr depth left hsound [] fun _ h => by cases h
    obtain ⟨c, cs, hcs, _⟩ := hkind.head
    rw [List.append_nil] at hcs
    rw [h, hcs] at hu
    obtain rfl := (List.cons.inj hu).1
    obtain ⟨properties, hproperties, hobject⟩ := ih cs hcs
    refine ⟨properties, hproperties, fun depth => ?_⟩
    obtain ⟨v, hv⟩ := hobject depth
    obtain ⟨u, hu⟩ := htext depth
    exact ⟨v ++ u, by rw [hu, hv, List.append_assoc]⟩

/-- A text that is put together begins with its first part. -/
theorem toList_append_starts (a b : String) : ∃ u, (a ++ b).toList = a.toList ++ u :=
  ⟨b.toList, String.toList_append⟩

/-- An expression whose text begins with a brace begins with an object literal: nothing else that
    stands at its left end has such a text. -/
theorem startsWithObject (e : Expr) (he : e.Sound)
    (hfaithful : Part.Everywhere Part.Faithful (.expr e)) {s : List Char}
    (h : (Printer.expr depth e).toList = '\x7b' :: s) : StartsWithObject e := by
  induction e using Part.expr_induction generalizing s with
  | step e ih =>
    -- the texts of most expressions begin with another character
    have hother (hnot : e.startsAmbiguously = false) : StartsWithObject e := by
      obtain ⟨kind, hkind, _, hambiguous⟩ := leads_expr depth e he [] fun _ h => by cases h
      rw [h, List.append_nil] at hkind
      exact absurd rfl (hkind.head_ne_brace (hambiguous hnot) '\x7b' rfl)
    have hinside {left : Expr} (hmem : .expr left ∈ e.inner) (s : List Char)
        (h : (Printer.expr depth left).toList = '\x7b' :: s) : StartsWithObject left :=
      ih left hmem (he.inside hmem) (hfaithful.inside hmem) h
    -- a text that begins with that of its left part begins with what that begins with
    have hleft {left : Expr} (least : Nat) (hmem : .expr left ∈ e.inner)
        (htext : ∀ depth, ∃ u, (Printer.expr depth e).toList =
          (Printer.atLeast least left.binding (Printer.expr depth left)).toList ++ u) :
        StartsWithObject e :=
      startsWithObject_of_left (he.inside hmem) (hinside hmem) htext h
    -- the same behind a point or a bracket, where a number stands in parentheses
    have haccessed {left : Expr} (hmem : .expr left ∈ e.inner)
        (htext : ∀ depth, ∃ u, (Printer.expr depth e).toList =
          (accessed depth left).toList ++ u) : StartsWithObject e := by
      cases hnumber : left.isNumber with
      | true =>
        obtain ⟨u, hu⟩ := htext depth
        unfold accessed at hu
        rw [hnumber, if_pos rfl, toList_parenthesized, h] at hu
        exact absurd (List.cons.inj hu).1 (by decide)
      | false =>
        refine hleft 17 hmem fun depth => ?_
        obtain ⟨u, hu⟩ := htext depth
        unfold accessed at hu
        rw [hnumber, if_neg Bool.false_ne_true] at hu
        exact ⟨u, hu⟩
    clear ih hinside
    cases e with
    | ident _ | literal _ | this | array _ | arrow _ _ | construct _ _ | unary _ _ =>
      exact hother rfl
    | object properties =>
      refine ⟨properties, fun property hmem => ?_, fun depth => ⟨[], (List.append_nil _).symm⟩⟩
      exact ⟨he.here property hmem, hfaithful.here property hmem⟩
    | function name definition =>
      -- the word `function` comes before any brace
      cases name with
      | none =>
        rw [Printer.expr] at h
        simp only [Printer.functionHead, String.append_assoc, String.toList_append] at h
        exact absurd (List.cons.inj h).1 (by decide)
      | some name =>
        rw [Printer.expr] at h
        simp only [Printer.functionHead, String.append_assoc, String.toList_append] at h
        exact absurd (List.cons.inj h).1 (by decide)
    | call callee args =>
      refine hleft 17 List.mem_cons_self fun depth => ?_
      rw [Printer.expr]
      exact toList_append_starts _ _
    | member target name =>
      refine haccessed List.mem_cons_self fun depth => ?_
      rw [expr_member, String.append_assoc]
      exact toList_append_starts _ _
    | index target key =>
      refine haccessed List.mem_cons_self fun depth => ?_
      rw [expr_index, String.append_assoc, String.append_assoc]
      exact toList_append_starts _ _
    | assign op target value =>
      refine hleft 17 List.mem_cons_self fun depth => ?_
      rw [Printer.expr, String.append_assoc, String.append_assoc, String.append_assoc]
      exact toList_append_starts _ _
    | logical op left right | binary op left right =>
      refine hleft op.binding List.mem_cons_self fun depth => ?_
      rw [Printer.expr, String.append_assoc, String.append_assoc, String.append_assoc]
      exact toList_append_starts _ _
    | update op before arg =>
      cases before with
      | true => exact hother rfl
      | false =>
        refine hleft 17 List.mem_cons_self fun depth => ?_
        rw [Printer.expr]
        exact toList_append_starts _ _
    | conditional test yes no =>
      refine hleft 4 List.mem_cons_self fun depth => ?_
      rw [Printer.expr]
      simp only [String.append_assoc]
      exact toList_append_starts _ _
    | sequence items =>
      have hlength : 2 ≤ items.length := he.here
      obtain ⟨first, items, rfl⟩ := List.exists_cons_of_length_pos (by omega : 0 < items.length)
      refine hleft 2 List.mem_cons_self fun depth => ?_
      rw [Printer.expr, exprs_eq_map, toList_commaSeparated]
      exact ⟨_, rfl⟩

end Descramble.Reader
