import Descramble.Proofs.Printer.Lead

/-!
# Texts that are read at every level

A text that is read as an operand, at the level it belongs to, is read at every looser level: no
operator follows, and what is no arrow function is not taken for one. The last point needs an
argument, since a name or a list of names in parentheses also begins an arrow function: it would be
read as an operand too, up to the arrow, and then more than the operand would be left.

Main statements: `arrow_error`, `Written.of_access`, `Written.parenthesized`.
-/

namespace Descramble.Reader

variable {n : Nat} {N : Nested} {s r r' mid : List Char} {e : Expr} {c : Char}

/-! ## Names before an arrow -/

/-- The text that a word was read from. -/
theorem anyWord_eq_ok {name : Name} (h : anyWord s = .ok (name, mid)) :
    ∃ r, s = name.toList ++ r ∧ Follows r mid := by
  unfold anyWord at h
  split at h
  · rename_i c cs
    split at h
    · obtain ⟨rfl, hgap⟩ := gap_value h
      -- the word is the longest run of its characters, so another one ends it
      refine ⟨cs.dropWhile isWordChar, ?_, hgap, fun d hd => ?_⟩
      · rw [String.toList_ofList, List.cons_append, List.takeWhile_append_dropWhile]
      · have hnot := List.head?_dropWhile_not isWordChar cs
        rw [show (cs.dropWhile isWordChar).head? = some d from hd] at hnot
        exact hnot
    · cases h
  · cases h

/-- The text that a name was read from. -/
theorem ident_eq_ok {name : Name} (h : ident s = .ok (name, mid)) :
    ∃ r, s = name.toList ++ r ∧ IsName name ∧ Follows r mid := by
  have hname : IsName name :=
    (alike_ident.reads s name mid (Nat.lt_succ_self _) h).2.2
  unfold ident at h
  cases hword : anyWord s with
  | error e => rw [hword] at h; cases h
  | ok res =>
    rw [hword] at h
    dsimp only at h
    split at h
    · cases h
    · cases h
      obtain ⟨r, hs, hr⟩ := anyWord_eq_ok hword
      exact ⟨r, hs, hname, hr⟩

/-- Where a mark was read, the text begins with it. -/
theorem symbol_eq_ok {mark : String} (h : symbol mark s = .ok ((), mid)) :
    ∃ r, s = mark.toList ++ r ∧ skipGap r = .ok mid := by
  obtain ⟨_, rest, hexact, hgap⟩ := bind_eq_ok h
  unfold exactly at hexact
  cases hafter : afterStart? mark.toList s with
  | none => rw [hafter] at hexact; cases hexact
  | some r =>
    rw [hafter] at hexact
    cases hexact
    exact ⟨rest, afterStart?_eq_some_iff.mp hafter, skipGap_of_gap hgap⟩

/-- A name that nothing goes on with is a conditional. -/
theorem conditional_of_ident {name : Name} (h : ident s = .ok (name, mid)) (hstop : Stops 3 mid) :
    Production.conditional (nested n) s = .ok (.ident name, mid) := by
  obtain ⟨r, rfl, hname, hr⟩ := ident_eq_ok h
  exact conditional_of_primary
    ((keyword_fails_of_name hname (by decide) (by decide) hr.wordEnd).bind _)
    ((Lead.name hname hr.wordEnd).plain (by decide)) (primary_ident hname hr) hstop

/-- What is no arrow function is an operand that an assignment operator may follow. -/
theorem assignment_apply {err : ReadError} (harrow : Production.arrow N s = .error err) :
    Production.assignment N s = (Production.conditional N >>= Production.assigned N) s :=
  bind_of_ok (lookFor_of_error harrow)

/-- An operand is an assignment where no assignment operator follows. -/
theorem assignment_of_conditional {err : ReadError} (harrow : Production.arrow N s = .error err)
    (h : Production.conditional N s = .ok (e, r')) (hfails : Fails assignmentOperator r') :
    Production.assignment N s = .ok (e, r') := by
  obtain ⟨place, hfails⟩ := hfails
  rw [assignment_apply harrow, bind_of_ok h]
  unfold Production.assigned
  rw [hfails]

/-- A name that an assignment operator or an arrow does not follow. -/
theorem assignment_of_ident {name : Name} (hs : s.length < n) (h : ident s = .ok (name, mid))
    (hstop : Stops 2 mid) : (nested n).assignment s = .ok (.ident name, mid) := by
  obtain ⟨place, harrow⟩ := hstop.arrow (by decide)
  -- a name alone is a list of parameters too, and its arrow is missing
  have hparams : ((do return [← ident]) <|> Production.params (nested n)) s = .ok ([name], mid) :=
    orElse_of_ok (bind_of_ok h)
  have hfunction : Production.arrow (nested n) s = .error ⟨place, false⟩ :=
    (bind_of_ok hparams).trans (bind_of_error harrow)
  rw [assignment_eq hs]
  exact assignment_of_conditional hfunction (conditional_of_ident h (hstop.mono (by decide)))
    (hstop.assignment (by decide))

/-- A closing bracket of parameters or a comma between them stops a name. -/
theorem stops_of_close (h : symbol ")" s = .ok ((), mid)) : Stops 2 s := by
  obtain ⟨r, rfl, _⟩ := symbol_eq_ok h
  exact (stops_closing (by decide) r).mono (by decide)

/-- So does a comma. -/
theorem stops_of_comma (h : symbol "," s = .ok ((), mid)) : Stops 2 s := by
  obtain ⟨r, rfl, _⟩ := symbol_eq_ok h
  exact stops_comma r

/-- Names with commas between them, up to a closing bracket, are read as expressions, too. -/
theorem manyAfter_of_idents {names : List Name} {bound : Nat} {rest : List Char}
    (hs : s.length < n) (h : manyAfter (symbol ",") ident bound s = .ok (names, mid))
    (hclose : symbol ")" mid = .ok ((), rest)) :
    Stops 2 s ∧ manyAfter (symbol ",") (nested n).assignment bound s =
      .ok (names.map Expr.ident, mid) := by
  induction bound generalizing s names with
  | zero =>
    cases h
    exact ⟨stops_of_close hclose, rfl⟩
  | succ bound ih =>
    -- the list ends at the bracket, or one more name follows its comma
    rcases many_succ_eq_ok h with ⟨rfl, rfl, hfails⟩ | ⟨name, others, s', rfl, hname, hothers⟩
    · have hstop := stops_of_close hclose
      obtain ⟨r, rfl, _⟩ := symbol_eq_ok hclose
      have hcomma : Fails (symbol ",") (")".toList ++ r) := symbol_fails rfl
      exact ⟨hstop, many_of_fails (hcomma.bind _) _⟩
    · obtain ⟨_, s₁, hcomma, hident⟩ := bind_eq_ok hname
      have hlen := ((alike_symbol "," (by decide)).reads s _ s₁ hs hcomma).2.1
      have hlen' := (alike_ident.reads s₁ name s' (Nat.lt_succ_self _) hident).2.1
      obtain ⟨hstop, hmany⟩ := ih (by omega) hothers
      refine ⟨stops_of_comma hcomma, many_of_ok ?_ hmany⟩
      exact (bind_of_ok hcomma).trans (assignment_of_ident (by omega) hident hstop)

/-! ## No arrow function -/

/-- The marks that no expression begins with. -/
def endings : List Char :=
  [')', ']', '\x7d', ';', ':', ',']

/-- No part of an expression begins with one of these marks, or at the end of the text. -/
theorem parts_fail (h : ∀ c ∈ s.head?, c ∈ endings) :
    Fails (Production.arrow N) s ∧ Fails (Production.construct N) s ∧ Plain s ∧
      Fails (Production.primary N) s := by
  -- each of the marks is compared with what can begin a part
  cases s with
  | nil =>
    exact ⟨Fails.bind (.orElse ⟨_, rfl⟩ ⟨_, rfl⟩) _, ⟨_, rfl⟩, ⟨⟨_, rfl⟩, ⟨_, rfl⟩⟩,
      primary_fails_nil⟩
  | cons c s =>
    have hc := h c rfl
    simp only [endings, List.mem_cons, List.not_mem_nil, or_false] at hc
    rcases hc with rfl | rfl | rfl | rfl | rfl | rfl
    all_goals exact ⟨Fails.bind (.orElse ⟨_, rfl⟩ ⟨_, rfl⟩) _, ⟨_, rfl⟩, ⟨⟨_, rfl⟩, ⟨_, rfl⟩⟩,
      primary_fails (by unfold IsMark; decide) (by decide) (by decide) (by decide) _⟩

/-- No expression begins with one of these marks, or at the end of the text. -/
theorem assignment_fails (hs : s.length < n) (h : ∀ c ∈ s.head?, c ∈ endings) :
    Fails (nested n).assignment s := by
  obtain ⟨⟨place, harrow⟩, hconstruct, hplain, hprimary⟩ := parts_fail (N := nested n) h
  refine Fails.of_eq ((assignment_eq hs).trans (assignment_apply harrow)) ?_
  exact (conditional_fails (unary_fails hconstruct hplain hprimary)).bind _

/-- Parameters in parentheses are an operand, too, unless there are none. -/
theorem conditional_of_params {names : List Name} (hs : s.length < n)
    (h : Production.params (nested n) s = .ok (names, mid)) (hstop : Stops 3 mid) :
    Fails (Production.conditional (nested n)) s ∨
      ∃ e, Production.conditional (nested n) s = .ok (e, mid) := by
  obtain ⟨_, s₁, hopen, h⟩ := bind_eq_ok h
  obtain ⟨names', s₂, hnames, h⟩ := bind_eq_ok h
  obtain ⟨_, s₃, hclose, hpure⟩ := bind_eq_ok h
  cases hpure
  have hlen := ((alike_symbol "(" (by decide)).reads s _ s₁ hs hopen).2.1
  obtain ⟨r, rfl, _⟩ := symbol_eq_ok hopen
  have hnew : Fails (keyword "new") ("(".toList ++ r) := ⟨_, rfl⟩
  have hplain : Plain ("(".toList ++ r) := ⟨⟨_, rfl⟩, ⟨_, rfl⟩⟩
  -- empty parentheses are no operand; names in parentheses are a name or a sequence
  rcases sepBy_eq_ok hnames with ⟨rfl, rfl, _⟩ | ⟨name, others, s', rfl, hname, hothers⟩
  · have hempty : Fails (nested n).assignment s₂ := by
      refine assignment_fails (by omega) ?_
      obtain ⟨r', rfl, _⟩ := symbol_eq_ok hclose
      intro c hc
      cases hc
      decide
    have hparenthesized : Fails (Production.parenthesized (nested n)) ("(".toList ++ r) :=
      .of_ok hopen ((hempty.bind _).bind _ |>.bind _)
    refine .inl (conditional_fails (unary_fails (hnew.bind _) hplain ?_))
    refine Fails.of_eq (primary_mark (by unfold IsMark; decide) r) ?_
    exact .orElse ((symbol_fails rfl).bind _) <| .orElse ((symbol_fails rfl).bind _) <|
      .orElse hparenthesized ((ident_fails (by decide) r).bind _)
  · have hlen' := (alike_ident.reads s₁ name s' (Nat.lt_succ_self _) hname).2.1
    obtain ⟨hstop', hmany⟩ := manyAfter_of_idents (n := n) (by omega) hothers hclose
    have hinner : Production.innerExpr (nested n) s₁ =
        .ok (Production.sequenced (.ident name :: others.map .ident), s₂) :=
      bind_of_ok (sepBy1_of_ok (assignment_of_ident (by omega) hname hstop') hmany)
    have hparenthesized : Production.parenthesized (nested n) ("(".toList ++ r) =
        .ok (Production.sequenced (.ident name :: others.map .ident), mid) :=
      (bind_of_ok hopen).trans ((bind_of_ok hinner).trans (bind_of_ok hclose))
    exact .inr ⟨_, conditional_of_primary (hnew.bind _) hplain
      (primary_parenthesis r hparenthesized) hstop⟩

/-- What is read as an operand up to where no arrow follows is no arrow function. -/
theorem arrow_error (hs : s.length < n)
    (h : Production.conditional (nested n) s = .ok (e, r')) (harrow : Fails (symbol "=>") r') :
    ∃ err, Production.arrow (nested n) s = .error err := by
  -- an arrow function is ruled out by its parameters or by its arrow
  cases hparams :
      ((do return [← ident]) <|> Production.params (nested n) : Reader (List Name)) s with
  | error err => exact ⟨err, bind_of_error hparams⟩
  | ok res =>
    obtain ⟨names, mid⟩ := res
    cases hmark : symbol "=>" mid with
    | error err => exact ⟨err, (bind_of_ok hparams).trans (bind_of_error hmark)⟩
    | ok res =>
      -- then the operand would end before the arrow
      exfalso
      have hstop : Stops 3 mid := by
        obtain ⟨r, rfl, _⟩ := symbol_eq_ok hmark
        exact stops_arrow r
      have hmid : r' = mid := by
        rcases orElse_eq_ok hparams with hname | ⟨_, hparams⟩
        · obtain ⟨name, _, hname, hpure⟩ := bind_eq_ok hname
          cases hpure
          rw [conditional_of_ident hname hstop] at h
          cases h
          rfl
        · rcases conditional_of_params hs hparams hstop with ⟨place, hfails⟩ | ⟨e', he'⟩
          · rw [hfails] at h
            cases h
          · rw [he'] at h
            cases h
            rfl
      obtain ⟨place, harrow⟩ := harrow
      rw [hmid, hmark] at harrow
      cases harrow

/-! ## From a level to all looser ones -/

variable {t : List Char} {k : Nat} {isNumber : Bool}

/-- What is read up to any loose enough stop is read up to tighter ones. -/
theorem ReadsAs.mono {α : Type} {p : Reader α} {a : α} {k' : Nat} (h : ReadsAs n k p t a)
    (hk : k' ≤ k) : ReadsAs n k' p t a :=
  fun r r' hn hr hstop => h r r' hn hr (hstop.mono hk)

/-- What is read at every level up to one is read up to looser ones. -/
theorem Written.mono {k' : Nat} {isNumber' : Bool} (h : Written n k t e isNumber) (hk : k' ≤ k)
    (hnumber : isNumber → isNumber') : Written n k' t e isNumber' where
  access hk' r r' hn hr hstop hpoint :=
    h.access (by omega) r r' hn hr hstop fun hyes => hpoint (hnumber hyes)
  unary hk' := h.unary (by omega)
  level l hl hl' hlk := h.level l hl hl' (by omega)
  assignment hk' := h.assignment (by omega)
  whole := h.whole

/-- An expression without a comma at its top is a whole one. -/
theorem whole_of_assignment (h : ReadsAs n 2 (nested n).assignment t e) :
    ReadsAs n 1 (Production.innerExpr (nested n)) t e := by
  intro r r' hn hr hstop
  have hcomma : Fails (symbol ",") r' := hstop.comma (by decide)
  exact bind_of_ok (sepBy1_of_ok (h r r' hn hr (hstop.mono (by decide)))
    (many_of_fails (hcomma.bind _) _))

/-- A text that is read as an assignment is read at the loose levels. -/
theorem Written.of_assignment (hk : k ≤ 3) (h : ReadsAs n 2 (nested n).assignment t e) :
    Written n k t e isNumber where
  access hk' := absurd hk' (by omega)
  unary hk' := absurd hk' (by omega)
  level l hl hl' hlk := absurd hlk (by omega)
  assignment _ := h
  whole := whole_of_assignment h

/-- What is read as a conditional is read as an assignment, because it is no arrow function. -/
theorem assignment_of_reads (h : ReadsAs n 2 (Production.conditional (nested n)) t e) :
    ReadsAs n 2 (nested n).assignment t e := by
  intro r r' hn hr hstop
  have hread := h r r' hn hr hstop
  obtain ⟨err, harrow⟩ := arrow_error hn hread (hstop.arrow (by decide))
  rw [assignment_eq hn]
  exact assignment_of_conditional harrow hread (hstop.assignment (by decide))

/-- A text that is read as a conditional. -/
theorem Written.of_conditional (h : ReadsAs n 2 (Production.conditional (nested n)) t e) :
    Written n 3 t e isNumber :=
  .of_assignment (Nat.le_refl 3) (assignment_of_reads h)

/-- A text that is read at a level of operators between operands. -/
theorem Written.of_level (hk : 4 ≤ k) (hk' : k ≤ 13) (h : ResumesLevel n k t e) :
    Written n k t e isNumber := by
  have hlevel := resumes_below hk' h
  -- the levels below are reached one by one
  have hconditional : ReadsAs n 3 (Production.conditional (nested n)) t e := by
    intro r r' hn hr hstop
    exact conditional_of_level
      (reads_of_resumes (hlevel 4 (by decide) hk) r r' hn hr (hstop.mono (by decide)))
      (hstop.choice (by decide))
  have hassignment := assignment_of_reads (hconditional.mono (by decide))
  exact {
    access := fun hk => absurd hk (by omega)
    unary := fun hk => absurd hk (by omega)
    level := fun l hl _ hlk => hlevel l hl hlk
    assignment := fun _ => hassignment
    whole := whole_of_assignment hassignment }

/-- A text that is read with the operators around one operand. -/
theorem Written.of_unary (hk : k < 17) (h : ReadsAs n 14 (nested n).unary t e) :
    Written n k t e isNumber := by
  have hlevel : ReadsAs n 14 (Reader.level n 14) t e := by
    intro r r' hn hr hstop
    rw [level_fourteen, ← unary_eq hn]
    exact h r r' hn hr hstop
  -- no operator follows, so all looser levels end where this one does
  have hwritten : Written n 13 t e isNumber :=
    .of_level (by decide) (by decide) (resumes_of_reads (by decide) (by decide) hlevel)
  exact {
    access := fun hk' => absurd hk' (by omega)
    unary := fun _ => h
    level := fun l hl hl' _ => hwritten.level l hl hl' hl'
    assignment := fun _ => hwritten.assignment (by decide)
    whole := hwritten.whole }

/-- An operand with its accesses. A point that would go on with a number is no access, either. -/
theorem Written.of_access {ambiguous : Bool} (hlead : Leads 17 ambiguous t)
    (h : ResumesAccess n true t e isNumber) : Written n k t e isNumber := by
  have hunary : ReadsAs n 14 (nested n).unary t e := by
    intro r r' hn hr hstop
    obtain ⟨kind, hkind, hoperator, _⟩ := hlead r hr.wordEnd
    have hsuffix := hstop.suffix (by decide)
    -- what stops an access is no point, so the text of a number goes on with none
    have hpoint : ∀ c ∈ r.head?, c ≠ '.' := by
      rintro c hc rfl
      obtain ⟨cs, rfl⟩ := List.head?_eq_some_iff.mp hc
      have hgap := hr.gap
      rw [skipGap_solid (by decide) (by decide)] at hgap
      cases hgap
      exact (hsuffix '.' rfl).1 rfl
    rw [unary_eq hn]
    exact unary_of_operand (hkind.plain (hoperator (by decide)))
      (h r r' hn hr (hstop.mono (by decide)) fun _ => hpoint) hsuffix (hstop.update (by decide))
  have hwritten : Written n 16 t e isNumber := .of_unary (by decide) hunary
  exact {
    access := fun _ => h
    unary := fun _ => hunary
    level := fun l hl hl' _ => hwritten.level l hl hl' (by omega)
    assignment := fun _ => hwritten.assignment (by decide)
    whole := hwritten.whole }

/-! ## Primary expressions -/

/-- A primary expression is an operand unless its text begins with `new`. -/
theorem resumes_of_primary {calls : Bool}
    (hnew : ∀ r r', Follows r r' → Fails (keyword "new") (t ++ r))
    (h : ∀ r r', (t ++ r).length < n → Follows r r' → (isNumber → ∀ c ∈ r.head?, c ≠ '.') →
      Production.primary (nested n) (t ++ r) = .ok (e, r')) :
    ResumesAccess n calls t e isNumber := by
  intro r r' hn hr _ hpoint
  have hconstruct : Fails (Production.construct (nested n)) (t ++ r) := (hnew r r' hr).bind _
  exact bind_of_ok ((orElse_of_fails hconstruct).trans (h r r' hn hr hpoint))

/-- Parentheses stand around a text. -/
theorem toList_parenthesized (text : String) :
    (Printer.parenthesized text).toList = '(' :: (text.toList ++ [')']) := by
  unfold Printer.parenthesized
  rw [String.toList_append, String.toList_append]
  rfl

/-- What comes after a mark that closes an expression. -/
theorem follows_closing (hc : c ∈ endings) (s : List Char) : Follows (c :: s) (c :: s) := by
  have hall : ∀ c ∈ endings, isBlank c = false ∧ c ≠ '/' ∧ isWordChar c = false := by decide
  obtain ⟨hblank, hslash, hword⟩ := hall c hc
  refine ⟨skipGap_solid hblank hslash s, fun d hd => ?_⟩
  cases hd
  exact hword

/-- Parentheses around a whole expression. -/
theorem parenthesized_text {least : Nat} {ambiguous : Bool} (hlead : Leads least ambiguous t)
    (h : ReadsAs n 1 (Production.innerExpr (nested n)) t e)
    (hn : ('(' :: (t ++ [')']) ++ r).length < n) (hr : skipGap r = .ok r') :
    Production.parenthesized (nested n) ('(' :: (t ++ [')']) ++ r) = .ok (e, r') := by
  have happend : '(' :: (t ++ [')']) ++ r = "(".toList ++ (t ++ ')' :: r) := by
    simp only [List.cons_append, List.append_assoc, List.nil_append]
    rfl
  have hclose : Follows (')' :: r) (')' :: r) := follows_closing (by decide) r
  obtain ⟨kind, hkind, _⟩ := hlead (')' :: r) hclose.wordEnd
  rw [happend] at hn ⊢
  rw [List.length_append] at hn
  exact (bind_of_ok (symbol_text "(" hkind.solid.skipGap)).trans <|
    (bind_of_ok (h _ _ (by omega) hclose ((stops_closing (by decide) r).mono (by decide)))).trans <|
    bind_of_ok (symbol_text ")" hr)

/-- An expression in parentheses is an operand, and accesses go on from there. -/
theorem resumes_parenthesized {least : Nat} {ambiguous : Bool} {text : String} {calls : Bool}
    (hlead : Leads least ambiguous text.toList)
    (h : ReadsAs n 1 (Production.innerExpr (nested n)) text.toList e) :
    ResumesAccess n calls (Printer.parenthesized text).toList e false := by
  rw [toList_parenthesized]
  refine resumes_of_primary (fun r r' _ => ?_) fun r r' hn hr _ => ?_
  · exact keyword_fails_of_char (by decide) (by decide) (by decide) _
  · exact primary_parenthesis _ (parenthesized_text hlead h hn hr.gap)

/-- So it is read at every level. -/
theorem Written.parenthesized {least : Nat} {ambiguous : Bool} {text : String}
    (hlead : Leads least ambiguous text.toList) (h : Written n k text.toList e isNumber)
    {k' : Nat} {isNumber' : Bool} :
    Written n k' (Printer.parenthesized text).toList e isNumber' :=
  (Written.of_access (leads_parenthesized 17 text : Leads 17 false _)
    (resumes_parenthesized hlead h.whole)).mono (Nat.le_refl k') fun h => by cases h

/-- An operand, in parentheses where it binds more loosely than its place asks for. -/
theorem Written.atLeast {binding least : Nat} {ambiguous : Bool} {text : String}
    (hlead : Leads binding ambiguous text.toList)
    (h : Written n binding text.toList e isNumber) :
    Written n least (Printer.atLeast least binding text).toList e isNumber := by
  unfold Printer.atLeast
  split
  · exact .parenthesized hlead h
  · exact h.mono (by omega) id

end Descramble.Reader
