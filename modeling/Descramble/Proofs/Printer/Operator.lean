import Descramble.Proofs.Printer.Listed
import Descramble.Proofs.Script.Faithful

/-!
# Operators and their operands are read back

An expression `ReadsBack` when its text is read as it wherever the text may stand without
parentheses. For an expression made with an operator, that follows from the same fact about its
operands.

Main statements: `ReadsBack.atLeast`, `written_infix`, `written_unary`, `written_assign`.
-/

namespace Descramble

namespace Reader

variable {n depth : Nat} {s mid r r' : List Char} {e left right : Expr}

/-- The text of an expression is read as the expression at every level that it binds tightly enough
    for, and as what `new` constructs unless it accesses a call. -/
structure ReadsBack (n depth : Nat) (e : Expr) : Prop where
  sound : e.Sound
  written : Written n e.binding (Printer.expr depth e).toList e e.isNumber
  constructed : 17 ≤ e.binding → e.accessesCall = false →
    ResumesAccess n false (Printer.expr depth e).toList e e.isNumber

namespace ReadsBack

/-- How the text of an expression begins. -/
theorem leads (h : ReadsBack n depth e) :
    Leads e.binding e.startsAmbiguously (Printer.expr depth e).toList :=
  leads_expr depth e h.sound

/-- How it begins where it stands in parentheses if its place asks for them. -/
theorem leads_atLeast (h : ReadsBack n depth e) (least : Nat) :
    Leads least e.startsAmbiguously
      (Printer.atLeast least e.binding (Printer.expr depth e)).toList :=
  Reader.leads_atLeast least h.leads

/-- An operand, in parentheses where its place asks for them. -/
theorem atLeast (h : ReadsBack n depth e) (least : Nat) :
    Written n least (Printer.atLeast least e.binding (Printer.expr depth e)).toList e e.isNumber :=
  .atLeast h.leads h.written

/-- There is no gap in front of an operand. -/
theorem skipGap_atLeast (h : ReadsBack n depth e) (least : Nat)
    (hr : ∀ c ∈ r.head?, isWordChar c = false) :
    skipGap ((Printer.atLeast least e.binding (Printer.expr depth e)).toList ++ r) =
      .ok ((Printer.atLeast least e.binding (Printer.expr depth e)).toList ++ r) := by
  obtain ⟨kind, hkind, _⟩ := h.leads_atLeast least r hr
  exact hkind.solid.skipGap

/-- An item of a list. -/
theorem item (h : ReadsBack n depth e) :
    ReadsItem n (nested n).assignment
      (Printer.atLeast 2 e.binding (Printer.expr depth e)).toList e where
  reads := (h.atLeast 2).assignment (Nat.le_refl 2)
  solid r hr := by
    obtain ⟨kind, hkind, _⟩ := h.leads_atLeast 2 r hr
    exact hkind.solid

end ReadsBack

/-- An operand is read at every level that it binds tightly enough for. -/
theorem Written.reads_level {t : List Char} {k l : Nat} {isNumber : Bool}
    (h : Written n k t e isNumber) (hl : 4 ≤ l) (hl' : l ≤ 14) (hlk : l ≤ k) :
    ReadsAs n l (Reader.level n l) t e := by
  rcases Nat.lt_or_ge l 14 with hlt | hge
  · exact reads_of_resumes (h.level l hl (by omega) hlk)
  · obtain rfl : l = 14 := by omega
    intro r r' hn hr hstop
    rw [level_fourteen, ← unary_eq hn]
    exact h.unary hlk r r' hn hr hstop

/-- So it is read as a conditional, where none goes on from it. -/
theorem Written.reads_conditional {t : List Char} {k : Nat} {isNumber : Bool}
    (h : Written n k t e isNumber) (hk : 4 ≤ k) :
    ReadsAs n 3 (Production.conditional (nested n)) t e := by
  intro r r' hn hr hstop
  exact conditional_of_level
    (h.reads_level (Nat.le_refl 4) (by decide) hk r r' hn hr (hstop.mono (by decide)))
    (hstop.choice (by decide))

/-! ## Between two operands -/

/-- The reader of a level agrees with itself. -/
theorem alike_level (l : Nat) : Alike n 0 Expr.Sound (level n l) (level n l) :=
  (Production.alike_chain (self_alike (n := n)) (14 - l)).weaken (Nat.le_succ n) (Nat.zero_le 1)
    fun _ => id

/-- The bound of a chain does not matter, so it is still `n` after a step. -/
theorem chainRest_step {l : Nat} {op : Infix} (hleft : left.Sound) (hs : s.length < n)
    (hfirst : firstInfix? (infixLevel l) s = some (op, mid))
    (hright : level n (l + 1) mid = .ok (right, r)) :
    chainRest (infixLevel l) (level n (l + 1)) n left s =
      chainRest (infixLevel l) (level n (l + 1)) n (op.combine left right) r := by
  have hoperand : Alike n 0 Expr.Sound (level n (l + 1)) (level n (l + 1)) := alike_level (l + 1)
  have hmid := (Production.firstInfix?_suffix hfirst).2
  obtain ⟨_, hlen, hsound⟩ := hoperand.reads mid right r (by omega) hright
  -- one step takes one of the bound, and the shorter rest needs no more than is left
  obtain ⟨m, rfl⟩ : ∃ m, n = m + 1 := ⟨n - 1, by omega⟩
  have hstep : Production.infixStep (infixLevel l) (level (m + 1) (l + 1)) left s =
      .ok (some (op.combine left right), r) := by
    unfold Production.infixStep
    rw [hfirst]
    exact bind_of_ok hright
  have hnormal : Alike m 0 Expr.Sound
      (loop (Production.infixStep (infixLevel l) (level (m + 1) (l + 1))) m
        (op.combine left right))
      (loop (Production.infixStep (infixLevel l) (level (m + 1) (l + 1))) (m + 1)
        (op.combine left right)) :=
    Alike.loop
      (fun _ he => (Production.alike_infixStep hoperand _ he).shorter (Nat.le_succ m))
      (fun _ _ _ _ _ hs => Production.infixStep_shorter hoperand (by omega))
      (Production.combine_sound op hleft hsound) (Nat.le_refl m) (Nat.le_succ m)
  rw [Production.chainRest_eq_loop, loop_of_some hstep]
  exact hnormal.same r (by omega)

/-- The token of an operator is not taken for a gap. -/
theorem skipGap_operator (op : Infix) (s : List Char) :
    skipGap (op.text.toList ++ ' ' :: s) = .ok (op.text.toList ++ ' ' :: s) := by
  rcases op with (_ | _) | ((_ | _ | _ | _ | _ | _ | _ | _ | _ | _ | _) |
    (_ | _ | _ | _ | _ | _ | _ | _) | _ | _)
  all_goals rfl

/-- Operators between two operands are of the levels 4 to 13. -/
theorem Infix.binding_range (op : Infix) : 4 ≤ op.binding ∧ op.binding ≤ 13 := by
  rcases op with (_ | _) | ((_ | _ | _ | _ | _ | _ | _ | _ | _ | _ | _) |
    (_ | _ | _ | _ | _ | _ | _ | _) | _ | _)
  all_goals decide

/-- The text of an operator between two operands. -/
def infixText (depth : Nat) (op : Infix) (left right : Expr) : String :=
  Printer.atLeast op.binding left.binding (Printer.expr depth left) ++ " " ++ op.text ++ " " ++
    Printer.atLeast (op.binding + 1) right.binding (Printer.expr depth right)

/-- Operators of a level group to the left, so the left operand may be of the same level. -/
theorem written_infix (op : Infix) (hleft : ReadsBack n depth left)
    (hright : ReadsBack n depth right) {isNumber : Bool} :
    Written n op.binding (infixText depth op left right).toList (op.combine left right)
      isNumber := by
  obtain ⟨hge, hle⟩ := op.binding_range
  refine .of_level hge hle fun r r' hn hr hstop => ?_
  have htext : (infixText depth op left right).toList ++ r =
      (Printer.atLeast op.binding left.binding (Printer.expr depth left)).toList ++
        ' ' :: (op.text.toList ++ ' ' ::
          ((Printer.atLeast (op.binding + 1) right.binding (Printer.expr depth right)).toList ++
            r)) := by
    simp only [infixText, String.toList_append, List.append_assoc]
    rfl
  -- the left operand stops at the operator, the right one at what follows the whole
  have hgap := hright.skipGap_atLeast (op.binding + 1) hr.wordEnd
  rw [htext] at hn ⊢
  rw [(hleft.atLeast op.binding).level _ hge hle (Nat.le_refl _) _ _ hn
    (follows_blank (skipGap_operator op _)) (stops_operator op _)]
  simp only [List.length_append, List.length_cons] at hn
  refine chainRest_step hleft.sound (by simp only [List.length_append, List.length_cons]; omega)
    (firstInfix?_text op hgap) ?_
  exact (hright.atLeast (op.binding + 1)).reads_level (by omega) (by omega) (Nat.le_refl _) r r'
    (by rw [List.length_append]; omega) hr hstop

/-! ## Before and after one operand -/

/-- An operator that is a word is read with the blank after it. -/
theorem unaryOperator_word {op : UnaryOp} (hop : op.isWord) (h : skipGap s = .ok s) :
    unaryOperator (op.text.toList ++ ' ' :: s) = .ok (op, s) := by
  have hfollows := follows_blank h
  cases op with
  | not | negate | plus | bitNot => cases hop
  -- signs are tried first, then the three words in turn
  | typeOf =>
    repeat refine (orElse_of_fails ((operator_fails rfl).bind _)).trans ?_
    exact orElse_of_ok (bind_of_ok (keyword_text "typeof" hfollows))
  | void =>
    repeat refine (orElse_of_fails ((operator_fails rfl).bind _)).trans ?_
    refine (orElse_of_fails (Fails.bind ⟨_, rfl⟩ _)).trans ?_
    exact orElse_of_ok (bind_of_ok (keyword_text "void" hfollows))
  | delete =>
    repeat refine (orElse_of_fails ((operator_fails rfl).bind _)).trans ?_
    refine (orElse_of_fails (Fails.bind ⟨_, rfl⟩ _)).trans ?_
    refine (orElse_of_fails (Fails.bind ⟨_, rfl⟩ _)).trans ?_
    exact bind_of_ok (keyword_text "delete" hfollows)

/-- A sign is read where it is not the start of another token. -/
theorem unaryOperator_sign {op : UnaryOp} (hop : op.isWord = false)
    (hhead : ∀ c ∈ s.head?, c ≠ '=' ∧ [c] ≠ op.text.toList) {s' : List Char}
    (h : skipGap s = .ok s') : unaryOperator (op.text.toList ++ s) = .ok (op, s') := by
  have hlonger {longer : List Char} (hall : ∀ c ∈ longer, c = '=' ∨ [c] = op.text.toList) :
      ∀ c ∈ s.head?, c ∉ longer := by
    intro c hc hmem
    obtain ⟨hequals, hsame⟩ := hhead c hc
    rcases hall c hmem with h | h
    · exact hequals h
    · exact hsame h
  cases op with
  | typeOf | void | delete => cases hop
  | not => exact orElse_of_ok (bind_of_ok (operator_text "!" (hlonger (by decide)) h))
  | negate =>
    refine (orElse_of_fails ((operator_fails rfl).bind _)).trans ?_
    exact orElse_of_ok (bind_of_ok (operator_text "-" (hlonger (by decide)) h))
  | plus =>
    refine (orElse_of_fails ((operator_fails rfl).bind _)).trans ?_
    refine (orElse_of_fails ((operator_fails rfl).bind _)).trans ?_
    exact orElse_of_ok (bind_of_ok (operator_text "+" (hlonger (by decide)) h))
  | bitNot =>
    refine (orElse_of_fails ((operator_fails rfl).bind _)).trans ?_
    refine (orElse_of_fails ((operator_fails rfl).bind _)).trans ?_
    refine (orElse_of_fails ((operator_fails rfl).bind _)).trans ?_
    exact orElse_of_ok (bind_of_ok (operator_text "~" (hlonger (by decide)) h))

/-- An operator in front of its operand. The blank keeps a sign apart from the same sign. -/
theorem written_unary (op : UnaryOp) (h : ReadsBack n depth e) {isNumber : Bool} :
    Written n 14
      (Printer.unaryText op (Printer.atLeast 14 e.binding (Printer.expr depth e))).toList
      (.unary op e) isNumber := by
  refine .of_unary (by decide) fun r r' hn hr hstop => ?_
  have hgap := h.skipGap_atLeast 14 hr.wordEnd
  have hread := (h.atLeast 14).unary (Nat.le_refl 14)
  obtain ⟨kind, hkind, _⟩ := h.leads_atLeast 14 [] fun _ h => by cases h
  generalize Printer.atLeast 14 e.binding (Printer.expr depth e) = text at *
  suffices hoperator : unaryOperator ((Printer.unaryText op text).toList ++ r) =
      .ok (op, text.toList ++ r) by
    have hlen := (alike_unaryOperator.reads _ _ _ (Nat.lt_succ_self _) hoperator).2.1
    have hunary : Production.unary (nested n) ((Printer.unaryText op text).toList ++ r) =
        .ok (.unary op e, r') :=
      (bind_of_ok (lookFor_of_ok hoperator)).trans
        (bind_of_ok (hread r r' (by omega) hr hstop))
    rw [unary_eq hn, hunary]
  unfold Printer.unaryText
  -- a blank is written after a word, and before an operand that starts with the same sign
  split
  · rename_i hblank
    have hskip : skipGap (' ' :: (text.toList ++ r)) = .ok (text.toList ++ r) :=
      (skipGap_blank (by decide) _).trans hgap
    rw [String.toList_append, String.toList_append, List.append_assoc, List.append_assoc]
    cases hword : op.isWord with
    | true => exact unaryOperator_word hword hgap
    | false =>
      refine unaryOperator_sign hword (fun c hc => ?_) hskip
      cases hc
      refine ⟨by decide, ?_⟩
      cases op <;> decide
  · rename_i hblank
    -- without the blank the sign is followed by another character
    rw [Bool.or_eq_true, not_or] at hblank
    rw [String.toList_append, List.append_assoc]
    refine unaryOperator_sign (Bool.eq_false_iff.mpr hblank.1) (fun c hc => ?_) hgap
    obtain ⟨d, cs, hs, hd⟩ := hkind.head
    rw [List.append_nil] at hs
    rw [hs] at hc hblank
    cases hc
    refine ⟨?_, fun hsame => hblank.2 ?_⟩
    · rintro rfl
      exact absurd hd (by decide)
    · rw [← hsame, List.isPrefixOf_iff_prefix]
      exact ⟨cs, rfl⟩

/-- An update in front of its operand. -/
theorem written_update_before (op : UpdateOp) (h : ReadsBack n depth e) {isNumber : Bool} :
    Written n 14 (op.text ++ Printer.atLeast 14 e.binding (Printer.expr depth e)).toList
      (.update op true e) isNumber := by
  refine .of_unary (by decide) fun r r' hn hr hstop => ?_
  have hgap := h.skipGap_atLeast 14 hr.wordEnd
  have hread := (h.atLeast 14).unary (Nat.le_refl 14)
  generalize Printer.atLeast 14 e.binding (Printer.expr depth e) = text at *
  rw [String.toList_append, List.append_assoc] at hn ⊢
  -- two signs are no unary operator: each of them is read as the start of an update
  have hoperator : Fails unaryOperator (op.text.toList ++ (text.toList ++ r)) := by
    cases op <;> exact ⟨_, rfl⟩
  have hunary : Production.unary (nested n) (op.text.toList ++ (text.toList ++ r)) =
      .ok (.update op true e, r') := by
    refine (bind_of_ok (lookFor_of_fails hoperator)).trans ?_
    refine (bind_of_ok (lookFor_of_ok (updateOperator_text op hgap))).trans ?_
    rw [List.length_append] at hn
    exact bind_of_ok (hread r r' (by omega) hr hstop)
  rw [unary_eq hn, hunary]

/-- An update behind its operand. -/
theorem written_update_after (op : UpdateOp) (h : ReadsBack n depth e) {isNumber : Bool} :
    Written n 15 (Printer.atLeast 17 e.binding (Printer.expr depth e) ++ op.text).toList
      (.update op false e) isNumber := by
  refine .of_unary (by decide) fun r r' hn hr hstop => ?_
  have hupdate : Follows (op.text.toList ++ r) (op.text.toList ++ r) ∧
      ∀ c ∈ (op.text.toList ++ r).head?, c ≠ '.' ∧ c ≠ '[' ∧ c ≠ '(' := by
    cases op
    all_goals exact ⟨⟨rfl, fun c hc => by cases hc; decide⟩, fun c hc => by cases hc; decide⟩
  obtain ⟨kind, hkind, hplain, _⟩ := h.leads_atLeast 17 _ hupdate.1.wordEnd
  have hresumes := (h.atLeast 17).access (Nat.le_refl 17)
  generalize Printer.atLeast 17 e.binding (Printer.expr depth e) = text at *
  rw [String.toList_append, List.append_assoc] at hn ⊢
  have haccess : Production.access (nested n) (text.toList ++ (op.text.toList ++ r)) =
      .ok (e, op.text.toList ++ r) := by
    refine (hresumes _ _ hn hupdate.1 ((stops_update op r).mono (by decide)) ?_).trans
      (suffixes_stop n hupdate.2)
    exact fun _ c hc => (hupdate.2 c hc).1
  -- the operand has no operator in front, so it is an access
  have hunary : Production.unary (nested n) (text.toList ++ (op.text.toList ++ r)) =
      .ok (.update op false e, r') := by
    have hplain := hkind.plain (hplain (by decide))
    refine (bind_of_ok (lookFor_of_fails hplain.1)).trans ?_
    refine (bind_of_ok (lookFor_of_fails hplain.2)).trans ?_
    refine (bind_of_ok haccess).trans ?_
    exact bind_of_ok (lookFor_of_ok (updateOperator_text op hr.gap))
  rw [unary_eq hn, hunary]

/-! ## Choices, assignments and sequences -/

/-- A choice is read back: its test, and then the two parts. -/
theorem written_conditional {test yes no : Expr} (htest : ReadsBack n depth test)
    (hyes : ReadsBack n depth yes) (hno : ReadsBack n depth no) {isNumber : Bool} :
    Written n 3 (Printer.expr depth (.conditional test yes no)).toList (.conditional test yes no)
      isNumber := by
  refine .of_conditional fun r r' hn hr hstop => ?_
  have hgapYes (u : List Char) := hyes.skipGap_atLeast 2 (r := ' ' :: u)
    (fun c hc => by cases hc; decide)
  have hgapNo := hno.skipGap_atLeast 2 hr.wordEnd
  have hreadTest := (htest.atLeast 4).reads_level (Nat.le_refl 4) (by decide) (Nat.le_refl 4)
  have hreadYes := (hyes.atLeast 2).assignment (Nat.le_refl 2)
  have hreadNo := (hno.atLeast 2).assignment (Nat.le_refl 2)
  rw [Printer.expr] at hn ⊢
  generalize Printer.atLeast 4 test.binding (Printer.expr depth test) = testText at *
  generalize Printer.atLeast 2 yes.binding (Printer.expr depth yes) = yesText at *
  generalize Printer.atLeast 2 no.binding (Printer.expr depth no) = noText at *
  have htext : (testText ++ " ? " ++ yesText ++ " : " ++ noText).toList ++ r =
      testText.toList ++ ' ' :: ("?".toList ++ ' ' :: (yesText.toList ++
        ' ' :: (":".toList ++ ' ' :: (noText.toList ++ r)))) := by
    simp only [String.toList_append, List.append_assoc]
    rfl
  rw [htext] at hn ⊢
  have hlevel := hreadTest _ _ hn (follows_blank rfl) (stops_choice _)
  simp only [List.length_append, List.length_cons] at hn
  -- the middle part ends at the colon, which is part of no expression
  have hyes' := hreadYes (' ' :: (":".toList ++ ' ' :: (noText.toList ++ r))) _
    (by simp only [List.length_append, List.length_cons]; omega) (follows_blank rfl)
    ((stops_closing (by decide) _).mono (by decide))
  have hskip {u u' : List Char} (h : skipGap u = .ok u') : skipGap (' ' :: u) = .ok u' :=
    (skipGap_blank (by decide) u).trans h
  refine (bind_of_ok (p := chain (nested n).bound _ 10) hlevel).trans ?_
  refine (bind_of_ok (lookFor_of_ok (symbol_text "?" (hskip (hgapYes _))))).trans ?_
  refine (bind_of_ok hyes').trans ?_
  refine (bind_of_ok (symbol_text ":" (hskip hgapNo))).trans ?_
  exact bind_of_ok (hreadNo r r' (by rw [List.length_append]; omega) hr hstop)

/-- The token of an assignment is neither a gap nor an arrow. -/
theorem follows_assignment (op : Option Arithmetic) (s : List Char) :
    Follows (' ' :: ((assignmentText op).toList ++ ' ' :: s))
        ((assignmentText op).toList ++ ' ' :: s) ∧
      Fails (symbol "=>") ((assignmentText op).toList ++ ' ' :: s) := by
  rcases op with _ | (_ | _ | _ | _ | _ | _ | _ | _ | _ | _ | _)
  all_goals exact ⟨follows_blank rfl, ⟨_, rfl⟩⟩

/-- An assignment is read back: its target, the operator and the value. -/
theorem written_assign (op : Option Arithmetic) {target value : Expr}
    (htarget : ReadsBack n depth target) (hassignable : target.isTarget)
    (hvalue : ReadsBack n depth value) {isNumber : Bool} :
    Written n 2 (Printer.expr depth (.assign op target value)).toList (.assign op target value)
      isNumber := by
  refine .of_assignment (by decide) fun r r' hn hr hstop => ?_
  have hgap := hvalue.skipGap_atLeast 2 hr.wordEnd
  have hreadTarget := (htarget.atLeast 17).reads_conditional (by decide)
  have hreadValue := (hvalue.atLeast 2).assignment (Nat.le_refl 2)
  rw [Printer.expr] at hn ⊢
  generalize Printer.atLeast 17 target.binding (Printer.expr depth target) = targetText at *
  generalize Printer.atLeast 2 value.binding (Printer.expr depth value) = valueText at *
  have htext : (targetText ++ " " ++ assignmentText op ++ " " ++ valueText).toList ++ r =
      targetText.toList ++ ' ' :: ((assignmentText op).toList ++
        ' ' :: (valueText.toList ++ r)) := by
    simp only [String.toList_append, List.append_assoc]
    rfl
  rw [htext] at hn ⊢
  obtain ⟨hfollows, hnoArrow⟩ := follows_assignment op (valueText.toList ++ r)
  have hconditional := hreadTarget _ _ hn hfollows (stops_assignment op _)
  -- the target is no list of parameters, since no arrow follows it
  obtain ⟨err, harrow⟩ := arrow_error hn hconditional hnoArrow
  rw [assignment_eq hn, assignment_apply harrow, bind_of_ok hconditional]
  simp only [List.length_append, List.length_cons] at hn
  unfold Production.assigned
  rw [assignmentOperator_text op hgap]
  dsimp only
  rw [if_pos hassignable]
  exact bind_of_ok (hreadValue r r' (by rw [List.length_append]; omega) hr hstop)

/-- Items of a list stand in parentheses where they are sequences. -/
theorem exprs_eq_map (depth : Nat) (items : List Expr) :
    Printer.exprs depth items =
      items.map fun e => Printer.atLeast 2 e.binding (Printer.expr depth e) := by
  induction items with
  | nil => rfl
  | cons e items ih => rw [Printer.exprs, ih, List.map_cons]

/-- A sequence is no item of a list, so it is read as a whole expression only. -/
theorem written_sequence {items : List Expr} (hitems : ∀ e ∈ items, ReadsBack n depth e)
    (hlength : 2 ≤ items.length) {isNumber : Bool} :
    Written n 1 (Printer.expr depth (.sequence items)).toList (.sequence items) isNumber where
  access hk := absurd hk (by decide)
  unary hk := absurd hk (by decide)
  level l hl _ hlk := absurd hlk (by omega)
  assignment hk := absurd hk (by decide)
  whole r r' hn hr hstop := by
    rw [Printer.expr, exprs_eq_map] at hn ⊢
    obtain ⟨first, items, rfl⟩ := List.exists_cons_of_length_pos (by omega : 0 < items.length)
    obtain ⟨second, items, rfl⟩ : ∃ second rest, items = second :: rest :=
      List.exists_cons_of_length_pos (by rw [List.length_cons] at hlength; omega)
    -- there are no more items than characters
    have hbound : (second :: items).length ≤ n := by
      have := length_le_afterCommas
        (fun e => Printer.atLeast 2 e.binding (Printer.expr depth e)) (second :: items)
      rw [toList_commaSeparated, List.length_append, List.length_append] at hn
      omega
    have hread := sepBy1_text n (fun e he => (hitems e he).item) hbound hn hr hstop
    exact bind_of_ok hread

end Reader

end Descramble
