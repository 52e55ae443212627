import Descramble.Proofs.Printer.Follow
import Descramble.Proofs.Reader.Statement

/-!
# Levels of an expression

Expressions are read level by level, from a primary one with its accesses up to a whole expression.
`Resumes` says that the text of an expression is read at a level of its own and that the level goes
on from there; what stops the level then makes it a text that the next looser level can read.
`Written k` says that of every level up to `k`.

Everything is read with one fixed count `n` of the readers, from texts that are shorter.

Main statements: `Written.of_access` up to `Written.of_whole`, and `Written.parenthesized`.
-/

namespace Descramble.Reader

variable {n : Nat} {s r r' : List Char}

/-! ## The readers for parts of a short text -/

/-- The reader for assignments inside a text that is short enough is the production itself. -/
theorem assignment_eq (hs : s.length < n) :
    (nested n).assignment s = Production.assignment (nested n) s :=
  (nested_alike (K := n) (Nat.le_refl n) (Nat.le_succ n)).assignment.same s hs

/-- The reader for operands inside a text that is short enough is the production itself. -/
theorem unary_eq (hs : s.length < n) :
    (nested n).unary s = Production.unary (nested n) s :=
  (nested_alike (K := n) (Nat.le_refl n) (Nat.le_succ n)).unary.same s hs

/-- The reader for `new` inside a text that is short enough is the production itself. -/
theorem construct_eq (hs : s.length < n) :
    (nested n).construct s = Production.construct (nested n) s :=
  (nested_alike (K := n) (Nat.le_refl n) (Nat.le_succ n)).construct.same s hs

/-- The reader for statements inside a text that is short enough is the production itself. -/
theorem statement_eq (hs : s.length < n) :
    (nested n).statement s = Production.statement (nested n) s :=
  (nested_alike (K := n) (Nat.le_refl n) (Nat.le_succ n)).statement.same s hs

/-- The readers with the fixed count agree with themselves. -/
theorem self_alike : (nested n).Alike n (nested n) :=
  nested_alike (Nat.le_refl n) (Nat.le_refl n)

/-! ## What is read -/

/-- An operand of accesses, with the accesses after it; calls only where `calls` allows them. -/
def operand (n : Nat) (calls : Bool) : Reader Expr := do
  let e ← Production.construct (nested n) <|> Production.primary (nested n)
  Production.suffixes (nested n) calls n e

/-- The chain of operators that bind at least as tightly as `l`. -/
def level (n l : Nat) : Reader Expr :=
  chain n (Production.unary (nested n)) (14 - l)

/-- What a text is read as by `p`, where nothing after it goes on with an expression of binding
    `k`. -/
def ReadsAs {α : Type} (n k : Nat) (p : Reader α) (t : List Char) (a : α) : Prop :=
  ∀ r r', (t ++ r).length < n → Follows r r' → Stops k r' → p (t ++ r) = .ok (a, r')

/-- An operand is read from the text, and accesses go on from there. A point after the text of a
    number would be part of it. -/
def ResumesAccess (n : Nat) (calls : Bool) (t : List Char) (e : Expr) (isNumber : Bool) : Prop :=
  ∀ r r', (t ++ r).length < n → Follows r r' → Stops 18 r' →
    (isNumber → ∀ c ∈ r.head?, c ≠ '.') →
    operand n calls (t ++ r) = Production.suffixes (nested n) calls n e r'

/-- An operand of level `l` is read from the text, and the chain of that level goes on from
    there. -/
def ResumesLevel (n l : Nat) (t : List Char) (e : Expr) : Prop :=
  ∀ r r', (t ++ r).length < n → Follows r r' → Stops (l + 1) r' →
    level n l (t ++ r) = chainRest (infixLevel l) (level n (l + 1)) n e r'

/-- The text reads as the expression at every level up to `k`. -/
structure Written (n k : Nat) (t : List Char) (e : Expr) (isNumber : Bool) : Prop where
  access : 17 ≤ k → ResumesAccess n true t e isNumber
  unary : 14 ≤ k → ReadsAs n 14 (nested n).unary t e
  level : ∀ l, 4 ≤ l → l ≤ 13 → l ≤ k → ResumesLevel n l t e
  assignment : 2 ≤ k → ReadsAs n 2 (nested n).assignment t e
  whole : ReadsAs n 1 (Production.innerExpr (nested n)) t e

/-! ## Where a level ends -/

/-- No access or call where no mark of one comes next. -/
theorem suffix_none {N : Nested} {calls : Bool} {e : Expr}
    (h : ∀ c ∈ s.head?, c ≠ '.' ∧ c ≠ '[' ∧ c ≠ '(') :
    Production.suffix N calls e s = .ok (none, s) := by
  have hmark (mark : String) {t : Char} (ht : mark.toList = [t]) (hne : ∀ c ∈ s.head?, t ≠ c) :
      afterStart? mark.toList s = none := by
    rw [ht]
    cases s with
    | nil => rfl
    | cons c s => exact if_neg (hne c rfl)
  -- the three marks are tried in turn, and each try ends at the first character
  unfold Production.suffix
  rw [bind_of_ok (lookFor_of_fails (operator_fails
    (hmark "." rfl fun c hc => (h c hc).1.symm)))]
  dsimp only
  rw [bind_of_ok (lookFor_of_fails (symbol_fails
    (hmark "[" rfl fun c hc => (h c hc).2.1.symm)))]
  dsimp only
  rw [if_neg]
  rw [Bool.and_eq_true, beq_iff_eq]
  exact fun hcall => (h '(' hcall.2).2.2 rfl

/-- Accesses end where no mark of one comes next. -/
theorem suffixes_stop {calls : Bool} {e : Expr} (bound : Nat) {N : Nested}
    (h : ∀ c ∈ s.head?, c ≠ '.' ∧ c ≠ '[' ∧ c ≠ '(') :
    Production.suffixes N calls bound e s = .ok (e, s) := by
  rw [Production.suffixes_eq_loop]
  exact loop_of_none (suffix_none h)

/-- A chain ends where no operator of its level comes next. -/
theorem chainRest_stop {ops : List Infix} {p : Reader Expr} {e : Expr} (bound : Nat)
    (h : firstInfix? ops s = none) : chainRest ops p bound e s = .ok (e, s) := by
  rw [Production.chainRest_eq_loop]
  refine loop_of_none ?_
  unfold Production.infixStep
  rw [h]

/-- The chain of a level is one of the next tighter level, and what goes on from it. -/
theorem level_apply {l : Nat} (hl : 4 ≤ l) (hl' : l ≤ 13) :
    level n l = (level n (l + 1) >>= chainRest (infixLevel l) (level n (l + 1)) n) := by
  -- the count of levels down to the operand, one more than for the tighter level
  obtain ⟨k, hk⟩ : ∃ k, 14 - l = k + 1 := ⟨13 - l, by omega⟩
  have hnext : 14 - (l + 1) = k := by omega
  have hthis : 13 - k = l := by omega
  unfold level
  rw [hk, hnext, chain, hthis]

/-- The tightest level is that of an operand with its prefixes. -/
theorem level_fourteen : level n 14 = Production.unary (nested n) :=
  rfl

/-! ## From one level to the next -/

variable {t : List Char} {e : Expr}

/-- No operator stands before what is read. -/
def Plain (s : List Char) : Prop :=
  Fails unaryOperator s ∧ Fails updateOperator s

/-- An operand without operators around it. -/
theorem unary_of_operand (hplain : Plain s)
    (h : operand n true s = Production.suffixes (nested n) true n e r')
    (hsuffix : ∀ c ∈ r'.head?, c ≠ '.' ∧ c ≠ '[' ∧ c ≠ '(') (hupdate : Fails updateOperator r') :
    Production.unary (nested n) s = .ok (e, r') := by
  have haccess : Production.access (nested n) s = .ok (e, r') :=
    h.trans (suffixes_stop n hsuffix)
  unfold Production.unary
  -- neither kind of prefix is found, and no operator behind the operand
  rw [bind_of_ok (lookFor_of_fails hplain.1)]
  dsimp only
  rw [bind_of_ok (lookFor_of_fails hplain.2)]
  dsimp only
  rw [bind_of_ok haccess, bind_of_ok (lookFor_of_fails hupdate)]
  rfl

/-- An operand that no operator follows, at every level. -/
theorem level_of_unary (h : Production.unary (nested n) s = .ok (e, r'))
    (hoperator : ∀ l, 4 ≤ l → firstInfix? (infixLevel l) r' = none) {l : Nat} (hl : 4 ≤ l)
    (hl' : l ≤ 14) : level n l s = .ok (e, r') := by
  obtain ⟨d, hd⟩ : ∃ d, l + d = 14 := ⟨14 - l, by omega⟩
  -- from the tightest level outwards: each one finds no operator of its own behind the operand
  induction d generalizing l with
  | zero =>
    obtain rfl : l = 14 := by omega
    exact h
  | succ d ih =>
    rw [level_apply hl (by omega), bind_of_ok (ih (l := l + 1) (by omega) (by omega) (by omega))]
    exact chainRest_stop n (hoperator l hl)

/-- A chain of the loosest level that no question mark follows is a conditional. -/
theorem conditional_of_level (h : level n 4 s = .ok (e, r')) (hchoice : Fails (symbol "?") r') :
    Production.conditional (nested n) s = .ok (e, r') := by
  have hchain : chain (nested n).bound (Production.unary (nested n)) 10 s = .ok (e, r') := h
  unfold Production.conditional
  rw [bind_of_ok hchain, bind_of_ok (lookFor_of_fails hchoice)]
  rfl

/-- A primary expression that stands alone. -/
theorem conditional_of_primary (hconstruct : Fails (Production.construct (nested n)) s)
    (hplain : Plain s) (h : Production.primary (nested n) s = .ok (e, r')) (hstop : Stops 3 r') :
    Production.conditional (nested n) s = .ok (e, r') := by
  have hoperand : operand n true s = Production.suffixes (nested n) true n e r' := by
    unfold operand
    rw [bind_of_ok ((orElse_of_fails hconstruct).trans h)]
  have hunary := unary_of_operand hplain hoperand (hstop.suffix (by decide))
    (hstop.update (by decide))
  exact conditional_of_level
    (level_of_unary hunary (fun l hl => hstop.operator l (by omega)) (by decide) (by decide))
    (hstop.choice (by decide))

/-- A text that begins with no operand is no expression. -/
theorem unary_fails (hconstruct : Fails (Production.construct (nested n)) s) (hplain : Plain s)
    (h : Fails (Production.primary (nested n)) s) : Fails (Production.unary (nested n)) s := by
  have haccess : Fails (Production.access (nested n)) s := (hconstruct.orElse h).bind _
  exact .of_ok (lookFor_of_fails hplain.1) (.of_ok (lookFor_of_fails hplain.2) (haccess.bind _))

/-- A text that begins with no operand is no conditional either. -/
theorem conditional_fails (hunary : Fails (Production.unary (nested n)) s) :
    Fails (Production.conditional (nested n)) s := by
  -- every level begins with the next tighter one, down to an operand with its prefixes
  have hlevel (d : Nat) (hd : d ≤ 10) : Fails (level n (14 - d)) s := by
    induction d with
    | zero => exact hunary
    | succ d ih =>
      rw [level_apply (by omega) (by omega)]
      have hnext : 14 - (d + 1) + 1 = 14 - d := by omega
      rw [hnext]
      exact (ih (by omega)).bind _
  exact (hlevel 10 (by decide)).bind _

/-- A level goes on from what the next tighter one reads. -/
theorem resumes_of_reads {l : Nat} (hl : 4 ≤ l) (hl' : l ≤ 13)
    (h : ReadsAs n (l + 1) (level n (l + 1)) t e) : ResumesLevel n l t e := by
  intro r r' hn hr hstop
  rw [level_apply hl hl', bind_of_ok (h r r' hn hr hstop)]

/-- Where nothing goes on, a level ends with what it went on from. -/
theorem reads_of_resumes {l : Nat} (h : ResumesLevel n l t e) :
    ReadsAs n l (level n l) t e := by
  intro r r' hn hr hstop
  rw [h r r' hn hr (hstop.mono (Nat.le_succ l)),
    chainRest_stop n (hstop.operator l (Nat.le_refl l))]

/-- Every level below one that resumes. -/
theorem resumes_below {k : Nat} (hk : k ≤ 13) (h : ResumesLevel n k t e) (l : Nat) (hl : 4 ≤ l)
    (hlk : l ≤ k) : ResumesLevel n l t e := by
  obtain ⟨d, rfl⟩ : ∃ d, k = l + d := ⟨k - l, by omega⟩
  clear hlk
  -- one level at a time, from the one that resumes to the looser ones
  induction d generalizing l with
  | zero => exact h
  | succ d ih =>
    have hnext : l + 1 + d = l + (d + 1) := by omega
    have h' : ResumesLevel n (l + 1 + d) t e := hnext ▸ h
    exact resumes_of_reads hl (by omega) (reads_of_resumes (ih (l + 1) (by omega) (by omega) h'))

end Descramble.Reader
