import Descramble.Proofs.Printer.Token
import Descramble.Script.Reader.Expression

/-!
# Where an expression ends

`Stops k s` says that nothing at the front of `s` goes on with an expression that binds as tightly
as `k`. The marks that the printer writes after an expression stop it: closing brackets everything,
an operator whatever binds more tightly than itself.

Main statements: `stops_closing`, `stops_operator`, `stops_assignment`.
-/

namespace Descramble.Reader

/-- Nothing that goes on with an expression of binding `k` comes next. -/
structure Stops (k : Nat) (s : List Char) : Prop where
  arrow : k ≤ 2 → Fails (symbol "=>") s
  comma : k ≤ 1 → Fails (symbol ",") s
  assignment : k ≤ 2 → Fails assignmentOperator s
  choice : k ≤ 3 → Fails (symbol "?") s
  operator : ∀ l, k ≤ l → firstInfix? (infixLevel l) s = none
  update : k ≤ 15 → Fails updateOperator s
  suffix : k ≤ 17 → ∀ c ∈ s.head?, c ≠ '.' ∧ c ≠ '[' ∧ c ≠ '('

/-- What stops an expression stops one that binds more tightly. -/
theorem Stops.mono {k k' : Nat} {s : List Char} (h : Stops k s) (hk : k ≤ k') : Stops k' s where
  arrow hk' := h.arrow (by omega)
  comma hk' := h.comma (by omega)
  assignment hk' := h.assignment (by omega)
  choice hk' := h.choice (by omega)
  operator l hl := h.operator l (by omega)
  update hk' := h.update (by omega)
  suffix hk' := h.suffix (by omega)

/-- The levels at which there are operators. -/
theorem firstInfix?_none {s : List Char} (k : Nat)
    (h : ∀ l, 4 ≤ l → l ≤ 13 → k ≤ l → firstInfix? (infixLevel l) s = none) (l : Nat)
    (hl : k ≤ l) : firstInfix? (infixLevel l) s = none := by
  by_cases hrange : 4 ≤ l ∧ l ≤ 13
  · exact h l hrange.1 hrange.2 hl
  -- no other level has an operator
  · have hempty : infixLevel l = [] := by
      unfold infixLevel
      split <;> first | rfl | omega
    rw [hempty]
    rfl

/-- The ten levels one by one. -/
theorem levels_cases {P : Nat → Prop} (h₄ : P 4) (h₅ : P 5) (h₆ : P 6) (h₇ : P 7) (h₈ : P 8)
    (h₉ : P 9) (h₁₀ : P 10) (h₁₁ : P 11) (h₁₂ : P 12) (h₁₃ : P 13) (l : Nat) (hl : 4 ≤ l)
    (hl' : l ≤ 13) : P l := by
  obtain rfl | rfl | rfl | rfl | rfl | rfl | rfl | rfl | rfl | rfl :
      l = 4 ∨ l = 5 ∨ l = 6 ∨ l = 7 ∨ l = 8 ∨ l = 9 ∨ l = 10 ∨ l = 11 ∨ l = 12 ∨ l = 13 := by
    omega
  all_goals assumption

/-- The end of the text stops every expression. -/
theorem stops_nil : Stops 0 [] where
  arrow _ := ⟨_, rfl⟩
  comma _ := ⟨_, rfl⟩
  assignment _ := ⟨_, rfl⟩
  choice _ := ⟨_, rfl⟩
  -- level by level, since each has its own operators to try
  operator := firstInfix?_none 0 fun l hl hl' _ =>
    levels_cases (P := fun l => firstInfix? (infixLevel l) [] = none) rfl rfl rfl rfl rfl rfl rfl
      rfl rfl rfl l hl hl'
  update _ := ⟨_, rfl⟩
  suffix _ _ h := by cases h

/-- The marks that nothing inside an expression begins with. -/
def closings : List Char :=
  [')', ']', '\x7d', ';', ':']

/-- A closing mark stops every expression. -/
theorem stops_closing {c : Char} (hc : c ∈ closings) (s : List Char) : Stops 0 (c :: s) := by
  simp only [closings, List.mem_cons, List.not_mem_nil, or_false] at hc
  -- each mark is compared with those that go on with an expression
  rcases hc with rfl | rfl | rfl | rfl | rfl
  all_goals
    exact {
      arrow := fun _ => ⟨_, rfl⟩
      comma := fun _ => ⟨_, rfl⟩
      assignment := fun _ => ⟨_, rfl⟩
      choice := fun _ => ⟨_, rfl⟩
      operator := firstInfix?_none 0 fun l hl hl' _ =>
        levels_cases (P := fun l => firstInfix? (infixLevel l) _ = none) rfl rfl rfl rfl rfl rfl
          rfl rfl rfl rfl l hl hl'
      update := fun _ => ⟨_, rfl⟩
      suffix := fun _ c hc => by cases hc; decide }

/-- A comma stops everything but a sequence. -/
theorem stops_comma (s : List Char) : Stops 2 (',' :: s) where
  arrow _ := ⟨_, rfl⟩
  comma hk := absurd hk (by decide)
  assignment _ := ⟨_, rfl⟩
  choice _ := ⟨_, rfl⟩
  operator := firstInfix?_none 2 fun l hl hl' _ =>
    levels_cases (P := fun l => firstInfix? (infixLevel l) _ = none) rfl rfl rfl rfl rfl rfl rfl
      rfl rfl rfl l hl hl'
  update _ := ⟨_, rfl⟩
  suffix _ c hc := by cases hc; decide

/-- A question mark stops whatever binds more tightly than a choice. -/
theorem stops_choice (s : List Char) : Stops 4 ('?' :: s) where
  arrow _ := ⟨_, rfl⟩
  comma hk := absurd hk (by decide)
  assignment hk := absurd hk (by decide)
  choice hk := absurd hk (by decide)
  operator := firstInfix?_none 4 fun l hl hl' _ =>
    levels_cases (P := fun l => firstInfix? (infixLevel l) _ = none) rfl rfl rfl rfl rfl rfl rfl
      rfl rfl rfl l hl hl'
  update _ := ⟨_, rfl⟩
  suffix _ c hc := by cases hc; decide

/-- The arrow of a function goes on with nothing but a list of parameters. -/
theorem stops_arrow (s : List Char) : Stops 3 ('=' :: '>' :: s) where
  arrow hk := absurd hk (by decide)
  comma hk := absurd hk (by decide)
  assignment hk := absurd hk (by decide)
  choice _ := ⟨_, rfl⟩
  operator := firstInfix?_none 3 fun l hl hl' _ =>
    levels_cases (P := fun l => firstInfix? (infixLevel l) _ = none) rfl rfl rfl rfl rfl rfl rfl
      rfl rfl rfl l hl hl'
  update _ := ⟨_, rfl⟩
  suffix _ c hc := by cases hc; decide

/-- An assignment operator with a blank after it. -/
theorem stops_assignment (op : Option Arithmetic) (s : List Char) :
    Stops 3 ((assignmentText op).toList ++ ' ' :: s) := by
  rcases op with _ | (_ | _ | _ | _ | _ | _ | _ | _ | _ | _ | _)
  all_goals
    exact {
      arrow := fun _ => ⟨_, rfl⟩
      comma := fun hk => absurd hk (by decide)
      assignment := fun hk => absurd hk (by decide)
      choice := fun _ => ⟨_, rfl⟩
      operator := firstInfix?_none 3 fun l hl hl' _ =>
        levels_cases (P := fun l => firstInfix? (infixLevel l) _ = none) rfl rfl rfl rfl rfl rfl
          rfl rfl rfl rfl l hl hl'
      update := fun _ => ⟨_, rfl⟩
      suffix := fun _ c hc => by cases hc; decide }

/-- An update operator after its operand. -/
theorem stops_update (op : UpdateOp) (s : List Char) : Stops 16 (op.text.toList ++ s) := by
  cases op
  all_goals
    exact {
      arrow := fun _ => ⟨_, rfl⟩
      comma := fun hk => absurd hk (by decide)
      assignment := fun hk => absurd hk (by decide)
      choice := fun hk => absurd hk (by decide)
      operator := firstInfix?_none 16 fun l _ hl' hl => by omega
      update := fun hk => absurd hk (by decide)
      suffix := fun _ c hc => by cases hc; decide }

/-- A mark of an access or a call. -/
theorem stops_suffix {c : Char} (hc : c = '.' ∨ c = '[' ∨ c = '(') (s : List Char) :
    Stops 18 (c :: s) := by
  rcases hc with rfl | rfl | rfl
  all_goals
    exact {
      arrow := fun _ => ⟨_, rfl⟩
      comma := fun hk => absurd hk (by decide)
      assignment := fun hk => absurd hk (by decide)
      choice := fun hk => absurd hk (by decide)
      operator := firstInfix?_none 18 fun l _ hl' hl => by omega
      update := fun hk => absurd hk (by decide)
      suffix := fun hk => absurd hk (by decide) }

/-- How tightly an operator between two operands binds. -/
def Infix.binding : Infix → Nat
  | .logical op => op.binding
  | .binary op => op.binding

/-- An operator between two operands, with a blank after it, stops the left one. -/
theorem stops_operator (op : Infix) (s : List Char) :
    Stops (op.binding + 1) (op.text.toList ++ ' ' :: s) := by
  rcases op with (_ | _) | ((_ | _ | _ | _ | _ | _ | _ | _ | _ | _ | _) |
    (_ | _ | _ | _ | _ | _ | _ | _) | _ | _)
  all_goals
    exact {
      arrow := fun _ => ⟨_, rfl⟩
      comma := fun hk => absurd hk (by decide)
      assignment := fun hk => absurd hk (by decide)
      choice := fun hk => absurd hk (by decide)
      operator := firstInfix?_none _ fun l hl hl' => by
        -- at looser levels there is nothing to show; at the others no operator has this front
        refine levels_cases (P := fun l => _ ≤ l → firstInfix? (infixLevel l) _ = none)
          ?_ ?_ ?_ ?_ ?_ ?_ ?_ ?_ ?_ ?_ l hl hl'
        all_goals first | exact fun _ => rfl | exact fun hk => absurd hk (by decide)
      update := fun _ => ⟨_, rfl⟩
      suffix := fun _ c hc => by cases hc; decide }

/-- A blank ends a word, and the gap goes on behind it. -/
theorem follows_blank {s s' : List Char} (h : skipGap s = .ok s') : Follows (' ' :: s) s' where
  gap := (skipGap_blank (by decide) s).trans h
  wordEnd c hc := by cases hc; decide

/-- The token of an operator is read with the blank after it. -/
theorem token_text (op : Infix) {s s' : List Char} (h : skipGap s = .ok s') :
    op.token (op.text.toList ++ ' ' :: s) = .ok ((), s') := by
  have hgap : skipGap (' ' :: s) = .ok s' := (skipGap_blank (by decide) s).trans h
  have hlonger {longer : List Char} (hblank : ' ' ∉ longer) :
      ∀ c ∈ (' ' :: s).head?, c ∉ longer := by
    intro c hc
    cases hc
    exact hblank
  rcases op with (_ | _) | ((_ | _ | _ | _ | _ | _ | _ | _ | _ | _ | _) |
    (_ | _ | _ | _ | _ | _ | _ | _) | _ | _)
  all_goals
    -- marks and words are read in two ways, but both end at the blank
    first
    | exact operator_text _ (hlonger (by decide)) hgap
    | exact keyword_text _ (follows_blank h)

/-- An operator that is not there is passed over. -/
theorem firstInfix?_skip {op : Infix} {ops : List Infix} {s : List Char} (h : Fails op.token s) :
    firstInfix? (op :: ops) s = firstInfix? ops s := by
  obtain ⟨place, h⟩ := h
  rw [firstInfix?, h]

/-- An operator that is there is taken. -/
theorem firstInfix?_take {op : Infix} {ops : List Infix} {s rest : List Char}
    (h : op.token s = .ok ((), rest)) : firstInfix? (op :: ops) s = some (op, rest) := by
  rw [firstInfix?, h]

/-- The operators of a level are tried in an order in which none hides a longer one. -/
theorem firstInfix?_text (op : Infix) {s s' : List Char} (h : skipGap s = .ok s') :
    firstInfix? (infixLevel op.binding) (op.text.toList ++ ' ' :: s) = some (op, s') := by
  -- the operators tried before it have other marks, or the blank shows that the mark ends here
  have htoken := token_text op h
  rcases op with (_ | _) | ((_ | _ | _ | _ | _ | _ | _ | _ | _ | _ | _) |
    (_ | _ | _ | _ | _ | _ | _ | _) | _ | _)
  all_goals
    repeat refine (firstInfix?_skip ⟨_, rfl⟩).trans ?_
    exact firstInfix?_take htoken

/-- An assignment operator is read with the blank after it. -/
theorem assignmentOperator_text (op : Option Arithmetic) {s s' : List Char}
    (h : skipGap s = .ok s') :
    assignmentOperator ((assignmentText op).toList ++ ' ' :: s) = .ok (op, s') := by
  have hgap : skipGap (' ' :: s) = .ok s' := (skipGap_blank (by decide) s).trans h
  have hplain : ∀ c ∈ (' ' :: s).head?, c ∉ ['=', '>'] := by
    intro c hc
    cases hc
    decide
  rcases op with _ | (_ | _ | _ | _ | _ | _ | _ | _ | _ | _ | _)
  all_goals
    -- the operators before it have other marks
    repeat refine (orElse_of_fails ((symbol_fails rfl).bind _)).trans ?_
    first
    | exact orElse_of_ok (bind_of_ok (symbol_text _ hgap))
    | exact bind_of_ok (operator_text _ hplain hgap)

/-- An update operator is read from its text. -/
theorem updateOperator_text (op : UpdateOp) {r r' : List Char} (h : skipGap r = .ok r') :
    updateOperator (op.text.toList ++ r) = .ok (op, r') := by
  cases op with
  | increment => exact orElse_of_ok (bind_of_ok (symbol_text _ h))
  | decrement =>
    exact (orElse_of_fails ((symbol_fails rfl).bind _)).trans (bind_of_ok (symbol_text _ h))

end Descramble.Reader
