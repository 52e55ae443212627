import Descramble.Script.Reader.Basic

/-!
# How readers compose

What the combinators do with a text, given what their parts do with it. A reader `Fails` at a text
when it fails there tentatively, so that alternatives are tried.
-/

namespace Descramble.Reader

-- A claim about the characters of a text is decided along the text, never over all characters.
instance (priority := 2000) decidableListed (P : Char → Prop) [DecidablePred P] (s : List Char) :
    Decidable (∀ c ∈ s, P c) :=
  List.decidableBAll P s

instance (priority := 2000) decidableHeld (P : Char → Prop) [DecidablePred P] :
    (s : Option Char) → Decidable (∀ c ∈ s, P c)
  | none => .isTrue fun _ h => by cases h
  | some c => decidable_of_iff (P c)
      ⟨fun h _ hd => Option.mem_some.mp hd ▸ h, fun h => h c rfl⟩

variable {α β : Type} {p q : Reader α} {f : α → Reader β} {s rest : List Char} {a : α}

/-- The reader fails and leaves room for alternatives. -/
def Fails (p : Reader α) (s : List Char) : Prop :=
  ∃ place, p s = .error ⟨place, false⟩

/-- A sequence goes on where its first reader stopped. -/
theorem bind_of_ok (h : p s = .ok (a, rest)) : (p >>= f) s = f a rest := by
  rw [bind_apply, h]

/-- A sequence fails as its first reader does, finally or not. -/
theorem bind_of_error {e : ReadError} (h : p s = .error e) : (p >>= f) s = .error e := by
  rw [bind_apply, h]

/-- Failing is about what a reader does with a text, not about how it is written. -/
theorem Fails.of_eq (heq : p s = q s) (h : Fails q s) : Fails p s := by
  obtain ⟨place, h⟩ := h
  exact ⟨place, heq.trans h⟩

/-- A sequence fails where its first reader does. -/
theorem Fails.bind (h : Fails p s) (f : α → Reader β) : Fails (p >>= f) s := by
  obtain ⟨place, h⟩ := h
  exact ⟨place, bind_of_error h⟩

/-- A sequence that fails after its first reader. -/
theorem Fails.of_ok (h : p s = .ok (a, rest)) (hf : Fails (f a) rest) : Fails (p >>= f) s := by
  obtain ⟨place, hf⟩ := hf
  exact ⟨place, by rw [bind_of_ok h, hf]⟩

/-- A sequence that has read a text has read it part by part. -/
theorem bind_eq_ok {b : β} (h : (p >>= f) s = .ok (b, rest)) :
    ∃ a mid, p s = .ok (a, mid) ∧ f a mid = .ok (b, rest) := by
  rw [bind_apply] at h
  -- the first reader cannot have failed
  cases hp : p s with
  | error e => rw [hp] at h; cases h
  | ok r => rw [hp] at h; exact ⟨r.1, r.2, rfl, h⟩

/-! ## What a reader gives -/

/-- Everything the reader reads has a property. -/
def Gives (P : α → Prop) (p : Reader α) : Prop :=
  ∀ s a rest, p s = .ok (a, rest) → P a

/-- What is read from no text is the value given. -/
theorem Gives.pure {P : α → Prop} (h : P a) : Gives P (pure a) := by
  intro s b rest hb
  cases hb
  exact h

/-- Of a sequence, only what its last reader gives counts. -/
theorem Gives.bind {P : β → Prop} (h : ∀ a, Gives P (f a)) : Gives P (p >>= f) := by
  intro s b rest hb
  -- the first reader only decides where the next one begins
  obtain ⟨a, mid, _, hb⟩ := bind_eq_ok hb
  exact h a mid b rest hb

/-! ## Alternatives -/

/-- The second reader is tried only where the first has failed tentatively. -/
theorem orElse_apply (p q : Reader α) (s : List Char) :
    (p <|> q) s =
      match p s with
      | .ok r => .ok r
      | .error e => if e.isFinal then .error e else q s :=
  rfl

/-- An alternative reads what its first reader reads. -/
theorem orElse_of_ok (h : p s = .ok (a, rest)) : (p <|> q) s = .ok (a, rest) := by
  rw [orElse_apply, h]

/-- Where the first reader fails, all is up to the second. -/
theorem orElse_of_fails (h : Fails p s) : (p <|> q) s = q s := by
  obtain ⟨place, h⟩ := h
  rw [orElse_apply, h]
  rfl

/-- An alternative fails where both its readers do. -/
theorem Fails.orElse (hp : Fails p s) (hq : Fails q s) : Fails (p <|> q) s := by
  obtain ⟨place, hq⟩ := hq
  exact ⟨place, by rw [orElse_of_fails hp, hq]⟩

/-- An alternative that has read a text has read it with one of its readers. -/
theorem orElse_eq_ok (h : (p <|> q) s = .ok (a, rest)) :
    p s = .ok (a, rest) ∨ Fails p s ∧ q s = .ok (a, rest) := by
  rw [orElse_apply] at h
  cases hp : p s with
  | ok r => rw [hp] at h; exact .inl h
  | error e =>
    obtain ⟨place, isFinal⟩ := e
    rw [hp] at h
    -- a final error is not followed by the second reader
    cases isFinal with
    | true => cases h
    | false => exact .inr ⟨⟨place, hp⟩, h⟩

/-! ## Parts that may be missing -/

/-- What may be missing is read where it is there. -/
theorem optional_of_ok (h : p s = .ok (a, rest)) : optional p s = .ok (some a, rest) := by
  unfold optional
  rw [h]

/-- What may be missing takes nothing where its reader fails. -/
theorem optional_of_fails (h : Fails p s) : optional p s = .ok (none, s) := by
  obtain ⟨place, h⟩ := h
  unfold optional
  rw [h]
  rfl

/-- What may be missing was either read, or its reader fails and nothing is taken. -/
theorem optional_eq_ok {o : Option α} (h : optional p s = .ok (o, rest)) :
    (∃ a, o = some a ∧ p s = .ok (a, rest)) ∨ o = none ∧ rest = s ∧ Fails p s := by
  unfold optional at h
  cases hp : p s with
  | ok r =>
    rw [hp] at h
    cases h
    exact .inl ⟨_, rfl, rfl⟩
  | error e =>
    obtain ⟨place, isFinal⟩ := e
    rw [hp] at h
    -- a final error is passed on
    cases isFinal with
    | true => cases h
    | false =>
      cases h
      exact .inr ⟨rfl, rfl, place, hp⟩

/-- What is looked for is read where it is there. -/
theorem lookFor_of_ok (h : p s = .ok (a, rest)) : lookFor p s = .ok (some a, rest) := by
  unfold lookFor
  rw [h]

/-- What is looked for may end in any error, which counts as its not being there. -/
theorem lookFor_of_error {e : ReadError} (h : p s = .error e) : lookFor p s = .ok (none, s) := by
  unfold lookFor
  rw [h]

/-- The same where the reader leaves room for alternatives. -/
theorem lookFor_of_fails (h : Fails p s) : lookFor p s = .ok (none, s) := by
  obtain ⟨place, h⟩ := h
  exact lookFor_of_error h

/-- What is looked for was either read, or its reader ends in an error and nothing is taken. -/
theorem lookFor_eq_ok {o : Option α} (h : lookFor p s = .ok (o, rest)) :
    (∃ a, o = some a ∧ p s = .ok (a, rest)) ∨
      o = none ∧ rest = s ∧ ∃ e, p s = .error e := by
  unfold lookFor at h
  -- either way it succeeds, with what was read or without
  cases hp : p s with
  | ok r =>
    rw [hp] at h
    cases h
    exact .inl ⟨_, rfl, rfl⟩
  | error e =>
    rw [hp] at h
    cases h
    exact .inr ⟨rfl, rfl, e, rfl⟩

/-! ## Repetition -/

/-- A repetition ends where its reader fails, whatever the bound. -/
theorem many_of_fails (h : Fails p s) (bound : Nat) : many p bound s = .ok ([], s) := by
  obtain ⟨place, h⟩ := h
  -- with no turn left, and with some
  cases bound with
  | zero => rfl
  | succ bound =>
    unfold many
    rw [h]
    rfl

/-- A repetition that reads once more needs one more turn. -/
theorem many_of_ok {as : List α} {mid : List Char} {bound : Nat} (h : p s = .ok (a, mid))
    (hmany : many p bound mid = .ok (as, rest)) :
    many p (bound + 1) s = .ok (a :: as, rest) := by
  unfold many
  rw [h]
  dsimp only
  rw [hmany]

/-- A repetition with turns left has ended because its reader fails, or has read and gone on. -/
theorem many_succ_eq_ok {as : List α} {bound : Nat} (h : many p (bound + 1) s = .ok (as, rest)) :
    (as = [] ∧ rest = s ∧ Fails p s) ∨
      ∃ a others mid, as = a :: others ∧ p s = .ok (a, mid) ∧
        many p bound mid = .ok (others, rest) := by
  unfold many at h
  -- the first turn reads an item or fails
  cases hp : p s with
  | ok r =>
    rw [hp] at h
    dsimp only at h
    -- what comes after the first item cannot have failed
    cases hmany : many p bound r.2 with
    | error e => rw [hmany] at h; cases h
    | ok r' =>
      rw [hmany] at h
      cases h
      exact .inr ⟨_, _, _, rfl, rfl, hmany⟩
  | error e =>
    obtain ⟨place, isFinal⟩ := e
    rw [hp] at h
    cases isFinal with
    | true => cases h
    | false =>
      cases h
      exact .inl ⟨rfl, rfl, place, hp⟩

variable {separator : Reader Unit} {bound : Nat}

/-- A list with at least one item is its first item and what comes after separators. -/
theorem sepBy1_of_ok {as : List α} {mid : List Char} (h : p s = .ok (a, mid))
    (hmany : manyAfter separator p bound mid = .ok (as, rest)) :
    sepBy1 separator p bound s = .ok (a :: as, rest) := by
  unfold sepBy1
  rw [bind_of_ok h, bind_of_ok hmany]
  rfl

/-- The same for a list that could have been empty. -/
theorem sepBy_of_ok {as : List α} {mid : List Char} (h : p s = .ok (a, mid))
    (hmany : manyAfter separator p bound mid = .ok (as, rest)) :
    sepBy separator p bound s = .ok (a :: as, rest) := by
  unfold sepBy
  rw [bind_of_ok (optional_of_ok h)]
  dsimp only
  rw [bind_of_ok hmany]
  rfl

/-- A list is empty where its items cannot begin. -/
theorem sepBy_of_fails (h : Fails p s) : sepBy separator p bound s = .ok ([], s) := by
  unfold sepBy
  rw [bind_of_ok (optional_of_fails h)]
  rfl

/-- A list is empty because its items cannot begin, or is its first item and what comes after. -/
theorem sepBy_eq_ok {as : List α} (h : sepBy separator p bound s = .ok (as, rest)) :
    (as = [] ∧ rest = s ∧ Fails p s) ∨
      ∃ a others mid, as = a :: others ∧ p s = .ok (a, mid) ∧
        manyAfter separator p bound mid = .ok (others, rest) := by
  unfold sepBy at h
  obtain ⟨o, mid, ho, hrest⟩ := bind_eq_ok h
  -- the first item is there or not
  rcases optional_eq_ok ho with ⟨a, rfl, hp⟩ | ⟨rfl, rfl, hp⟩
  · obtain ⟨others, mid', hmany, hpure⟩ := bind_eq_ok hrest
    cases hpure
    exact .inr ⟨_, _, _, rfl, hp, hmany⟩
  · cases hrest
    exact .inl ⟨rfl, rfl, hp⟩

/-! ## Steps until there is none -/

/-- Takes steps from a value as long as there is a next one, at most `bound` times. -/
def loop (step : α → Reader (Option α)) : Nat → α → Reader α
  | 0, a => Reader.pure a
  | bound + 1, a => do
    match ← step a with
    | some a => loop step bound a
    | none => return a

variable {step : α → Reader (Option α)} {b : α} {mid : List Char}

/-- A step that gives a value is followed by the next step. -/
theorem loop_of_some (h : step a s = .ok (some b, mid)) :
    loop step (bound + 1) a s = loop step bound b mid :=
  bind_of_ok h

/-- A step that gives none ends the loop, whatever the bound. -/
theorem loop_of_none (h : step a s = .ok (none, s)) : loop step bound a s = .ok (a, s) := by
  cases bound with
  | zero => rfl
  | succ bound => exact bind_of_ok h

/-- A loop with turns left has ended because there is no next step, or has taken one and gone on. -/
theorem loop_succ_eq_ok (h : loop step (bound + 1) a s = .ok (b, rest)) :
    (b = a ∧ step a s = .ok (none, rest)) ∨
      ∃ next mid, step a s = .ok (some next, mid) ∧ loop step bound next mid = .ok (b, rest) := by
  unfold loop at h
  obtain ⟨o, mid, ho, hrest⟩ := bind_eq_ok h
  -- the step gives a value to go on from, or none
  cases o with
  | some next => exact .inr ⟨next, mid, ho, hrest⟩
  | none =>
    cases hrest
    exact .inl ⟨rfl, ho⟩

end Descramble.Reader
