import Descramble.Proofs.Reader.Basic
import Descramble.Proofs.Script.WellFormed
import Descramble.Script.Reader.Token

/-!
# Readers that cannot be told apart

The readers of a script count down, so that the same reader exists for every count. `Alike` relates
two readers that do the same with every text that is short enough, and says what they do: they leave
an end of the text, at least so many characters shorter, and what they read has a property. Their
errors are placed inside the text, too.

Main statements: `Alike.bind` and `Alike.many`, readers built alike from readers that are alike; the
bound of a repetition does not matter once it is at least the length of the text.
-/

namespace Descramble.Reader

variable {α β : Type} {L l : Nat} {P Q : α → Prop} {R : β → Prop} {p q : Reader α}

/-- On texts shorter than `L` two readers do the same: they leave an end of the text that is at
    least `l` characters shorter, what they read has the property `P`, and errors lie in the text. -/
structure Alike (L l : Nat) (P : α → Prop) (p q : Reader α) : Prop where
  same : ∀ s, s.length < L → p s = q s
  reads : ∀ s a rest, s.length < L → p s = .ok (a, rest) →
    rest <:+ s ∧ rest.length + l ≤ s.length ∧ P a
  fails : ∀ s e, s.length < L → p s = .error e → e.rest <:+ s

namespace Alike

/-- The same on fewer texts, with less consumed and a weaker property. -/
theorem weaken {L' l' : Nat} (h : Alike L l P p q) (hL : L' ≤ L) (hl : l' ≤ l)
    (hP : ∀ a, P a → Q a) : Alike L' l' Q p q where
  same s hs := h.same s (by omega)
  reads s a rest hs hp := by
    obtain ⟨hsuffix, hlen, ha⟩ := h.reads s a rest (by omega) hp
    exact ⟨hsuffix, by omega, hP a ha⟩
  fails s e hs hp := h.fails s e (by omega) hp

/-- Any property of what is read follows from the one shown. -/
theorem imp (h : Alike L l P p q) (hP : ∀ a, P a → Q a) : Alike L l Q p q :=
  h.weaken (Nat.le_refl _) (Nat.le_refl _) hP

/-- Readers that consume something consume. -/
theorem any (h : Alike L l P p q) : Alike L 0 P p q :=
  h.weaken (Nat.le_refl _) (Nat.zero_le _) fun _ => id

/-- The same on fewer texts. -/
theorem shorter {L' : Nat} (h : Alike L l P p q) (hL : L' ≤ L) : Alike L' l P p q :=
  h.weaken hL (Nat.le_refl _) fun _ => id

/-- A reader inside a production, where the texts are shorter and nothing need be consumed. -/
theorem within {L' : Nat} (h : Alike L l P p q) (hL : L' ≤ L) : Alike L' 0 P p q :=
  (h.shorter hL).any

/-- A reader that takes nothing. -/
theorem pure {a : α} (h : P a) : Alike L 0 P (pure a) (pure a) where
  same _ _ := rfl
  reads s b rest _ hp := by
    cases hp
    exact ⟨List.suffix_refl _, Nat.le_refl _, h⟩
  fails _ _ _ hp := by cases hp

/-- One reader after another, where the first is sure to shorten the text. -/
theorem bind {f g : α → Reader β} (hp : Alike L l P p q)
    (hf : ∀ a, P a → Alike (L - l) 0 R (f a) (g a)) : Alike L l R (p >>= f) (q >>= g) where
  same s hs := by
    rw [bind_apply, bind_apply, ← hp.same s hs]
    cases h : p s with
    | error e => rfl
    | ok r =>
      -- the second reader begins further on, where it need agree on shorter texts only
      obtain ⟨_, hlen, ha⟩ := hp.reads s r.1 r.2 hs h
      exact (hf r.1 ha).same r.2 (by omega)
  reads s b rest hs h := by
    obtain ⟨a, mid, ha, hb⟩ := bind_eq_ok h
    obtain ⟨hmid, hlen, hPa⟩ := hp.reads s a mid hs ha
    obtain ⟨hrest, hlen', hRb⟩ := (hf a hPa).reads mid b rest (by omega) hb
    exact ⟨hrest.trans hmid, by omega, hRb⟩
  fails s e hs h := by
    rw [bind_apply] at h
    cases hps : p s with
    | error e' =>
      rw [hps] at h
      cases h
      exact hp.fails s e hs hps
    | ok r =>
      rw [hps] at h
      obtain ⟨hmid, hlen, hPa⟩ := hp.reads s r.1 r.2 hs hps
      exact ((hf r.1 hPa).fails r.2 e (by omega) h).trans hmid

/-- One reader after another, where the second is sure to shorten the text. -/
theorem andThen {f g : α → Reader β} (hp : Alike L 0 P p q)
    (hf : ∀ a, P a → Alike L l R (f a) (g a)) : Alike L l R (p >>= f) (q >>= g) where
  same := (hp.bind fun a ha => (hf a ha).any).same
  reads s b rest hs h := by
    obtain ⟨a, mid, ha, hb⟩ := bind_eq_ok h
    obtain ⟨hmid, hlen, hPa⟩ := hp.reads s a mid hs ha
    obtain ⟨hrest, hlen', hRb⟩ := (hf a hPa).reads mid b rest (by omega) hb
    exact ⟨hrest.trans hmid, by omega, hRb⟩
  fails := (hp.bind fun a ha => (hf a ha).any).fails

/-- One reader, and another where it fails tentatively. -/
theorem orElse {p' q' : Reader α} (hp : Alike L l P p q) (hp' : Alike L l P p' q') :
    Alike L l P (p <|> p') (q <|> q') where
  same s hs := by
    rw [orElse_apply, orElse_apply, ← hp.same s hs, ← hp'.same s hs]
  reads s a rest hs h := by
    rcases orElse_eq_ok h with h | ⟨_, h⟩
    · exact hp.reads s a rest hs h
    · exact hp'.reads s a rest hs h
  fails s e hs h := by
    rw [orElse_apply] at h
    -- a final failure is that of the first reader, a tentative one that of the second
    cases hps : p s with
    | ok r => rw [hps] at h; cases h
    | error e' =>
      rw [hps] at h
      dsimp only at h
      split at h
      · cases h
        exact hp.fails s e hs hps
      · exact hp'.fails s e hs h

/-- What may be missing. -/
theorem optional (hp : Alike L l P p q) :
    Alike L 0 (fun o => ∀ a ∈ o, P a) (optional p) (optional q) where
  same s hs := by
    unfold Reader.optional
    rw [hp.same s hs]
  reads s o rest hs h := by
    rcases optional_eq_ok h with ⟨a, rfl, ha⟩ | ⟨rfl, rfl, _⟩
    · obtain ⟨hsuffix, hlen, hPa⟩ := hp.reads s a rest hs ha
      refine ⟨hsuffix, by omega, fun b hb => ?_⟩
      cases hb
      exact hPa
    · exact ⟨List.suffix_refl _, Nat.le_refl _, fun b hb => by cases hb⟩
  fails s e hs h := by
    unfold Reader.optional at h
    cases hps : p s with
    | ok r => rw [hps] at h; cases h
    | error e' =>
      rw [hps] at h
      dsimp only at h
      split at h
      · cases h
        exact hp.fails s e hs hps
      · cases h

/-- What is looked for, where every failure means that it is not there. -/
theorem lookFor (hp : Alike L l P p q) :
    Alike L 0 (fun o => ∀ a ∈ o, P a) (lookFor p) (lookFor q) where
  same s hs := by
    unfold Reader.lookFor
    rw [hp.same s hs]
  reads s o rest hs h := by
    rcases lookFor_eq_ok h with ⟨a, rfl, ha⟩ | ⟨rfl, rfl, _⟩
    · obtain ⟨hsuffix, hlen, hPa⟩ := hp.reads s a rest hs ha
      refine ⟨hsuffix, by omega, fun b hb => ?_⟩
      cases hb
      exact hPa
    · exact ⟨List.suffix_refl _, Nat.le_refl _, fun b hb => by cases hb⟩
  fails s e hs h := by
    unfold Reader.lookFor at h
    cases hps : p s <;> rw [hps] at h <;> cases h

/-- One way to go on with what was looked for, another without it. -/
theorem lookForThen {f g : Option α → Reader β} (hp : Alike L l P p q)
    (hsome : ∀ a, P a → Alike (L - l) 0 R (f (some a)) (g (some a)))
    (hnone : Alike L l R (f none) (g none)) :
    Alike L l R (Reader.lookFor p >>= f) (Reader.lookFor q >>= g) where
  same s hs := by
    rw [bind_apply, bind_apply, ← hp.lookFor.same s hs]
    cases h : Reader.lookFor p s with
    | error e => rfl
    | ok r =>
      obtain ⟨o, mid⟩ := r
      -- what was found shortens the text; what was not leaves it for the other way
      rcases lookFor_eq_ok h with ⟨a, rfl, ha⟩ | ⟨rfl, rfl, _⟩
      · obtain ⟨_, hlen, hPa⟩ := hp.reads s a mid hs ha
        exact (hsome a hPa).same mid (by omega)
      · exact hnone.same mid hs
  reads s b rest hs h := by
    obtain ⟨o, mid, ho, hrest⟩ := bind_eq_ok h
    rcases lookFor_eq_ok ho with ⟨a, rfl, ha⟩ | ⟨rfl, rfl, _⟩
    · obtain ⟨hmid, hlen, hPa⟩ := hp.reads s a mid hs ha
      obtain ⟨hsuffix, hlen', hb⟩ := (hsome a hPa).reads mid b rest (by omega) hrest
      exact ⟨hsuffix.trans hmid, by omega, hb⟩
    · exact hnone.reads mid b rest hs hrest
  fails s e hs h := by
    rw [bind_apply] at h
    cases hlook : Reader.lookFor p s with
    | error e' =>
      unfold Reader.lookFor at hlook
      cases hps : p s <;> rw [hps] at hlook <;> cases hlook
    | ok r =>
      obtain ⟨o, mid⟩ := r
      rw [hlook] at h
      rcases lookFor_eq_ok hlook with ⟨a, rfl, ha⟩ | ⟨rfl, rfl, _⟩
      · obtain ⟨hmid, hlen, hPa⟩ := hp.reads s a mid hs ha
        exact ((hsome a hPa).fails mid e (by omega) h).trans hmid
      · exact hnone.fails mid e hs h

/-- Repetitions with bounds at least as large as the text is long. -/
theorem many (hp : Alike L 1 P p q) {b b' : Nat} (hb : L ≤ b) (hb' : L ≤ b') :
    Alike L 0 (fun as => ∀ a ∈ as, P a) (many p b) (many q b') := by
  -- each repetition leaves a shorter text, so a bound as large as the text never runs out
  induction L generalizing b b' with
  | zero => exact ⟨fun _ h => by omega, fun _ _ _ h => by omega, fun _ _ h => by omega⟩
  | succ L ih =>
    obtain ⟨b, rfl⟩ : ∃ c, b = c + 1 := ⟨b - 1, by omega⟩
    obtain ⟨b', rfl⟩ : ∃ c, b' = c + 1 := ⟨b' - 1, by omega⟩
    have hrest : Alike L 0 (fun as => ∀ a ∈ as, P a) (Reader.many p b) (Reader.many q b') :=
      ih (hp.shorter (Nat.le_succ L)) (by omega) (by omega)
    constructor
    case same =>
      intro s hs
      unfold Reader.many
      rw [← hp.same s hs]
      cases h : p s with
      | error e => rfl
      | ok r =>
        obtain ⟨_, hlen, _⟩ := hp.reads s r.1 r.2 hs h
        -- what is left after one repetition is shorter, so the induction hypothesis has it
        dsimp only
        rw [hrest.same r.2 (by omega)]
    case reads =>
      intro s as rest hs h
      rcases many_succ_eq_ok h with ⟨rfl, rfl, _⟩ | ⟨a, others, mid, rfl, ha, hothers⟩
      · exact ⟨List.suffix_refl _, Nat.le_refl _, fun b hb => by cases hb⟩
      · obtain ⟨hmid, hlen, hPa⟩ := hp.reads s a mid hs ha
        obtain ⟨hsuffix, hlen', hPothers⟩ := hrest.reads mid others rest (by omega) hothers
        refine ⟨hsuffix.trans hmid, by omega, fun b hb => ?_⟩
        rcases List.mem_cons.mp hb with rfl | hb
        · exact hPa
        · exact hPothers b hb
    case fails =>
      intro s e hs h
      unfold Reader.many at h
      cases hps : p s with
      | ok r =>
        rw [hps] at h
        dsimp only at h
        obtain ⟨hmid, hlen, _⟩ := hp.reads s r.1 r.2 hs hps
        cases hmany : Reader.many p b r.2 with
        | ok r' => rw [hmany] at h; cases h
        | error e' =>
          rw [hmany] at h
          cases h
          exact (hrest.fails r.2 e (by omega) hmany).trans hmid
      | error e' =>
        rw [hps] at h
        dsimp only at h
        split at h
        · cases h
          exact hp.fails s e hs hps
        · cases h

variable {separator : Reader Unit} {b b' : Nat}

/-- Repetitions with a separator before each. -/
theorem manyAfter (hsep : Alike L 1 (fun _ => True) separator separator) (hp : Alike L l P p q)
    (hb : L ≤ b) (hb' : L ≤ b') :
    Alike L 0 (fun as => ∀ a ∈ as, P a) (manyAfter separator p b) (manyAfter separator q b') :=
  (hsep.bind fun _ _ => (hp.within (Nat.sub_le _ _))).many hb hb'

/-- At least one item; the bounds count the others. -/
theorem sepBy1 (hsep : Alike L 1 (fun _ => True) separator separator) (hp : Alike L 1 P p q)
    (hb : L ≤ b + 1) (hb' : L ≤ b' + 1) :
    Alike L 1 (fun as => as ≠ [] ∧ ∀ a ∈ as, P a) (sepBy1 separator p b)
      (sepBy1 separator q b') := by
  refine hp.bind fun a ha => ?_
  refine (manyAfter (hsep.shorter (Nat.sub_le _ _)) (hp.shorter (Nat.sub_le _ _)) (by omega)
    (by omega)).andThen fun as has => ?_
  refine Alike.pure ⟨List.cons_ne_nil _ _, fun c hc => ?_⟩
  rcases List.mem_cons.mp hc with rfl | hc
  · exact ha
  · exact has c hc

/-- A list that may be empty. -/
theorem sepBy (hsep : Alike L 1 (fun _ => True) separator separator) (hp : Alike L l P p q)
    (hb : L ≤ b) (hb' : L ≤ b') :
    Alike L 0 (fun as => ∀ a ∈ as, P a) (sepBy separator p b) (sepBy separator q b') := by
  refine hp.optional.andThen fun o ho => ?_
  -- without a first item there are no others
  cases o with
  | none => exact Alike.pure fun c hc => by cases hc
  | some a =>
    refine (manyAfter hsep hp hb hb').andThen fun as has => ?_
    refine Alike.pure fun c hc => ?_
    rcases List.mem_cons.mp hc with rfl | hc
    · exact ho c rfl
    · exact has c hc

/-- A property that what is read has because of the text it is read from. -/
theorem strengthen (hp : Alike L l P p q)
    (hQ : ∀ s a rest, s.length < L → p s = .ok (a, rest) → P a → Q a) : Alike L l Q p q where
  same := hp.same
  reads s a rest hs h := by
    obtain ⟨hsuffix, hlen, ha⟩ := hp.reads s a rest hs h
    exact ⟨hsuffix, hlen, hQ s a rest hs h ha⟩
  fails := hp.fails

/-- A choice that looks at the text alone. -/
theorem ite {p' q' : Reader α} (c : List Char → Bool) (hp : Alike L l P p q)
    (hp' : Alike L l P p' q') :
    Alike L l P (fun s => if c s then p s else p' s) (fun s => if c s then q s else q' s) where
  same s hs := by rw [hp.same s hs, hp'.same s hs]
  reads s a rest hs h := by
    split at h
    · exact hp.reads s a rest hs h
    · exact hp'.reads s a rest hs h
  fails s e hs h := by
    split at h
    · exact hp.fails s e hs h
    · exact hp'.fails s e hs h

/-- Steps until there is none, where each step shortens the text. -/
theorem loop {step step' : α → Reader (Option α)} {a : α} {b b' : Nat}
    (hstep : ∀ a, P a → Alike L 0 (fun o => ∀ b ∈ o, P b) (step a) (step' a))
    (hshorter : ∀ a s b rest, P a → s.length < L → step a s = .ok (some b, rest) →
      rest.length < s.length)
    (ha : P a) (hb : L ≤ b) (hb' : L ≤ b') : Alike L 0 P (loop step b a) (loop step' b' a) := by
  -- the induction is on the length of the text, as the bounds only have to reach that far
  induction L generalizing a b b' with
  | zero => exact ⟨fun _ h => by omega, fun _ _ _ h => by omega, fun _ _ h => by omega⟩
  | succ L ih =>
    obtain ⟨b, rfl⟩ : ∃ c, b = c + 1 := ⟨b - 1, by omega⟩
    obtain ⟨b', rfl⟩ : ∃ c, b' = c + 1 := ⟨b' - 1, by omega⟩
    have hrest (c : α) (hc : P c) : Alike L 0 P (Reader.loop step b c) (Reader.loop step' b' c) :=
      ih (fun a ha => (hstep a ha).shorter (Nat.le_succ L))
        (fun a s b rest ha hs => hshorter a s b rest ha (by omega)) hc (by omega) (by omega)
    constructor
    case same =>
      intro s hs
      unfold Reader.loop
      rw [bind_apply, bind_apply, ← (hstep a ha).same s hs]
      cases h : step a s with
      | error e => rfl
      | ok r =>
        obtain ⟨o, mid⟩ := r
        obtain ⟨_, _, ho⟩ := (hstep a ha).reads s o mid hs h
        cases o with
        | none => rfl
        | some c =>
          -- a step that finds something shortens the text, so one of the bound is enough for it
          have := hshorter a s c mid ha hs h
          exact (hrest c (ho c rfl)).same mid (by omega)
    case reads =>
      intro s c rest hs h
      rcases loop_succ_eq_ok h with ⟨rfl, hnone⟩ | ⟨next, mid, hsome, hloop⟩
      · obtain ⟨hsuffix, hlen, _⟩ := (hstep c ha).reads s none rest hs hnone
        exact ⟨hsuffix, hlen, ha⟩
      · have := hshorter a s next mid ha hs hsome
        -- what is left is an end of what was left after the step
        obtain ⟨hmid, _, hnext⟩ := (hstep a ha).reads s (some next) mid hs hsome
        obtain ⟨hsuffix, hlen, hc⟩ := (hrest next (hnext next rfl)).reads mid c rest (by omega) hloop
        exact ⟨hsuffix.trans hmid, by omega, hc⟩
    case fails =>
      intro s e hs h
      unfold Reader.loop at h
      rw [bind_apply] at h
      cases hs' : step a s with
      | error e' =>
        rw [hs'] at h
        cases h
        exact (hstep a ha).fails s e hs hs'
      | ok r =>
        obtain ⟨o, mid⟩ := r
        rw [hs'] at h
        obtain ⟨hmid, _, ho⟩ := (hstep a ha).reads s o mid hs hs'
        cases o with
        | none => cases h
        | some c =>
          have := hshorter a s c mid ha hs hs'
          exact ((hrest c (ho c rfl)).fails mid e (by omega) h).trans hmid

end Alike

/-- Taking every failure of a reader at some texts for tentative does not make it fail finally. -/
theorem Alike.fails_iff (h : Alike L l P p q) {s : List Char} (hs : s.length < L) :
    Fails p s ↔ Fails q s := by
  unfold Fails
  rw [h.same s hs]

end Descramble.Reader
