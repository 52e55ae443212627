import Descramble.Evaluation.Run
import Mathlib.Logic.Relation

/-!
# What a step comes to

The machine keeps what waits on a stack. `Step.Ends` says without a stack what a step comes to: a
call is the run of what is called, one level deeper, and a loop is its turns one after the other.
The level goes up where a call starts and down where it ends. A call beyond the last level comes to
a fault at once. What waits for a call or a loop is given what that comes to, a value or a fault, and
goes on from there.

Main statements: `Step.Ends.depth_eq`, the level is the same afterwards; `Step.Ends.reaches` and
`Machine.exists_ends`, the machine gets to what a step comes to and to nothing else; and
`Machine.endsIn_start_iff`, both together for a whole run.
-/

namespace Descramble

/-- What a step comes to, from one level and store to another. -/
inductive Step.Ends :
    {α : Type} → Nat → Step α → Except Fault α → Store → Nat → Prop where
  | done {α : Type} {d : Nat} {r : Except Fault α} {s : Store} : Ends d (.done r s) r s d
  | refused {α : Type} {d d' : Nat} {f : Callable} {this : Value} {args : List Value} {s s' : Store}
      {k : Except Fault Completion → Store → Step α} {r : Except Fault α} (hd : maxDepth ≤ d)
      (hrest : Ends d (k (.error (.fatal .tooDeep)) s) r s' d') :
      Ends d (.ask (.call f this args) s k) r s' d'
  | call {α : Type} {d d' d'' : Nat} {f : Callable} {this : Value} {args : List Value}
      {s s' s'' : Store} {k : Except Fault Completion → Store → Step α}
      {a : Except Fault Completion} {r : Except Fault α} (hd : d < maxDepth)
      (hcall : Ends (d + 1) (Action.enter f this args s) a s' d')
      (hrest : Ends (d' - 1) (k a s') r s'' d'') :
      Ends d (.ask (.call f this args) s k) r s'' d''
  | again {α : Type} {d d' d'' : Nat} {l : Loop} {s s' s'' : Store}
      {k : Except Fault Completion → Store → Step α} {r : Except Fault α}
      (hturn : Ends d (Action.turn l s) (.ok .continued) s' d')
      (hrest : Ends d' (.ask (.loop l) s' k) r s'' d'') : Ends d (.ask (.loop l) s k) r s'' d''
  | last {α : Type} {d d' d'' : Nat} {l : Loop} {s s' s'' : Store}
      {k : Except Fault Completion → Store → Step α} {a : Except Fault Completion}
      {r : Except Fault α} (hturn : Ends d (Action.turn l s) a s' d') (ha : a ≠ .ok .continued)
      (hrest : Ends d' (k a s') r s'' d'') : Ends d (.ask (.loop l) s k) r s'' d''

namespace Step.Ends

/-- Whatever a step comes to, the level is the same afterwards. -/
theorem depth_eq {α : Type} {d d' : Nat} {x : Step α} {r : Except Fault α} {s : Store}
    (h : Ends d x r s d') : d' = d := by
  induction h with
  | done => rfl
  | refused _ _ ih => exact ih
  -- a call ends one level deeper than what waits for it goes on
  | call _ _ _ ihcall ihrest => omega
  | again _ _ ihturn ihrest => omega
  | last _ _ _ ihturn ihrest => omega

section

variable {α β : Type} {d d'' : Nat} {f : Except Fault α → Store → Step β}
  {r : Except Fault β} {s'' : Store}

/-- Where a step is done, what is done after it starts at once. So only steps that ask are left. -/
private theorem split_of_ask {x : Step α} (h : Ends d (x.followedBy f) r s'' d'')
    (hask : ∀ {req s k}, (Step.ask req s k).followedBy f = x.followedBy f →
      ∃ a s' d', Ends d (.ask req s k) a s' d' ∧ Ends d' (f a s') r s'' d'') :
    ∃ a s' d', Ends d x a s' d' ∧ Ends d' (f a s') r s'' d'' := by
  cases x with
  | done a s => exact ⟨a, s, d, .done, h⟩
  | ask req s k => exact hask rfl

/-- What comes after the answer to a request comes after what the step asking comes to. -/
private theorem of_ask_followedBy {y : Step β} {req : Request} {s : Store}
    {k : Except Fault Completion → Store → Step α} (h : Ends d y r s'' d'')
    (hy : (Step.ask req s k).followedBy f = y) :
    ∃ a s' d', Ends d (.ask req s k) a s' d' ∧ Ends d' (f a s') r s'' d'' := by
  -- the induction is on the derivation: a loop asks again, with the same to do after it
  induction h generalizing req s k with
  | done => cases hy
  | refused hd hrest ih =>
    cases hy
    obtain ⟨a, s', d', hx, hf⟩ := split_of_ask hrest ih
    exact ⟨a, s', d', .refused hd hx, hf⟩
  | call hd hcall hrest _ ihrest =>
    cases hy
    obtain ⟨a, s', d', hx, hf⟩ := split_of_ask hrest ihrest
    exact ⟨a, s', d', .call hd hcall hx, hf⟩
  | again hturn _ _ ihrest =>
    cases hy
    obtain ⟨a, s', d', hx, hf⟩ := ihrest rfl
    exact ⟨a, s', d', .again hturn hx, hf⟩
  | last hturn ha hrest _ ihrest =>
    cases hy
    obtain ⟨a, s', d', hx, hf⟩ := split_of_ask hrest ihrest
    exact ⟨a, s', d', .last hturn ha hx, hf⟩

/-- A step comes to its result, and what is done after it to what that comes to. -/
theorem followedBy {d' : Nat} {x : Step α} {a : Except Fault α} {s' : Store}
    (hx : Ends d x a s' d') (hf : Ends d' (f a s') r s'' d'') :
    Ends d (x.followedBy f) r s'' d'' := by
  -- the requests of the step come first, each with its answer; then its result is handed on
  induction hx with
  | done => exact hf
  | refused hd _ ih => exact .refused hd (ih hf)
  | call hd hcall _ _ ih => exact .call hd hcall (ih hf)
  | again hturn _ _ ih => exact .again hturn (ih hf)
  | last hturn ha _ _ ih => exact .last hturn ha (ih hf)

/-- A step with more to do after it comes to what is done after its result. -/
theorem followedBy_iff {x : Step α} : Ends d (x.followedBy f) r s'' d'' ↔
    ∃ a s' d', Ends d x a s' d' ∧ Ends d' (f a s') r s'' d'' := by
  constructor
  · exact fun h => split_of_ask h (of_ask_followedBy h)
  · rintro ⟨a, s', d', hx, hf⟩
    exact hx.followedBy hf

end

end Step.Ends

/-! ## What a machine comes to -/

namespace Machine

/-- One machine gets to another. -/
def Reaches : Machine → Machine → Prop :=
  Relation.ReflTransGen fun m m' => m.next = .inr m'

/-- A machine comes to an outcome, after however many steps. -/
def EndsIn (m : Machine) (outcome : Outcome) : Prop :=
  ∃ bound, m.run bound = some outcome

variable {m m' : Machine} {outcome : Outcome} {pending : List Pending} {d bound : Nat}
  {f : Callable} {this : Value} {args : List Value} {l : Loop} {a : Except Fault Completion}
  {s : Store} {k : Except Fault Completion → Store → Step Completion}

/-! ### Single steps -/

/-- Below the last level a call is entered, and whoever asked for it waits. -/
theorem next_call (hd : d < maxDepth) :
    next ⟨pending, d, .ask (.call f this args) s k⟩ =
      .inr ⟨.call k :: pending, d + 1, Action.enter f this args s⟩ :=
  if_pos hd

/-- At the last level it is answered with a fault at once. -/
theorem next_call_refused (hd : maxDepth ≤ d) :
    next ⟨pending, d, .ask (.call f this args) s k⟩ =
      .inr ⟨pending, d, k (.error (.fatal .tooDeep)) s⟩ :=
  if_neg (Nat.not_lt.mpr hd)

/-- Where a turn ends in anything but `continued`, what waits for the loop goes on. -/
theorem next_loop_last (ha : a ≠ .ok .continued) :
    next ⟨.loop l k :: pending, d, .done a s⟩ = .inr ⟨pending, d, k a s⟩ := by
  rcases a with v | (_ | _ | _ | _)
  case ok.continued => exact absurd rfl ha
  all_goals rfl

/-! ### Runs and steps -/

/-- A run goes on with the machine that a step leads to. -/
theorem run_succ_of_next (h : m.next = .inr m') : m.run (bound + 1) = m'.run bound := by
  simp only [run, h]

/-- A run has the outcome of a step that is the last one. -/
theorem run_succ_of_last (h : m.next = .inl outcome) : m.run (bound + 1) = some outcome := by
  simp only [run, h]

/-- Some number of steps takes a machine to any machine that it gets to. -/
theorem Reaches.exists_steps (h : m.Reaches m') :
    ∃ steps, ∀ bound, m.run (steps + bound) = m'.run bound := by
  -- from the end of the way back to its start, one step more each time
  induction h using Relation.ReflTransGen.head_induction_on with
  | refl => exact ⟨0, fun bound => by rw [Nat.zero_add]⟩
  | head hnext _ ih =>
    obtain ⟨steps, hrun⟩ := ih
    refine ⟨steps + 1, fun bound => ?_⟩
    rw [Nat.add_right_comm, run_succ_of_next hnext, hrun]

/-- A machine that gets to its last step has the outcome of that within any larger bound. -/
theorem Reaches.exists_run (h : m.Reaches m') (hlast : m'.next = .inl outcome) :
    ∃ steps, ∀ bound, m.run (steps + bound) = some outcome := by
  obtain ⟨steps, hrun⟩ := h.exists_steps
  refine ⟨steps + 1, fun bound => ?_⟩
  rw [Nat.add_assoc, Nat.add_comm 1, hrun, run_succ_of_last hlast]

/-- What gets to its last step comes to the outcome of that. -/
theorem Reaches.endsIn (h : m.Reaches m') (hlast : m'.next = .inl outcome) :
    m.EndsIn outcome := by
  obtain ⟨steps, hrun⟩ := h.exists_run hlast
  exact ⟨steps + 0, hrun 0⟩

/-- What has an outcome gets to a machine whose step is the last one. -/
theorem exists_last_of_run (h : m.run bound = some outcome) :
    ∃ last, m.Reaches last ∧ last.next = .inl outcome := by
  induction bound generalizing m with
  | zero => cases h
  | succ bound ih =>
    -- the step is the last one, or one less is left of the bound
    cases hnext : m.next with
    | inl _ =>
      rw [run_succ_of_last hnext] at h
      cases h
      exact ⟨m, .refl, hnext⟩
    | inr m₁ =>
      rw [run_succ_of_next hnext] at h
      obtain ⟨last, hreach, hlast⟩ := ih h
      exact ⟨last, .head hnext hreach, hlast⟩

/-! ### From steps to the machine and back -/

end Machine

/-- The machine gets to all that a step comes to, with the same waiting for it as before. -/
theorem Step.Ends.reaches {α : Type} {d d' : Nat} {x : Step α} {r : Except Fault α} {s : Store}
    (h : x.Ends d r s d') (f : Except Fault α → Store → Step Completion) (pending : List Pending) :
    Machine.Reaches ⟨pending, d, x.followedBy f⟩ ⟨pending, d', f r s⟩ := by
  induction h generalizing pending with
  | done => exact .refl
  | refused hd _ ih => exact .head (Machine.next_call_refused hd) (ih f pending)
  | @call _ d d' _ callee this args s s' _ k a r hd _ _ ihcall ihrest =>
    -- one step to enter the function, one to go on when it has ended
    let resume := fun a s => (k a s).followedBy f
    have hentered := ihcall .done (.call resume :: pending)
    rw [Step.followedBy_done] at hentered
    exact .head (Machine.next_call hd) (hentered.trans (.head rfl (ihrest f pending)))
  -- one step to take a turn, after which the same loop waits again
  | @again _ d d' _ l s s' _ k r _ _ ihturn ihrest =>
    let resume := fun a s => (k a s).followedBy f
    have hturned := ihturn .done (.loop l resume :: pending)
    rw [Step.followedBy_done] at hturned
    exact .head rfl (hturned.trans (.head rfl (ihrest f pending)))
  -- the last turn gives its answer to what waits for the loop
  | @last _ d d' _ l s s' _ k a r _ ha _ ihturn ihrest =>
    let resume := fun a s => (k a s).followedBy f
    have hturned := ihturn .done (.loop l resume :: pending)
    rw [Step.followedBy_done] at hturned
    exact .head rfl (hturned.trans (.head (Machine.next_loop_last ha) (ihrest f pending)))

namespace Machine

variable {outcome : Outcome} {s : Store}

/-- A machine with an outcome first comes to what its step ends in, in no more steps. -/
theorem exists_ends {bound : Nat} {pending : List Pending} {d : Nat} {x : Step Completion}
    (h : run bound ⟨pending, d, x⟩ = some outcome) :
    ∃ r s d' rest, rest ≤ bound ∧ x.Ends d r s d' ∧
      run rest ⟨pending, d', .done r s⟩ = some outcome := by
  -- what a call or a turn leaves of the bound may be anything smaller
  induction bound using Nat.strongRecOn generalizing pending d x with
  | ind bound ih =>
    cases x with
    | done r s => exact ⟨r, s, d, bound, Nat.le_refl _, .done, h⟩
    | ask req s k =>
      cases bound with
      | zero => cases h
      | succ bound =>
        cases req with
        | call f this args =>
          by_cases hd : d < maxDepth
          · rw [run_succ_of_next (next_call hd)] at h
            obtain ⟨a, s', d', rest, hrest, hcall, h⟩ := ih bound (Nat.lt_succ_self _) h
            cases rest with
            | zero => cases h
            | succ rest =>
              obtain ⟨r, s'', d'', last, hlast, hends, h⟩ := ih rest (by omega) h
              exact ⟨r, s'', d'', last, by omega, .call hd hcall hends, h⟩
          · rw [run_succ_of_next (next_call_refused (Nat.not_lt.mp hd))] at h
            obtain ⟨r, s', d', rest, hrest, hends, h⟩ := ih bound (Nat.lt_succ_self _) h
            exact ⟨r, s', d', rest, by omega, .refused (Nat.not_lt.mp hd) hends, h⟩
        -- one step to begin a turn, which then comes to something in what is left
        | loop l =>
          obtain ⟨a, s', d', rest, hrest, hturn, h⟩ := ih bound (Nat.lt_succ_self _) h
          cases rest with
          | zero => cases h
          | succ rest =>
            by_cases ha : a = .ok .continued
            · subst ha
              obtain ⟨r, s'', d'', last, hlast, hends, h⟩ := ih rest (by omega) h
              exact ⟨r, s'', d'', last, by omega, .again hturn hends, h⟩
            · rw [run_succ_of_next (next_loop_last ha)] at h
              obtain ⟨r, s'', d'', last, hlast, hends, h⟩ := ih rest (by omega) h
              exact ⟨r, s'', d'', last, by omega, .last hturn ha hends, h⟩

/-- A whole run comes to what its action comes to, and to nothing else. -/
theorem endsIn_start_iff {x : Action Completion} {d d' : Nat} {r : Except Fault Completion}
    {s' : Store} : (start x s d).EndsIn ⟨r, s', d'⟩ ↔ (x s).Ends d r s' d' := by
  constructor
  · rintro ⟨bound, h⟩
    obtain ⟨r', last, d₁, rest, -, hends, h⟩ := exists_ends h
    -- nothing waits at the bottom, so the outcome is the result of the action
    cases rest with
    | zero => cases h
    | succ rest =>
      cases h
      exact hends
  · intro h
    -- with nothing to do after it, the action is what the machine runs
    have hreach := h.reaches .done []
    rw [Step.followedBy_done] at hreach
    exact hreach.endsIn rfl

end Machine

namespace Action

variable {x : Action Completion} {s : Store}

/-- An action that runs to a completion ends in it. -/
theorem ends_of_perform {completion : Completion} (h : (x.perform s).result = .ok completion) :
    (x s).Ends 0 (.ok completion) (x.perform s).store 0 := by
  unfold perform at h ⊢
  cases hrun : (Machine.start x s 0).run maxSteps with
  | none =>
    rw [hrun] at h
    cases h
  | some outcome =>
    obtain ⟨r, s', d'⟩ := outcome
    have hends := Machine.endsIn_start_iff.mp ⟨maxSteps, hrun⟩
    obtain rfl := hends.depth_eq
    rw [hrun] at h
    cases h
    exact hends

/-- An action that asks for nothing runs to its result. -/
theorem perform_of_done {r : Except Fault Completion} {s' : Store} (h : x s = .done r s') :
    x.perform s = ⟨r, s', 0⟩ := by
  have hsteps : maxSteps = (maxSteps - 1) + 1 := rfl
  unfold perform Machine.start
  rw [h, hsteps]
  rfl

end Action

end Descramble
