import Descramble.Evaluation.Run
import Descramble.Proofs.Evaluation.Ending
import Descramble.Proofs.Evaluation.Passing

/-!
# The depth of calls

Calls nest up to `maxDepth` and no deeper. One that would go deeper is refused: whoever asked for it
is answered with a fault at once. Nothing that waits takes that fault up, so from there on calls and
loops only end, one after the other, and no handler, last part, statement or callback runs any more.

Main statements: `Machine.depth_le_of_reaches`, no machine gets deeper; `Machine.Passes.of_reaches`,
all that waits in a run passes on such faults, which is preserved by every step;
`Machine.Passes.exists_last`, from a refusal on the machine gets to its last step; and
`Machine.depth_law`, all of it together with the level afterwards.
-/

namespace Descramble

/-! ## What a host does -/

/-- What a host has a machine do: run a program, call a value, or read a property of one. -/
inductive Errand where
  | run (p : Program)
  | call (f this : Value) (args : List Value)
  | getProperty (target : Value) (key : String)

def Errand.action : Errand → Action Completion
  | .run p => Action.runBody ⟨.root, .object .global⟩ p.body
  | .call f this args => do return .gaveBack (← Action.call f this args)
  | .getProperty target key => do return .gaveBack (← Action.getProperty target key)

/-- Whatever a host has a machine do passes on fatal faults. -/
theorem Errand.passes (x : Errand) : x.action.Passes := by
  cases x with
  | run p => exact Action.runBody_passes p.body
  | call f this args => exact .bind (.call f this args) fun _ => .pure _
  | getProperty target key =>
    exact .bind (Action.getProperty_scopeless target key).passes fun _ => .pure _

/-- Whether what waits for an answer ends in each fatal fault that it gets. -/
def Pending.Passes : Pending → Prop
  | .call resume | .loop _ resume =>
    (∀ why s, resume (.error (.fatal why)) s = .done (.error (.fatal why)) s) ∧
      ∀ answer s, (resume answer s).Passes

namespace Machine

/-- A machine that asks for a call at the last level. -/
def IsRefused (m : Machine) (s : Store) : Prop :=
  maxDepth ≤ m.depth ∧ ∃ f this args k, m.current = .ask (.call f this args) s k

/-- Whether a machine has come to nothing: a fatal fault is on its way to whoever waits. -/
def IsFatal (m : Machine) (why : Fatal) (s : Store) : Prop :=
  m.current = .done (.error (.fatal why)) s

/-- A machine whose step passes on fatal faults, like all that waits for it. -/
structure Passes (m : Machine) : Prop where
  current : m.current.Passes
  pending : ∀ frame ∈ m.pending, frame.Passes

variable {m m' : Machine} {s : Store} {why : Fatal}

/-! ## The level -/

/-- A step goes one level deeper at most, and never below the last one. -/
theorem depth_le_of_next (h : m.next = .inr m') (hm : m.depth ≤ maxDepth) :
    m'.depth ≤ maxDepth := by
  obtain ⟨pending, d, x⟩ := m
  -- only a call gets deeper, and only where there is a level left
  cases x with
  | ask req s k =>
    cases req with
    | call f this args =>
      simp only [next] at h
      split at h
      · cases h
        show d + 1 ≤ maxDepth
        omega
      · cases h
        exact hm
    | loop l =>
      cases h
      exact hm
  | done a s =>
    cases pending with
    | nil => cases h
    | cons frame pending =>
      cases frame with
      | call k =>
        cases h
        exact Nat.le_trans (Nat.sub_le d 1) hm
      | loop l k =>
        rcases a with v | (_ | _ | _ | _) <;>
          (cases h; exact hm)

/-- No machine that a run gets to is deeper than the last level. -/
theorem depth_le_of_reaches (h : m.Reaches m') (hm : m.depth ≤ maxDepth) :
    m'.depth ≤ maxDepth := by
  induction h with
  | refl => exact hm
  | tail _ hnext ih => exact depth_le_of_next hnext ih

/-! ## Faults on their way -/

/-- What the machine carries out passes on fatal faults, and so does whoever is resumed. -/
theorem Passes.next (hm : m.Passes) (h : m.next = .inr m') : m'.Passes := by
  obtain ⟨pending, d, x⟩ := m
  obtain ⟨hx, hpending⟩ := hm
  cases x with
  | ask req s k =>
    cases req with
    | call f this args =>
      -- a call that is entered, or one that is refused and answered at once
      simp only [Machine.next] at h
      split at h
      · cases h
        exact ⟨Action.enter_passes f this args s, List.forall_mem_cons.mpr ⟨hx, hpending⟩⟩
      · cases h
        exact ⟨hx.2 _ s, hpending⟩
    | loop l =>
      cases h
      exact ⟨Action.turn_passes l s, List.forall_mem_cons.mpr ⟨hx, hpending⟩⟩
  -- a result goes to the frame on top, which has passed on faults all along
  | done a s =>
    cases pending with
    | nil => cases h
    | cons frame pending =>
      rw [List.forall_mem_cons] at hpending
      cases frame with
      | call k =>
        cases h
        exact ⟨hpending.1.2 a s, hpending.2⟩
      | loop l k =>
        rcases a with v | (_ | _ | _ | _)
        -- the loop that is asked for again waits as it has waited before
        case ok.continued =>
          cases h
          exact ⟨hpending.1, hpending.2⟩
        all_goals
          cases h
          exact ⟨hpending.1.2 _ s, hpending.2⟩

/-- In a whole run everything passes on fatal faults, whatever calls and loops come to wait. -/
theorem Passes.of_reaches (hm : m.Passes) (h : m.Reaches m') : m'.Passes := by
  -- on the steps of the run, each of which keeps it
  induction h with
  | refl => exact hm
  | tail _ hnext ih => exact ih.next hnext

/-- A refusal is answered with a fault, and whoever asked ends in it. -/
theorem Passes.exists_next_of_refused (hm : m.Passes) (h : m.IsRefused s) :
    ∃ m', m.next = .inr m' ∧ m'.IsFatal .tooDeep s := by
  obtain ⟨pending, d, x⟩ := m
  obtain ⟨hdeep, f, this, args, k, rfl⟩ := h
  exact ⟨_, next_call_refused hdeep, hm.current.1 .tooDeep s⟩

/-- A fatal fault goes to whatever waits next, and ends that as well. Where nothing waits, it is the
    outcome. -/
theorem Passes.next_of_fatal (hm : m.Passes) (h : m.IsFatal why s) :
    m.pending = [] ∧ m.next = .inl ⟨.error (.fatal why), s, m.depth⟩ ∨
      ∃ m', m.next = .inr m' ∧ m'.IsFatal why s ∧ m.pending.length = m'.pending.length + 1 := by
  obtain ⟨pending, d, x⟩ := m
  cases h
  cases pending with
  | nil => exact .inl ⟨rfl, rfl⟩
  | cons frame pending =>
    have hframe := hm.pending frame (List.mem_cons_self ..)
    cases frame with
    | call k => exact .inr ⟨_, rfl, hframe.1 why s, rfl⟩
    | loop l k => exact .inr ⟨_, next_loop_last nofun, hframe.1 why s, rfl⟩

/-- After a fatal fault nothing but that fault is ever on its way, in the same store. -/
theorem Passes.isFatal_of_reaches (hm : m.Passes) (h : m.IsFatal why s) (hreach : m.Reaches m') :
    m'.IsFatal why s := by
  -- both at once, because each step needs that the machine still passes faults on
  have hboth : m'.Passes ∧ m'.IsFatal why s := by
    induction hreach with
    | refl => exact ⟨hm, h⟩
    | tail _ hnext ih =>
      refine ⟨ih.1.next hnext, ?_⟩
      rcases ih.1.next_of_fatal ih.2 with ⟨-, hlast⟩ | ⟨_, hnext', hfatal, -⟩
      · rw [hlast] at hnext
        cases hnext
      · rw [hnext'] at hnext
        cases hnext
        exact hfatal
  exact hboth.2

/-- A fatal fault gets through to the host. -/
theorem Passes.exists_last (hm : m.Passes) (h : m.IsFatal why s) :
    ∃ last, m.Reaches last ∧ last.next = .inl ⟨.error (.fatal why), s, last.depth⟩ := by
  -- by what waits: each step ends one call or one loop
  generalize hlength : m.pending.length = n
  induction n generalizing m with
  | zero =>
    rcases hm.next_of_fatal h with ⟨-, hlast⟩ | ⟨m', -, -, hfewer⟩
    · exact ⟨m, .refl, hlast⟩
    · omega
  | succ n ih =>
    rcases hm.next_of_fatal h with ⟨hnone, -⟩ | ⟨m', hnext, hfatal, hfewer⟩
    · rw [hnone] at hlength
      cases hlength
    · obtain ⟨last, hreach, hlast⟩ := ih (hm.next hnext) hfatal (by omega)
      exact ⟨last, .head hnext hreach, hlast⟩

/-! ## Whole runs -/

/-- A run that a refusal is met in comes to nothing, at the level at which it began. -/
theorem exists_run_of_refused {x : Action Completion} (hx : x.Passes) {first : Store} {d : Nat}
    (hreach : (start x first d).Reaches m) (href : m.IsRefused s) :
    (∀ m', m.Reaches m' → m' = m ∨ m'.IsFatal .tooDeep s) ∧
    ∃ steps, ∀ bound, (start x first d).run (steps + bound) =
      some ⟨.error (.fatal .tooDeep), s, d⟩ := by
  have hstart : (start x first d).Passes := ⟨hx first, fun _ hmem => nomatch hmem⟩
  have hm := hstart.of_reaches hreach
  obtain ⟨m₁, hnext, hfatal⟩ := hm.exists_next_of_refused href
  have hm₁ := hm.next hnext
  constructor
  · intro m' h
    obtain rfl | ⟨m₂, hnext', hrest⟩ := h.cases_head
    · exact .inl rfl
    · rw [hnext] at hnext'
      cases hnext'
      exact .inr (hm₁.isFatal_of_reaches hfatal hrest)
  · obtain ⟨last, hrest, hlast⟩ := hm₁.exists_last hfatal
    have hwhole : (start x first d).Reaches last := hreach.trans (.head hnext hrest)
    -- whatever the run has come to, its calls have ended
    have hdepth : last.depth = d := (endsIn_start_iff.mp (hwhole.endsIn hlast)).depth_eq
    rw [hdepth] at hlast
    exact hwhole.exists_run hlast

/-- The law of the depth, for every run, call and reading of a property, from every store and level
    on. If it ends, then at the level at which it began, however it ends. No machine on the way is
    deeper than the last level. And if a call is refused on the way, the rest is the end of what
    waits: nothing of the script runs any more and the store stays as it is, until the whole of it
    ends in that fault, which it does. -/
theorem depth_law (x : Errand) (s : Store) (d : Nat) :
    (∀ outcome, (start x.action s d).EndsIn outcome → outcome.depth = d) ∧
    (d ≤ maxDepth → ∀ m, (start x.action s d).Reaches m → m.depth ≤ maxDepth) ∧
    ∀ m s', (start x.action s d).Reaches m → m.IsRefused s' →
      (∀ m', m.Reaches m' → m' = m ∨ m'.IsFatal .tooDeep s') ∧
      (∃ steps, ∀ bound, (start x.action s d).run (steps + bound) =
        some ⟨.error (.fatal .tooDeep), s', d⟩) ∧
      Fatal.tooDeep.message = "Maximum call stack size exceeded" := by
  refine ⟨fun outcome h => ?_, fun hd m h => depth_le_of_reaches h hd, fun m s' h href => ?_⟩
  -- the level goes up and down again with each call
  · obtain ⟨r, s', d'⟩ := outcome
    exact (endsIn_start_iff.mp h).depth_eq
  · obtain ⟨hafter, hrun⟩ := exists_run_of_refused x.passes h href
    exact ⟨hafter, hrun, rfl⟩

/-- A `try` statement with a handler and a last part, in a function that is called at the last
    level. -/
def deepTry : Program where
  body := [.expr (.call (.function none ⟨[], [.attempt [.expr (.call (.function none ⟨[], []⟩) [])]
    (some ⟨none, [.giveBack none]⟩) (some [.breakOut])]⟩) [])]

/-- Neither its handler nor its last part runs: the program ends in the fault. -/
theorem depth_law_attempt : ∃ m s',
    (start (Errand.run deepTry).action .initial (maxDepth - 1)).Reaches m ∧ m.IsRefused s' ∧
      ∃ steps, ∀ bound,
        (start (Errand.run deepTry).action .initial (maxDepth - 1)).run (steps + bound) =
          some ⟨.error (.fatal .tooDeep), s', maxDepth - 1⟩ := by
  -- the first step enters the function, and there the call in its `try` is refused
  have hentered : ∃ m, (start (Errand.run deepTry).action .initial (maxDepth - 1)).next =
      .inr m ∧ ∃ s', m.IsRefused s' :=
    ⟨_, next_call (by decide), _, by decide, _, _, _, _, rfl⟩
  obtain ⟨m, hnext, s', href⟩ := hentered
  have hlaw := (depth_law (.run deepTry) .initial (maxDepth - 1)).2.2 m s' (.single hnext) href
  exact ⟨m, s', .single hnext, href, hlaw.2.1⟩

end Machine

end Descramble
