import Descramble.Proofs.Transform.Assembly
import Descramble.Proofs.Transform.Wrapper

/-!
# The order of a module does not matter

The statements of a module can stand in another order, and some of them several times: the
candidates stay the same, up to their order and how often each appears, and nothing else decides the
outcome.

Main statement: `reduce_withStatements_of_perm`.
-/

namespace Descramble

/-- Whether two scripts fail in the same way: at the same transform, with the same options in some
    order, each of them once. -/
def ReductionError.Alike : ReductionError → ReductionError → Prop
  | .notFound t, .notFound t' => t = t'
  | .ambiguous t found, .ambiguous t' found' =>
    t = t' ∧ (options found).Perm (options found') ∧ 2 ≤ (options found).length ∧
      (options found).Nodup ∧ (options found').Nodup
  | _, _ => False

section SameStatements

variable {module body : List Stmt}

/-- Modules of the same statements have the same candidates. -/
theorem candidatesIn_mem_iff (hmem : ∀ s, s ∈ body ↔ s ∈ module) (t : Transform) (c : Candidate) :
    c ∈ candidatesIn t module ↔ c ∈ candidatesIn t body := by
  simp only [candidatesIn, List.mem_filterMap, hmem]

/-- The options of an ambiguous transform are different texts. -/
theorem nodup_options {t : Transform} (hsound : ∀ s ∈ module, s.Sound) :
    (ReductionError.options (distinctCandidates (candidatesIn t module))).Nodup := by
  -- the candidates are different, and different ones have different texts
  refine (List.nodup_map_iff_inj_on (nodup_distinctCandidates _)).mpr fun c hc d hd htext => ?_
  rw [mem_distinctCandidates] at hc hd
  obtain ⟨s, hs, hsc⟩ := List.mem_filterMap.mp hc
  obtain ⟨s', hs', hsd⟩ := List.mem_filterMap.mp hd
  exact Candidate.eq_of_toText_eq (hsound s hs) hsc (hsound s' hs') hsd htext

/-- Modules of the same statements have the same sole candidate, or none for the same reason. -/
theorem soleCandidate_of_mem_iff (hsound : ∀ s ∈ module, s.Sound)
    (hmem : ∀ s, s ∈ body ↔ s ∈ module) (t : Transform) :
    (∀ c, soleCandidate t module = .ok c → soleCandidate t body = .ok c) ∧
    ∀ e, soleCandidate t module = .error e →
      ∃ e', soleCandidate t body = .error e' ∧ e.Alike e' := by
  -- the same statements give the same candidates, each counted once
  have hperm : (distinctCandidates (candidatesIn t module)).Perm
      (distinctCandidates (candidatesIn t body)) :=
    distinctCandidates_perm (candidatesIn_mem_iff hmem t)
  have hbody : ∀ s ∈ body, s.Sound := fun s hs => hsound s ((hmem s).mp hs)
  -- none, exactly one, or several: as many as in the other module
  rcases soleCandidate_cases t module with ⟨hnil, hs⟩ | ⟨c, hd, hs⟩ | ⟨hlen, hs⟩
  · rw [hs]
    refine ⟨nofun, fun e he => ?_⟩
    cases he
    have hnil' : candidatesIn t body = [] := by
      rw [distinctCandidates_eq_nil_iff.mpr hnil] at hperm
      exact distinctCandidates_eq_nil_iff.mp (List.nil_perm.mp hperm)
    exact ⟨.notFound t, soleCandidate_of_nil hnil', rfl⟩
  · rw [hs]
    refine ⟨fun c' hc => ?_, nofun⟩
    cases hc
    rw [hd] at hperm
    exact soleCandidate_of_singleton (List.singleton_perm.mp hperm).symm
  · rw [hs]
    refine ⟨nofun, fun e he => ?_⟩
    cases he
    refine ⟨_, soleCandidate_of_two_le (hperm.length_eq ▸ hlen), rfl, hperm.map _, ?_,
      nodup_options hsound, nodup_options hbody⟩
    rw [ReductionError.options, List.length_map]
    exact hlen

end SameStatements

/-- The outcome of a script does not depend on how its module is shuffled: on the order of the
    statements, and on how often each of them appears. A transform without a sole candidate is
    reported in the same way, and of two such transforms `n`. -/
theorem reduce_withStatements_of_perm {text : String} {p : Program} {m : ModuleCall}
    {body extra : List Stmt} (hp : Program.parse text = .ok p)
    (hm : ModuleCall.ofProgram? p = some m) (hbody : body.Perm (m.statements ++ extra))
    (hextra : ∀ s ∈ extra, s ∈ m.statements) :
    (∀ q, p.reduce = .ok q → ∃ n sig,
      q = ⟨pageStandIns ++ m.rewrap
        (m.statements.filter Stmt.isRetained ++ [handOut n, handOut sig])⟩ ∧
      (m.withStatements body).reduce = .ok ⟨pageStandIns ++ m.rewrap
        (body.filter Stmt.isRetained ++ [handOut n, handOut sig])⟩) ∧
    (∀ e, p.reduce = .error e →
      ∃ e', (m.withStatements body).reduce = .error e' ∧ e.Alike e') ∧
    ∀ e, soleCandidate .n m.statements = .error e → p.reduce = .error e := by
  have hmem : ∀ s, s ∈ body ↔ s ∈ m.statements := by
    intro s
    rw [hbody.mem_iff, List.mem_append]
    exact ⟨fun h => h.elim id (hextra s), .inl⟩
  have hsound := ModuleCall.everywhere_statements hm (Program.sound_of_parse hp)
  -- the shuffled module is empty only if the module is, so the wrapper around it reads as one
  obtain ⟨m', hm', hstatements, hrewrap⟩ : ∃ m', ModuleCall.ofProgram? (m.withStatements body) =
      some m' ∧ m'.statements = body ∧ m'.rewrap = m.rewrap := by
    refine ModuleCall.ofProgram?_withStatements hm body fun hnil => ?_
    refine List.eq_nil_iff_forall_not_mem.mpr fun s hs => ?_
    rw [hmem, hnil] at hs
    cases hs
  obtain ⟨hnok, hnerror⟩ := soleCandidate_of_mem_iff hsound hmem .n
  obtain ⟨hsigok, hsigerror⟩ := soleCandidate_of_mem_iff hsound hmem .sig
  rw [← hstatements] at hnok hnerror hsigok hsigerror
  -- each transform has the same sole candidate as before, or fails alike; `n` is looked at first
  refine ⟨fun q hq => ?_, fun e he => ?_, fun e he => Program.reduce_of_n_error hm he⟩
  · obtain ⟨n, sig, hn, hsig, rfl⟩ := (Program.reduce_eq_ok_iff_of_module hm).mp hq
    refine ⟨n, sig, rfl, ?_⟩
    rw [Program.reduce_of_ok hm' (hnok n hn) (hsigok sig hsig), ModuleCall.assemble,
      ModuleCall.reducedBody, hstatements, hrewrap]
  · obtain hn | ⟨n, hn, hsig⟩ := (Program.reduce_eq_error_iff_of_module hm).mp he
    · obtain ⟨e', hn', halike⟩ := hnerror e hn
      exact ⟨e', Program.reduce_of_n_error hm' hn', halike⟩
    · obtain ⟨e', hsig', halike⟩ := hsigerror e hsig
      exact ⟨e', Program.reduce_of_sig_error hm' (hnok n hn) hsig', halike⟩

/-- Two aliases stay ambiguous when they change places and one of them stands twice. -/
theorem reduce_withStatements_of_perm_aliases :
    let a : Stmt := .define "a" (.array [.ident "f"])
    let b : Stmt := .define "b" (.array [.ident "g"])
    let m : ModuleCall := ⟨[], none, ⟨[], [a, b]⟩, .direct, []⟩
    Program.parse "(function()\x7bvar a=[f];var b=[g];\x7d)();" = .ok ⟨m.rewrap [a, b]⟩ ∧
    [b, a, b].Perm (m.statements ++ [b]) ∧ b ∈ m.statements ∧
    ∃ e, (m.withStatements [b, a, b]).reduce = .error e ∧
      (ReductionError.ambiguous .n [⟨.n, "f", []⟩, ⟨.n, "g", []⟩]).Alike e := by
  intro a b m
  have hp : Program.parse "(function()\x7bvar a=[f];var b=[g];\x7d)();" = .ok ⟨m.rewrap [a, b]⟩ := by
    decide +kernel
  have hperm : [b, a, b].Perm (m.statements ++ [b]) := .swap a b [b]
  have hmem : b ∈ m.statements := .tail _ (.head _)
  refine ⟨hp, hperm, hmem, (reduce_withStatements_of_perm hp rfl hperm ?_).2.1 _ rfl⟩
  intro s hs
  rw [List.mem_singleton.mp hs]
  exact hmem

end Descramble
