import Mathlib.Data.List.Nodup
import Descramble.Proofs.Transform.Module

/-!
# What a reduction is made of

A module yields one candidate for a transform, none, or several; the reduced program is put together
from the module and the two candidates.

Main statements: `soleCandidate_eq_ok_iff`, a module has a sole candidate when it has one and no
other; `Program.reduce_of_module`, a reduction fails at the first transform without one.
-/

namespace Descramble

/-! ## Distinct candidates -/

/-- The candidates that the statements of a module give for a transform, one for each statement. -/
def candidatesIn (t : Transform) (module : List Stmt) : List Candidate :=
  module.filterMap (Candidate.ofStatement? t)

/-- Adds the candidates that are not there yet. -/
def addDistinct (kept found : List Candidate) : List Candidate :=
  found.foldl (fun kept c => if c ∈ kept then kept else kept ++ [c]) kept

/-- Candidates are added one by one. -/
theorem addDistinct_cons (kept found : List Candidate) (c : Candidate) :
    addDistinct kept (c :: found) = addDistinct (if c ∈ kept then kept else kept ++ [c]) found :=
  rfl

/-- What is there afterwards was there before or is added. -/
theorem mem_addDistinct {kept found : List Candidate} {c : Candidate} :
    c ∈ addDistinct kept found ↔ c ∈ kept ∨ c ∈ found := by
  induction found generalizing kept with
  | nil => simp [addDistinct]
  | cons d found ih =>
    rw [addDistinct_cons, ih, List.mem_cons]
    -- a candidate that is there already is not put there again
    by_cases hd : d ∈ kept
    · rw [if_pos hd]
      constructor
      · exact Or.imp_right .inr
      · rintro (h | rfl | h)
        · exact .inl h
        · exact .inl hd
        · exact .inr h
    · rw [if_neg hd, List.mem_append, List.mem_singleton, or_assoc]

/-- No candidate stands twice. -/
theorem nodup_addDistinct {kept found : List Candidate} (h : kept.Nodup) :
    (addDistinct kept found).Nodup := by
  induction found generalizing kept with
  | nil => exact h
  | cons d found ih =>
    rw [addDistinct_cons]
    by_cases hd : d ∈ kept
    · rw [if_pos hd]
      exact ih h
    · rw [if_neg hd]
      -- what is put behind the others is none of them
      refine ih (List.nodup_append.mpr ⟨h, List.nodup_singleton d, ?_⟩)
      rintro a ha b hb rfl
      exact hd (List.mem_singleton.mp hb ▸ ha)

/-- An injective change of the candidates does not change which of them are alike. -/
theorem addDistinct_map {f : Candidate → Candidate} (hf : f.Injective)
    (kept found : List Candidate) :
    addDistinct (kept.map f) (found.map f) = (addDistinct kept found).map f := by
  induction found generalizing kept with
  | nil => rfl
  | cons d found ih =>
    -- an injective change takes no candidate for another
    have hmem : f d ∈ kept.map f ↔ d ∈ kept := List.mem_map_of_injective hf
    rw [List.map_cons, addDistinct_cons, addDistinct_cons, ← ih]
    by_cases hd : d ∈ kept
    · rw [if_pos hd, if_pos (hmem.mpr hd)]
    · rw [if_neg hd, if_neg (mt hmem.mp hd), List.map_append, List.map_singleton]

/-- The distinct candidates are the candidates. -/
@[simp] theorem mem_distinctCandidates {found : List Candidate} {c : Candidate} :
    c ∈ distinctCandidates found ↔ c ∈ found := by
  have h : c ∈ distinctCandidates found ↔ c ∈ [] ∨ c ∈ found := mem_addDistinct
  simpa using h

/-- Distinct candidates are different from each other. -/
theorem nodup_distinctCandidates (found : List Candidate) : (distinctCandidates found).Nodup :=
  nodup_addDistinct .nil

/-- An injective change commutes with leaving out what is alike. -/
theorem distinctCandidates_map {f : Candidate → Candidate} (hf : f.Injective)
    (found : List Candidate) :
    distinctCandidates (found.map f) = (distinctCandidates found).map f :=
  addDistinct_map hf [] found

/-- Which candidates are distinct depends only on which there are, up to their order. -/
theorem distinctCandidates_perm {found other : List Candidate}
    (h : ∀ c, c ∈ found ↔ c ∈ other) :
    (distinctCandidates found).Perm (distinctCandidates other) := by
  -- both have the same members, and none of them twice
  refine (List.perm_ext_iff_of_nodup (nodup_distinctCandidates _)
    (nodup_distinctCandidates _)).mpr fun c => ?_
  rw [mem_distinctCandidates, mem_distinctCandidates, h]

/-- No candidate is left only if there was none. -/
theorem distinctCandidates_eq_nil_iff {found : List Candidate} :
    distinctCandidates found = [] ↔ found = [] := by
  rw [List.eq_nil_iff_forall_not_mem, List.eq_nil_iff_forall_not_mem]
  exact forall_congr' fun c => not_congr mem_distinctCandidates

/-- One candidate is left when there is one and no other. -/
theorem distinctCandidates_eq_singleton_iff {found : List Candidate} {c : Candidate} :
    distinctCandidates found = [c] ↔ found ≠ [] ∧ ∀ d ∈ found, d = c := by
  constructor
  · intro h
    refine ⟨fun hnil => ?_, fun d hd => ?_⟩
    · rw [distinctCandidates_eq_nil_iff.mpr hnil] at h
      cases h
    · exact List.mem_singleton.mp (h ▸ mem_distinctCandidates.mpr hd)
  · rintro ⟨hne, hall⟩
    -- what is left has the same members as the single candidate, and none of them twice
    obtain ⟨d, hd⟩ := List.exists_mem_of_ne_nil found hne
    refine List.perm_singleton.mp ((List.perm_ext_iff_of_nodup (nodup_distinctCandidates _)
      (List.nodup_singleton c)).mpr fun e => ?_)
    rw [mem_distinctCandidates, List.mem_singleton]
    exact ⟨hall e, fun he => he ▸ hall d hd ▸ hd⟩

/-! ## The sole candidate -/

section Sole

variable {t : Transform} {module : List Stmt} {c : Candidate}

/-- Without a candidate the transform is not found. -/
theorem soleCandidate_of_nil (h : candidatesIn t module = []) :
    soleCandidate t module = .error (.notFound t) := by
  unfold soleCandidate
  rw [show module.filterMap (Candidate.ofStatement? t) = [] from h]
  rfl

/-- One distinct candidate is the sole one. -/
theorem soleCandidate_of_singleton (h : distinctCandidates (candidatesIn t module) = [c]) :
    soleCandidate t module = .ok c := by
  unfold soleCandidate
  rw [show distinctCandidates (module.filterMap (Candidate.ofStatement? t)) = [c] from h]

/-- Two distinct candidates are reported with all others. -/
theorem soleCandidate_of_two_le (h : 2 ≤ (distinctCandidates (candidatesIn t module)).length) :
    soleCandidate t module =
      .error (.ambiguous t (distinctCandidates (candidatesIn t module))) := by
  unfold soleCandidate
  -- neither the empty list nor that of a single candidate is so long
  split
  · rename_i heq
    rw [show distinctCandidates (candidatesIn t module) = [] from heq] at h
    cases h
  · rename_i c heq
    rw [show distinctCandidates (candidatesIn t module) = [c] from heq, List.length_singleton] at h
    omega
  · rfl

/-- A module gives a transform no candidate, one, or several. -/
theorem soleCandidate_cases (t : Transform) (module : List Stmt) :
    (candidatesIn t module = [] ∧ soleCandidate t module = .error (.notFound t)) ∨
    (∃ c, distinctCandidates (candidatesIn t module) = [c] ∧ soleCandidate t module = .ok c) ∨
    (2 ≤ (distinctCandidates (candidatesIn t module)).length ∧ soleCandidate t module =
      .error (.ambiguous t (distinctCandidates (candidatesIn t module)))) := by
  -- by how many candidates are left when none is counted twice
  rcases hd : distinctCandidates (candidatesIn t module) with _ | ⟨c, _ | ⟨d, rest⟩⟩
  · have hnil := distinctCandidates_eq_nil_iff.mp hd
    exact .inl ⟨hnil, soleCandidate_of_nil hnil⟩
  · exact .inr (.inl ⟨c, rfl, soleCandidate_of_singleton hd⟩)
  · have hlen : 2 ≤ (distinctCandidates (candidatesIn t module)).length := by
      rw [hd, List.length_cons, List.length_cons]
      omega
    rw [← hd]
    exact .inr (.inr ⟨hlen, soleCandidate_of_two_le hlen⟩)

/-- A module has a sole candidate when it has one and no other. -/
theorem soleCandidate_eq_ok_iff :
    soleCandidate t module = .ok c ↔
      candidatesIn t module ≠ [] ∧ ∀ d ∈ candidatesIn t module, d = c := by
  rw [← distinctCandidates_eq_singleton_iff]
  refine ⟨fun h => ?_, soleCandidate_of_singleton⟩
  rcases soleCandidate_cases t module with ⟨_, hs⟩ | ⟨d, hd, hs⟩ | ⟨_, hs⟩
  · rw [hs] at h
    cases h
  · rw [hs] at h
    cases h
    exact hd
  · rw [hs] at h
    cases h

/-- A sole candidate comes from a statement of the module. -/
theorem exists_of_soleCandidate (h : soleCandidate t module = .ok c) :
    ∃ s ∈ module, Candidate.ofStatement? t s = some c := by
  obtain ⟨hne, hall⟩ := soleCandidate_eq_ok_iff.mp h
  -- there is some candidate, and it is the sole one
  obtain ⟨d, hd⟩ := List.exists_mem_of_ne_nil _ hne
  obtain ⟨s, hs, hsome⟩ := List.mem_filterMap.mp hd
  exact ⟨s, hs, hall d hd ▸ hsome⟩

end Sole

/-! ## The reduced program -/

/-- The body of the reduced module: what is retained of it, and the two transforms. -/
def ModuleCall.reducedBody (m : ModuleCall) (n sig : Candidate) : List Stmt :=
  m.statements.filter Stmt.isRetained ++ [handOut n, handOut sig]

/-- The reduced program of a module with its two candidates. -/
def ModuleCall.assemble (m : ModuleCall) (n sig : Candidate) : Program :=
  ⟨pageStandIns ++ m.rewrap (m.reducedBody n sig)⟩

section Reduce

variable {p : Program} {m : ModuleCall}

/-- A script without a module has no reduction. -/
theorem Program.reduce_of_none (h : ModuleCall.ofProgram? p = none) :
    p.reduce = .error .unknownStructure := by
  unfold Program.reduce
  rw [h]
  rfl

/-- A reduction fails at the first transform without a sole candidate. -/
theorem Program.reduce_of_module (h : ModuleCall.ofProgram? p = some m) :
    p.reduce = (do
      let n ← soleCandidate .n m.statements
      let sig ← soleCandidate .sig m.statements
      return m.assemble n sig) := by
  simp only [Program.reduce, h, ModuleCall.rewrap?_eq_some h]
  rfl

/-- With both candidates the reduced program is put together. -/
theorem Program.reduce_of_ok {n sig : Candidate} (h : ModuleCall.ofProgram? p = some m)
    (hn : soleCandidate .n m.statements = .ok n)
    (hsig : soleCandidate .sig m.statements = .ok sig) :
    p.reduce = .ok (m.assemble n sig) := by
  rw [Program.reduce_of_module h, hn, hsig]
  rfl

/-- The first transform without a sole candidate ends the reduction. -/
theorem Program.reduce_of_n_error {e : ReductionError} (h : ModuleCall.ofProgram? p = some m)
    (hn : soleCandidate .n m.statements = .error e) : p.reduce = .error e := by
  rw [Program.reduce_of_module h, hn]
  rfl

/-- The second one does so once the first has been found. -/
theorem Program.reduce_of_sig_error {e : ReductionError} {n : Candidate}
    (h : ModuleCall.ofProgram? p = some m) (hn : soleCandidate .n m.statements = .ok n)
    (hsig : soleCandidate .sig m.statements = .error e) : p.reduce = .error e := by
  rw [Program.reduce_of_module h, hn, hsig]
  rfl

/-- With a module, a reduction succeeds exactly if both transforms have a sole candidate. -/
theorem Program.reduce_eq_ok_iff_of_module {q : Program} (h : ModuleCall.ofProgram? p = some m) :
    p.reduce = .ok q ↔ ∃ n sig, soleCandidate .n m.statements = .ok n ∧
      soleCandidate .sig m.statements = .ok sig ∧ q = m.assemble n sig := by
  constructor
  -- `n` is looked for first, and the signature transform only where it was found
  · intro hq
    cases hn : soleCandidate .n m.statements with
    | error e =>
      rw [Program.reduce_of_n_error h hn] at hq
      cases hq
    | ok n =>
      cases hsig : soleCandidate .sig m.statements with
      | error e =>
        rw [Program.reduce_of_sig_error h hn hsig] at hq
        cases hq
      | ok sig =>
        rw [Program.reduce_of_ok h hn hsig] at hq
        cases hq
        exact ⟨n, sig, rfl, rfl, rfl⟩
  · rintro ⟨n, sig, hn, hsig, rfl⟩
    exact Program.reduce_of_ok h hn hsig

/-- With a module, a reduction fails as the first transform does that has no sole candidate. -/
theorem Program.reduce_eq_error_iff_of_module {e : ReductionError}
    (h : ModuleCall.ofProgram? p = some m) :
    p.reduce = .error e ↔ soleCandidate .n m.statements = .error e ∨
      ∃ n, soleCandidate .n m.statements = .ok n ∧ soleCandidate .sig m.statements = .error e := by
  constructor
  · intro he
    cases hn : soleCandidate .n m.statements with
    | error e' =>
      rw [Program.reduce_of_n_error h hn] at he
      cases he
      exact .inl rfl
    | ok n =>
      cases hsig : soleCandidate .sig m.statements with
      | error e' =>
        rw [Program.reduce_of_sig_error h hn hsig] at he
        cases he
        exact .inr ⟨n, rfl, rfl⟩
      | ok sig =>
        rw [Program.reduce_of_ok h hn hsig] at he
        cases he
  · rintro (hn | ⟨n, hn, hsig⟩)
    · exact Program.reduce_of_n_error h hn
    · exact Program.reduce_of_sig_error h hn hsig

/-- A reduction is put together from a module and its two sole candidates. -/
theorem Program.reduce_eq_ok_iff {q : Program} :
    p.reduce = .ok q ↔ ∃ m n sig, ModuleCall.ofProgram? p = some m ∧
      soleCandidate .n m.statements = .ok n ∧ soleCandidate .sig m.statements = .ok sig ∧
      q = m.assemble n sig := by
  -- without a module there is no reduction at all
  cases hm : ModuleCall.ofProgram? p with
  | none => simp [Program.reduce_of_none hm]
  | some m => simp [Program.reduce_eq_ok_iff_of_module hm]

end Reduce

end Descramble
