import Descramble.Proofs.Printer.Literal

/-!
# Accesses, calls and `new` are read back

What has been read goes on with an access or a call, and from there as if the longer expression had
been read at once. After `new`, accesses go on but calls do not.

Main statements: `resumes_member`, `resumes_index`, `resumes_call`, `resumes_construct`.
-/

namespace Descramble.Reader

variable {n depth : Nat} {calls isNumber : Bool} {t s mid r r' : List Char} {e next target : Expr}

/-- The bound of accesses does not matter, so it is still `n` after one. -/
theorem suffixes_step (hnext : next.Sound) (hs : s.length < n)
    (h : Production.suffix (nested n) calls e s = .ok (some next, mid)) :
    Production.suffixes (nested n) calls n e s =
      Production.suffixes (nested n) calls n next mid := by
  have hmid := Production.suffix_shorter self_alike hs h
  obtain ⟨m, rfl⟩ : ∃ m, n = m + 1 := ⟨n - 1, by omega⟩
  -- the loop reads alike with any bound that the text is shorter than
  have hnormal : Alike m 0 Expr.Sound
      (loop (Production.suffix (nested (m + 1)) calls) m next)
      (loop (Production.suffix (nested (m + 1)) calls) (m + 1) next) :=
    Alike.loop
      (fun _ he => (Production.alike_suffix self_alike he calls).shorter (Nat.le_succ m))
      (fun _ _ _ _ _ hs => Production.suffix_shorter (self_alike (n := m + 1)) (by omega))
      hnext (Nat.le_refl m) (Nat.le_succ m)
  rw [Production.suffixes_eq_loop, loop_of_some h]
  exact hnormal.same mid (by omega)

/-- What an access or a call is applied to, read where calls are allowed, or where they are not if
    it accesses none. -/
theorem ReadsBack.resumes (h : ReadsBack n depth target)
    (hcalls : calls = false → target.accessesCall = false) :
    ResumesAccess n calls
      (Printer.atLeast 17 target.binding (Printer.expr depth target)).toList target
      target.isNumber := by
  cases calls with
  | true => exact (h.atLeast 17).access (Nat.le_refl 17)
  | false =>
    unfold Printer.atLeast
    split
    · intro r r' hn hr hstop _
      exact resumes_parenthesized h.leads h.written.whole r r' hn hr hstop fun h => by cases h
    · exact h.constructed (by omega) (hcalls rfl)

/-- The object of an access, where a number stands in parentheses. -/
theorem ReadsBack.resumes_accessed (h : ReadsBack n depth target)
    (hcalls : calls = false → target.accessesCall = false) :
    ResumesAccess n calls (accessed depth target).toList target false := by
  unfold accessed
  split
  · exact resumes_parenthesized h.leads h.written.whole
  · rename_i hnumber
    intro r r' hn hr hstop _
    exact h.resumes hcalls r r' hn hr hstop fun hyes => absurd hyes hnumber

/-- A property by name is read back: its object, a point and the name. -/
theorem resumes_member {name : Name} (h : ReadsBack n depth target)
    (hsound : (Expr.member target name).Sound)
    (hcalls : calls = false → target.accessesCall = false) :
    ResumesAccess n calls (Printer.expr depth (.member target name)).toList (.member target name)
      isNumber := by
  intro r r' hn hr _ _
  have hname : IsWord name := hsound.here
  have htext : (Printer.expr depth (.member target name)).toList ++ r =
      (accessed depth target).toList ++ '.' :: (name.toList ++ r) := by
    rw [expr_member]
    simp only [String.toList_append, List.append_assoc]
    rfl
  rw [htext] at hn ⊢
  have hfollows : Follows ('.' :: (name.toList ++ r)) ('.' :: (name.toList ++ r)) :=
    ⟨rfl, fun c hc => by cases hc; decide⟩
  rw [h.resumes_accessed hcalls _ _ hn hfollows (stops_suffix (.inl rfl) _) fun h => by cases h]
  simp only [List.length_append, List.length_cons] at hn
  refine suffixes_step hsound (by simp only [List.length_append, List.length_cons]; omega) ?_
  -- the name starts with a letter: the point is not the start of another token
  obtain ⟨c, cs, hcs, hc, _⟩ := id hname
  have hsolid : skipGap (name.toList ++ r) = .ok (name.toList ++ r) := by
    rw [hcs]
    obtain ⟨hblank, hslash⟩ := not_isBlank_of_isWordChar (hname.all c (by rw [hcs]; exact .head cs))
    exact skipGap_solid hblank hslash _
  have hpoint : ∀ d ∈ (name.toList ++ r).head?, d ∉ ['.'] := by
    rw [hcs]
    intro d hd hmem
    cases hd
    exact ne_of_isWordStart hc (by decide) (List.mem_singleton.mp hmem).symm
  refine (bind_of_ok (lookFor_of_ok (operator_text "." hpoint hsolid))).trans ?_
  exact bind_of_ok (anyWord_text hname hr)

/-- A property by key is read back: its object and the key in brackets. -/
theorem resumes_index {key : Expr} (h : ReadsBack n depth target) (hkey : ReadsBack n depth key)
    (hsound : (Expr.index target key).Sound)
    (hcalls : calls = false → target.accessesCall = false) :
    ResumesAccess n calls (Printer.expr depth (.index target key)).toList (.index target key)
      isNumber := by
  intro r r' hn hr _ _
  have htext : (Printer.expr depth (.index target key)).toList ++ r =
      (accessed depth target).toList ++
        '[' :: ((Printer.expr depth key).toList ++ ']' :: r) := by
    rw [expr_index]
    simp only [String.toList_append, List.append_assoc]
    rfl
  rw [htext] at hn ⊢
  have hfollows : Follows ('[' :: ((Printer.expr depth key).toList ++ ']' :: r))
      ('[' :: ((Printer.expr depth key).toList ++ ']' :: r)) :=
    ⟨rfl, fun c hc => by cases hc; decide⟩
  rw [h.resumes_accessed hcalls _ _ hn hfollows (stops_suffix (.inr (.inl rfl)) _)
    fun h => by cases h]
  simp only [List.length_append, List.length_cons] at hn
  refine suffixes_step hsound (by simp only [List.length_append, List.length_cons]; omega) ?_
  have hclose : Follows (']' :: r) (']' :: r) := follows_closing (by decide) r
  obtain ⟨kind, hkind, _⟩ := hkey.leads _ hclose.wordEnd
  -- a bracket is looked for after a point, so there must be no point
  have hpoint : Fails (operator "." ['.']) ("[".toList ++ ((Printer.expr depth key).toList ++
      ']' :: r)) := operator_fails rfl
  refine (bind_of_ok (lookFor_of_fails hpoint)).trans ?_
  refine (bind_of_ok (lookFor_of_ok (symbol_text "[" hkind.solid.skipGap))).trans ?_
  refine (bind_of_ok (hkey.written.whole _ _
    (by simp only [List.length_append, List.length_cons]; omega) hclose
    ((stops_closing (by decide) r).mono (by decide)))).trans ?_
  exact bind_of_ok (symbol_text "]" hr.gap)

/-! ## Calls -/

/-- Arguments in parentheses. -/
def argumentsText (depth : Nat) (args : List Expr) : String :=
  Printer.parenthesized (commaSeparated (Printer.exprs depth args))

/-- Arguments begin with a parenthesis. -/
theorem argumentsText_cons (depth : Nat) (args : List Expr) :
    ∃ cs, (argumentsText depth args).toList = '(' :: cs :=
  ⟨_, toList_parenthesized _⟩

/-- Arguments come after what is called at once. -/
theorem follows_arguments (depth : Nat) (args : List Expr) (r : List Char) :
    Follows ((argumentsText depth args).toList ++ r) ((argumentsText depth args).toList ++ r) ∧
      Stops 18 ((argumentsText depth args).toList ++ r) ∧
      ∀ c ∈ ((argumentsText depth args).toList ++ r).head?, c ≠ '.' := by
  obtain ⟨cs, hcs⟩ := argumentsText_cons depth args
  rw [hcs]
  refine ⟨⟨rfl, fun c hc => ?_⟩, stops_suffix (.inr (.inr rfl)) _, fun c hc => ?_⟩
  all_goals
    cases hc
    decide

/-- A call is read back: what is called and the arguments. -/
theorem resumes_call {callee : Expr} {args : List Expr} (h : ReadsBack n depth callee)
    (hargs : ∀ e ∈ args, ReadsBack n depth e) (hsound : (Expr.call callee args).Sound) :
    ResumesAccess n true (Printer.expr depth (.call callee args)).toList (.call callee args)
      isNumber := by
  intro r r' hn hr _ _
  have htext : (Printer.expr depth (.call callee args)).toList ++ r =
      (Printer.atLeast 17 callee.binding (Printer.expr depth callee)).toList ++
        ((argumentsText depth args).toList ++ r) := by
    rw [Printer.expr, String.toList_append, List.append_assoc]
    rfl
  rw [htext] at hn ⊢
  -- the parenthesis stops what is called, and it is no point behind a number
  obtain ⟨hfollows, hstop, hpoint⟩ := follows_arguments depth args r
  have hresumes : ResumesAccess n true _ callee callee.isNumber := h.resumes fun h => by cases h
  rw [hresumes _ _ hn hfollows hstop fun _ => hpoint]
  rw [List.length_append] at hn
  refine suffixes_step hsound (by omega) ?_
  have hread := arguments_text (r := r) hargs (by unfold argumentsText at hn; omega) hr.gap
  obtain ⟨cs, hcs⟩ := argumentsText_cons depth args
  unfold argumentsText at hcs ⊢
  rw [hcs] at hread ⊢
  -- neither a point nor a bracket stands before the arguments
  have hdot : Fails (operator "." ['.']) ('(' :: cs ++ r) := operator_fails rfl
  have hbracket : Fails (symbol "[") ('(' :: cs ++ r) := symbol_fails rfl
  refine (bind_of_ok (lookFor_of_fails hdot)).trans ?_
  refine (bind_of_ok (lookFor_of_fails hbracket)).trans ?_
  exact (if_pos rfl).trans (bind_of_ok hread)

/-! ## Construction -/

/-- What `new` constructs. A call stands in parentheses. -/
def constructedText (depth : Nat) (callee : Expr) : String :=
  if callee.isCall then Printer.parenthesized (Printer.expr depth callee)
  else Printer.atLeast 17 callee.binding (Printer.expr depth callee)

theorem ReadsBack.resumes_constructed {callee : Expr} (h : ReadsBack n depth callee)
    (hfaithful : callee.isCall ∨ callee.accessesCall = false) :
    ResumesAccess n false (constructedText depth callee).toList callee callee.isNumber ∧
      Leads 17 callee.startsAmbiguously (constructedText depth callee).toList := by
  unfold constructedText
  -- a call would take the arguments for its own, so it stands in parentheses
  split
  · refine ⟨fun r r' hn hr hstop _ => ?_, leads_parenthesized 17 _⟩
    exact resumes_parenthesized h.leads h.written.whole r r' hn hr hstop fun h => by cases h
  · rename_i hcall
    exact ⟨h.resumes fun _ => hfaithful.resolve_left hcall, h.leads_atLeast 17⟩

/-- A construction is read back: the word `new`, what is constructed and the arguments. -/
theorem resumes_construct {callee : Expr} {args : List Expr} (h : ReadsBack n depth callee)
    (hargs : ∀ e ∈ args, ReadsBack n depth e)
    (hfaithful : callee.isCall ∨ callee.accessesCall = false) :
    ResumesAccess n calls (Printer.expr depth (.construct callee args)).toList
      (.construct callee args) isNumber := by
  intro r r' hn hr _ _
  have htext : (Printer.expr depth (.construct callee args)).toList ++ r =
      "new".toList ++ ' ' :: ((constructedText depth callee).toList ++
        ((argumentsText depth args).toList ++ r)) := by
    have hnew : Printer.expr depth (.construct callee args) =
        "new " ++ constructedText depth callee ++ argumentsText depth args := by
      rw [Printer.expr]
      rfl
    rw [hnew]
    simp only [String.toList_append, List.append_assoc]
    rfl
  obtain ⟨hfollows, hstop, hpoint⟩ := follows_arguments depth args r
  obtain ⟨hresumes, hlead⟩ := h.resumes_constructed hfaithful
  obtain ⟨kind, hkind, _⟩ := hlead _ hfollows.wordEnd
  rw [htext] at hn ⊢
  simp only [List.length_append, List.length_cons] at hn
  have hshort : ((constructedText depth callee).toList ++
      ((argumentsText depth args).toList ++ r)).length < n := by
    simp only [List.length_append]
    omega
  -- the arguments end the callee, since calls are not allowed in it
  have hcallee : operand n false ((constructedText depth callee).toList ++
      ((argumentsText depth args).toList ++ r)) =
        .ok (callee, (argumentsText depth args).toList ++ r) := by
    rw [hresumes _ _ hshort hfollows hstop fun _ => hpoint, Production.suffixes_eq_loop]
    refine loop_of_none ?_
    obtain ⟨cs, hcs⟩ := argumentsText_cons depth args
    rw [hcs]
    rfl
  have hread := arguments_text (r := r) hargs
    (by unfold argumentsText at hn; rw [List.length_append]; omega) hr.gap
  -- so the arguments are left for the construction itself
  have hconstruct : Production.construct (nested n) ("new".toList ++
      ' ' :: ((constructedText depth callee).toList ++ ((argumentsText depth args).toList ++ r))) =
        .ok (.construct callee args, r') := by
    obtain ⟨target, mid, htarget, hsuffixes⟩ := bind_eq_ok hcallee
    have hsame : ((nested n).construct <|> Production.primary (nested n))
        ((constructedText depth callee).toList ++ ((argumentsText depth args).toList ++ r)) =
          .ok (target, mid) := by
      rw [orElse_apply, construct_eq hshort]
      exact htarget
    refine (bind_of_ok (keyword_text "new" (follows_blank hkind.solid.skipGap))).trans ?_
    refine (bind_of_ok hsame).trans ((bind_of_ok hsuffixes).trans ?_)
    exact bind_of_ok (optional_of_ok hread)
  exact bind_of_ok (orElse_of_ok hconstruct)

end Descramble.Reader
