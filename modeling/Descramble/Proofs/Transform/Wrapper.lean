import Descramble.Proofs.Printer.RoundTrip
import Descramble.Proofs.Transform.Candidate

/-!
# The texts of wrappers

The text of a wrapper is read back as the wrapper, but for a number that is too large, which is
written as a name. So candidates that were found in a script differ exactly when the texts of their
wrappers do.

Main statements: `Candidate.parse_wrapperText`, `Candidate.eq_of_toText_eq`.
-/

namespace Descramble

open Reader.Production (ident_sound call_sound)

/-- The two transforms go by names. -/
theorem Transform.isName_name (t : Transform) : IsName t.name := by
  cases t <;> decide

/-! ## Literals that are written as names -/

namespace Expr

/-- An expression as its text is read, if it is a literal: a number that is too large becomes a
    name. -/
def spelled : Expr → Expr
  | .literal (.number (.infinite _)) => .ident "Infinity"
  | e => e

/-- Literals that are read alike are the same. -/
theorem spelled_literal_injective {l l' : Literal} (hl : (Expr.literal l).WellFormed)
    (hl' : (Expr.literal l').WellFormed)
    (h : (Expr.literal l).spelled = (Expr.literal l').spelled) :
    l = l' := by
  have hother {l : Literal} (hne : ∀ negative, l ≠ .number (.infinite negative)) :
      (Expr.literal l).spelled = .literal l := by
    unfold spelled
    split
    · rename_i negative heq
      exact absurd (Expr.literal.inj heq) (hne negative)
    · rfl
  -- one that is written as a name is infinite, and a well-formed one has no sign
  by_cases hinf : ∃ negative, l = .number (.infinite negative)
  · obtain ⟨negative, rfl⟩ := hinf
    by_cases hinf' : ∃ negative', l' = .number (.infinite negative')
    · obtain ⟨negative', rfl⟩ := hinf'
      rw [show negative = false from hl, show negative' = false from hl']
    · rw [hother fun negative heq => hinf' ⟨negative, heq⟩] at h
      cases h
  · rw [hother fun negative heq => hinf ⟨negative, heq⟩] at h
    by_cases hinf' : ∃ negative', l' = .number (.infinite negative')
    · obtain ⟨negative', rfl⟩ := hinf'
      cases h
    · rw [hother fun negative heq => hinf' ⟨negative, heq⟩] at h
      exact Expr.literal.inj h

/-- The same for a literal that may be missing. -/
theorem eq_of_spelled_eq {l l' : Option Literal} (hl : ∀ e ∈ l.toList.map Expr.literal, e.Sound)
    (hl' : ∀ e ∈ l'.toList.map Expr.literal, e.Sound)
    (h : (l.toList.map Expr.literal).map spelled = (l'.toList.map Expr.literal).map spelled) :
    l = l' := by
  rcases l with _ | l <;> rcases l' with _ | l'
  · rfl
  · cases h
  · cases h
  · have hsingle := (List.cons.inj h).1
    rw [spelled_literal_injective (hl _ (.head _)).here (hl' _ (.head _)).here hsingle]

/-- An expression as it is read is sound if the expression is. -/
theorem spelled_sound {e : Expr} (h : e.Sound) : e.spelled.Sound := by
  unfold spelled
  split
  · exact ident_sound (by decide)
  · exact h

/-- A literal as it is read is read back. -/
theorem spelled_literal_faithful {l : Literal} (h : (Expr.literal l).Sound) :
    Part.Everywhere Part.Faithful (.expr (Expr.literal l).spelled) := by
  have hleaf {e : Expr} (hinner : Part.inner (.expr e) = []) (here : e.Faithful) :
      Part.Everywhere Part.Faithful (.expr e) := by
    refine .intro here fun part hpart => ?_
    rw [hinner] at hpart
    cases hpart
  cases l with
  | number n =>
    cases n with
    | nan => exact h.here.elim
    | infinite negative => exact hleaf rfl trivial
    | finite negative m => exact hleaf rfl rfl
  | _ => exact hleaf rfl trivial

end Expr

namespace Printer

/-- A number that is too large is written as the name that its text is read as. -/
theorem exprs_map_spelled (depth : Nat) {es : List Expr} (h : ∀ e ∈ es, e.Sound) :
    exprs depth (es.map Expr.spelled) = exprs depth es := by
  induction es with
  | nil => rfl
  | cons e es ih =>
    -- infinity is written as the name, and anything else is left as it is
    have hhead : atLeast 2 e.spelled.binding (expr depth e.spelled) =
        atLeast 2 e.binding (expr depth e) := by
      have hsound := (h e List.mem_cons_self).here
      unfold Expr.spelled
      split
      · rename_i negative
        rw [show negative = false from hsound]
        rfl
      · rfl
    rw [List.map_cons, exprs, exprs, hhead, ih fun e' he' => h e' (List.mem_cons_of_mem e he')]

/-- Arguments are written one by one. -/
theorem exprs_append (depth : Nat) (es es' : List Expr) :
    exprs depth (es ++ es') = exprs depth es ++ exprs depth es' := by
  induction es with
  | nil => rfl
  | cons e es ih => rw [List.cons_append, exprs, exprs, ih, List.cons_append]

end Printer

/-! ## Candidates -/

namespace Candidate

/-- The wrapper of a sound candidate is sound. -/
theorem wrapper_sound {c : Candidate} (h : c.Sound) : c.wrapper.Sound := by
  have hparam := c.transform.isName_name
  refine everywhere_wrapper (fun param hp => ?_) (fun _ => trivial) h.1 hparam h.2
  rw [List.mem_singleton.mp hp]
  exact hparam

/-- A candidate as its text is read. -/
def spelled (c : Candidate) : Candidate :=
  { c with leading := c.leading.map Expr.spelled }

/-- A wrapper is written with its parameter and a call that passes it on. -/
theorem toText_eq (c : Candidate) : c.toText = c.transform.name ++ " => " ++
    (c.callee ++ Printer.parenthesized
      (commaSeparated (Printer.exprs 0 c.leading ++ [c.transform.name]))) := by
  unfold toText wrapper Expr.toText
  rw [Printer.expr, Printer.arrowBody, Printer.expr, Printer.exprs_append]
  rfl

/-- A candidate and the candidate as it is read have one text. -/
theorem toText_spelled {c : Candidate} (h : c.Sound) : c.spelled.toText = c.toText := by
  rw [toText_eq, toText_eq]
  show _ ++ (c.callee ++ Printer.parenthesized
    (commaSeparated (Printer.exprs 0 (c.leading.map Expr.spelled) ++ _))) = _
  rw [Printer.exprs_map_spelled 0 h.2]
  rfl

/-- A wrapper's body starts with the name of the function that it calls. -/
theorem wrapper_faithful {c : Candidate} (hname : IsName c.callee)
    (h : ∀ e ∈ c.leading, Part.Everywhere Part.Faithful (.expr e)) :
    Part.Everywhere Part.Faithful (.expr c.wrapper) := by
  -- the body of the wrapper is no empty block, since it begins with a name
  have hstart : ¬ "\x7b\x7d".toList <+: (Printer.arrowBody 0 (.expr (.call (.ident c.callee)
      (c.leading ++ [.ident c.transform.name])))).toList := by
    obtain ⟨ch, cs, hcs, hch, _⟩ := hname.1
    rw [Printer.arrowBody, Printer.expr, Printer.expr]
    show ¬ "\x7b\x7d".toList <+: (c.callee ++ _).toList
    rw [String.toList_append, hcs]
    intro hp
    have hbrace := (List.cons_prefix_cons.mp hp).1
    rw [← hbrace] at hch
    exact absurd hch (by decide)
  exact everywhere_wrapper (.inr hstart) (fun _ => trivial) trivial trivial h

section Text

variable {t : Transform} {s : Stmt} {c : Candidate}

/-- The text of a candidate that a statement gives is read back. -/
theorem parse_wrapperText (hs : s.Sound) (h : ofStatement? t s = some c) :
    Expr.parse c.toText = .ok c.spelled.wrapper := by
  have hc : c.Sound := sound_of_ofStatement? hs h
  have hspelled : c.spelled.Sound := by
    refine ⟨hc.1, fun e he => ?_⟩
    obtain ⟨plain, hplain, rfl⟩ := List.mem_map.mp he
    exact Expr.spelled_sound (hc.2 plain hplain)
  have hfaithful : Part.Everywhere Part.Faithful (.expr c.spelled.wrapper) := by
    refine wrapper_faithful hc.1 fun e he => ?_
    obtain ⟨plain, hplain, rfl⟩ := List.mem_map.mp he
    obtain ⟨l, hl⟩ := leading_of_ofStatement? h
    obtain ⟨l, _, rfl⟩ := List.mem_map.mp (hl ▸ hplain)
    exact Expr.spelled_literal_faithful (hc.2 _ hplain)
  -- the text is also that of the candidate as it is read, which is faithful
  rw [← toText_spelled hc]
  exact Expr.parse_toText_of_sound (wrapper_sound hspelled) hfaithful

/-- Candidates for one transform that were found in a script have different texts. -/
theorem eq_of_toText_eq {s' : Stmt} {c' : Candidate} (hs : s.Sound)
    (h : ofStatement? t s = some c) (hs' : s'.Sound) (h' : ofStatement? t s' = some c')
    (htext : c.toText = c'.toText) : c = c' := by
  -- one text is read as both wrappers, so the candidates agree but for how a literal is written
  have hparse := parse_wrapperText hs h
  rw [htext, parse_wrapperText hs' h'] at hparse
  have hc := sound_of_ofStatement? hs h
  have hc' := sound_of_ofStatement? hs' h'
  obtain ⟨l, hl⟩ := leading_of_ofStatement? h
  obtain ⟨l', hl'⟩ := leading_of_ofStatement? h'
  have ht := (transform_of_ofStatement? h).trans (transform_of_ofStatement? h').symm
  obtain ⟨transform, callee, leading⟩ := c
  obtain ⟨transform', callee', leading'⟩ := c'
  subst hl hl' ht
  simp only [spelled, wrapper, Except.ok.injEq, Expr.arrow.injEq, ArrowBody.expr.injEq,
    Expr.call.injEq, Expr.ident.injEq, List.append_cancel_right_eq, true_and] at hparse
  obtain ⟨rfl, hleading⟩ := hparse
  rw [Expr.eq_of_spelled_eq hc.2 hc'.2 hleading.symm]

end Text

end Candidate

end Descramble
