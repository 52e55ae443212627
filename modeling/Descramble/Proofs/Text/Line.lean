import Descramble.Proofs.Text.Position

/-!
# The line of a place

A place in a text lies on the line whose number is one more than the line ends before it. The lines
up to the place are as many as that where the place is inside a line, and one fewer where it is at
the start of a line, of which nothing has been seen there.

Main statements: `getElem?_linesOf`, the line that a place lies on; and which line `lineAt?` gives
for it: `lineAt?_nil` at the start of the text, `lineAt?_of_wholeLines` at the start of a later line,
`lineAt?_of_not_wholeLines` inside a line and `lineAt?_zero` at the end.
-/

namespace Descramble

/-- What stands on the last line of a text: what follows its last line end. -/
def lineStart (before : List Char) : List Char :=
  (before.reverse.takeWhile (· ≠ '\n')).reverse

/-- The line that a place lies on, without its end: what stands before the place since the last line
    end, and what follows up to the next. -/
def lineAround (before after : List Char) : List Char :=
  let line := lineStart before ++ after.takeWhile (· ≠ '\n')
  if '\n' ∈ after then (withoutReturn line.reverse).reverse else line

/-- Whether a text is whole lines, each with its end. -/
def WholeLines (cs : List Char) : Prop :=
  cs = [] ∨ cs.getLast? = some '\n'

instance (cs : List Char) : Decidable (WholeLines cs) :=
  inferInstanceAs (Decidable (_ ∨ _))

/-! ## Lines one after the other -/

/-- Characters without a line end are gathered on the line. -/
theorem linesAfter_append_of_not_mem {cs : List Char} (h : '\n' ∉ cs) (line rest : List Char) :
    linesAfter line (cs ++ rest) = linesAfter (cs.reverse ++ line) rest := by
  induction cs generalizing line with
  | nil => rfl
  | cons c cs ih =>
    rw [List.mem_cons, not_or] at h
    rw [List.cons_append, linesAfter, ih h.2, List.reverse_cons, List.append_assoc,
      List.singleton_append]
    exact fun heq => h.1 heq.symm

/-- A line without an end is the last one. -/
theorem linesOf_of_not_mem {cs : List Char} (hne : cs ≠ []) (h : '\n' ∉ cs) :
    linesOf cs = [cs] := by
  have hlines := linesAfter_append_of_not_mem h [] []
  rw [List.append_nil, List.append_nil] at hlines
  rw [linesOf, hlines, linesAfter, if_neg (by simpa using hne), List.reverse_reverse]

/-- A line that ends comes before the lines after it. -/
theorem linesOf_append_cons {line : List Char} (h : '\n' ∉ line) (rest : List Char) :
    linesOf (line ++ '\n' :: rest) = (withoutReturn line.reverse).reverse :: linesOf rest := by
  rw [linesOf, linesAfter_append_of_not_mem h, List.append_nil, linesAfter]
  rfl

/-- A text that is not empty has a line. -/
theorem linesOf_ne_nil {cs : List Char} (hne : cs ≠ []) : linesOf cs ≠ [] := by
  by_cases hline : '\n' ∈ cs
  · obtain ⟨line, rest, rfl, hnot⟩ := List.eq_append_cons_of_mem hline
    rw [linesOf_append_cons hnot]
    exact List.cons_ne_nil _ _
  · rw [linesOf_of_not_mem hne hline]
    exact List.cons_ne_nil _ _

/-- Up to a line end there is one line more than there are line ends before it. -/
theorem linesAfter_lineEnd (line cs rest : List Char) :
    linesAfter line (cs ++ '\n' :: rest) = linesAfter line (cs ++ ['\n']) ++ linesOf rest ∧
      (linesAfter line (cs ++ ['\n'])).length = cs.count '\n' + 1 := by
  -- by the text before the line end; a line end in it starts a new line
  induction cs generalizing line with
  | nil => exact ⟨rfl, rfl⟩
  | cons c cs ih =>
    by_cases hc : c = '\n'
    · subst hc
      obtain ⟨hlines, hlength⟩ := ih []
      simp only [List.cons_append, linesAfter, hlines, List.length_cons, hlength,
        List.count_cons_self, and_self]
    · obtain ⟨hlines, hlength⟩ := ih (c :: line)
      simp only [List.cons_append, linesAfter, hlines, hlength, List.count_cons_of_ne hc, and_self]

/-- Whole lines come before the lines of what follows them, one for each line end. -/
theorem WholeLines.linesOf_append {full : List Char} (h : WholeLines full) (rest : List Char) :
    linesOf (full ++ rest) = linesOf full ++ linesOf rest ∧
      (linesOf full).length = full.count '\n' := by
  rcases h with rfl | h
  · exact ⟨rfl, rfl⟩
  · obtain ⟨cs, rfl⟩ := List.getLast?_eq_some_iff.mp h
    obtain ⟨hlines, hlength⟩ := linesAfter_lineEnd [] cs rest
    rw [List.append_assoc, List.count_append]
    exact ⟨hlines, hlength⟩

/-- What is taken up to an item does not have it. -/
theorem not_mem_takeWhile_ne {α : Type} [DecidableEq α] (a : α) (xs : List α) :
    a ∉ xs.takeWhile (· ≠ a) := by
  intro h
  have hne := List.all_eq_true.mp List.all_takeWhile a h
  simp at hne

/-- Where the item is missing, everything is taken. -/
theorem takeWhile_ne_of_not_mem {α : Type} [DecidableEq α] {a : α} {xs : List α} (h : a ∉ xs) :
    xs.takeWhile (· ≠ a) = xs := by
  have hall : ∀ x ∈ xs, decide (x ≠ a) = true := fun x hx =>
    decide_eq_true fun heq => h (heq ▸ hx)
  have happend : (xs ++ []).takeWhile (· ≠ a) = xs ++ [].takeWhile (· ≠ a) :=
    List.takeWhile_append_of_pos hall
  rwa [List.takeWhile_nil, List.append_nil] at happend

/-- What stands before the first such item is taken. -/
theorem takeWhile_ne_append_cons {α : Type} [DecidableEq α] {a : α} {xs : List α} (h : a ∉ xs)
    (rest : List α) : (xs ++ a :: rest).takeWhile (· ≠ a) = xs := by
  have hall : ∀ x ∈ xs, decide (x ≠ a) = true := fun x hx =>
    decide_eq_true fun heq => h (heq ▸ hx)
  rw [List.takeWhile_append_of_pos hall, List.takeWhile_cons_of_neg (by simp), List.append_nil]

/-- On the last line there is no line end. -/
theorem not_mem_lineStart (cs : List Char) : '\n' ∉ lineStart cs := by
  rw [lineStart, List.mem_reverse]
  exact not_mem_takeWhile_ne '\n' cs.reverse

/-- A text is whole lines and what stands on its last one. -/
theorem exists_wholeLines_append (cs : List Char) :
    ∃ full, cs = full ++ lineStart cs ∧ WholeLines full := by
  -- read from the end, the last line is what comes before the first line end
  refine ⟨(cs.reverse.dropWhile (· ≠ '\n')).reverse, ?_, ?_⟩
  · rw [lineStart, ← List.reverse_append, List.takeWhile_append_dropWhile, List.reverse_reverse]
  · have hhead := List.head?_dropWhile_not (· ≠ '\n') cs.reverse
    rw [WholeLines, List.getLast?_reverse, List.reverse_eq_nil_iff]
    cases hrest : cs.reverse.dropWhile (· ≠ '\n') with
    | nil => exact .inl rfl
    | cons c rest =>
      rw [hrest] at hhead
      right
      simpa using hhead

/-- Nothing stands on the last line exactly where the text is whole lines. -/
theorem lineStart_eq_nil_iff {cs : List Char} : lineStart cs = [] ↔ WholeLines cs := by
  obtain ⟨full, hcs, hfull⟩ := exists_wholeLines_append cs
  constructor
  · intro hnil
    rw [hnil, List.append_nil] at hcs
    exact hcs ▸ hfull
  · rintro (rfl | hlast)
    · rfl
    · obtain ⟨front, rfl⟩ := List.getLast?_eq_some_iff.mp hlast
      rw [lineStart, List.reverse_append]
      rfl

/-! ## Where a place lies -/

variable {before after : List Char}

/-- Before the line of a place there are as many lines as line ends before the place. -/
theorem exists_linesOf_append (before : List Char) :
    ∃ lines : List (List Char), lines.length = before.count '\n' ∧ ∀ after,
      linesOf (before ++ after) = lines ++ linesOf (lineStart before ++ after) := by
  obtain ⟨full, hbefore, hfull⟩ := exists_wholeLines_append before
  have hcount : before.count '\n' = full.count '\n' := by
    rw [hbefore, List.count_append, List.count_eq_zero_of_not_mem (not_mem_lineStart before),
      Nat.add_zero]
  refine ⟨linesOf full, ?_, fun after => ?_⟩
  · rw [hcount]
    exact (hfull.linesOf_append []).2
  · have htext : before ++ after = full ++ (lineStart before ++ after) := by
      rw [← List.append_assoc, ← hbefore]
    rw [htext]
    exact (hfull.linesOf_append _).1

/-- The lines up to a place: one more than the line ends if a line has begun. -/
theorem length_linesOf (before : List Char) : (linesOf before).length =
    before.count '\n' + if lineStart before = [] then 0 else 1 := by
  obtain ⟨lines, hlength, hlines⟩ := exists_linesOf_append before
  have hbefore := hlines []
  rw [List.append_nil, List.append_nil] at hbefore
  rw [hbefore, List.length_append, hlength]
  split
  · rename_i hnil
    rw [hnil]
    rfl
  · rename_i hne
    rw [linesOf_of_not_mem hne (not_mem_lineStart before)]
    rfl

/-- From the line of a place on: that line, and what stands after its end. -/
theorem linesOf_lineStart_append (before : List Char) (hafter : after ≠ []) :
    ∃ rest, linesOf (lineStart before ++ after) = lineAround before after :: linesOf rest ∧
      (rest = [] ↔ '\n' ∉ after.dropLast) := by
  have hpart := not_mem_lineStart before
  unfold lineAround
  -- with a line end behind the place, the line ends there and other lines may follow
  by_cases hend : '\n' ∈ after
  · obtain ⟨stop, rest, rfl, hstop⟩ := List.eq_append_cons_of_mem hend
    have htake := takeWhile_ne_append_cons hstop rest
    have hline : '\n' ∉ lineStart before ++ stop := by
      rw [List.mem_append, not_or]
      exact ⟨hpart, hstop⟩
    refine ⟨rest, ?_, ?_⟩
    · rw [← List.append_assoc, linesOf_append_cons hline, if_pos hend, htake]
    · rw [List.dropLast_append_cons, List.mem_append, not_or]
      cases rest with
      | nil => simpa using hstop
      | cons c rest => simp
  · have htake := takeWhile_ne_of_not_mem hend
    have hline : '\n' ∉ lineStart before ++ after := by
      rw [List.mem_append, not_or]
      exact ⟨hpart, hend⟩
    refine ⟨[], ?_, ?_⟩
    · rw [linesOf_of_not_mem (List.append_ne_nil_of_right_ne_nil _ hafter) hline, if_neg hend, htake]
      rfl
    · exact iff_of_true rfl fun hmem => hend (List.dropLast_subset after hmem)

/-- The line that a place lies on is the one after as many lines as there are line ends before the
    place, unless the text is over there. -/
theorem getElem?_linesOf (before : List Char) (hafter : after ≠ []) :
    (linesOf (before ++ after))[before.count '\n']? = some (lineAround before after) := by
  obtain ⟨lines, hlength, hlines⟩ := exists_linesOf_append before
  obtain ⟨rest, hrest, -⟩ := linesOf_lineStart_append before hafter
  rw [hlines, hrest, List.getElem?_append_right (Nat.le_of_eq hlength), hlength, Nat.sub_self]
  rfl

/-- The lines of a text, counted from a place on: the line of the place, and those after it. -/
theorem exists_length_linesOf (before : List Char) (hafter : after ≠ []) :
    ∃ later : Nat, (linesOf (before ++ after)).length = before.count '\n' + (later + 1) ∧
      (later = 0 ↔ '\n' ∉ after.dropLast) := by
  obtain ⟨lines, hlength, hlines⟩ := exists_linesOf_append before
  obtain ⟨rest, hrest, hlast⟩ := linesOf_lineStart_append before hafter
  refine ⟨(linesOf rest).length, ?_, ?_⟩
  · rw [hlines, hrest, List.length_append, List.length_cons, hlength]
  · rw [List.length_eq_zero_iff, ← hlast]
    exact ⟨fun h => Classical.byContradiction fun hne => linesOf_ne_nil hne h, fun h => h ▸ rfl⟩

/-! ## Which line is given -/

/-- At the end of a text it is none. -/
theorem lineAt?_zero (cs : List Char) : lineAt? 0 cs = none := by
  have hbefore : beforePosition 0 cs = cs := by
    have h := beforePosition_utf8Length cs []
    rwa [List.append_nil] at h
  simp only [lineAt?, hbefore, Nat.lt_irrefl, if_false]

/-- At the start of a text it is the first line. -/
theorem lineAt?_nil (hafter : after ≠ []) :
    lineAt? (utf8Length after) after = some (1, lineAround [] after) := by
  have hown : (linesOf after)[0]? = some (lineAround [] after) :=
    getElem?_linesOf [] hafter
  have hbefore : beforePosition (utf8Length after) after = [] := beforePosition_utf8Length [] after
  have hcount : (linesOf []).length = 0 := rfl
  simp only [lineAt?, hbefore, hcount, if_pos (List.length_pos_iff.mpr (linesOf_ne_nil hafter)),
    Nat.zero_sub, hown, Option.map_some, Nat.zero_max]

/-- At the start of a later line it is the line above. -/
theorem lineAt?_of_wholeLines (hne : before ≠ []) (h : WholeLines before) (hafter : after ≠ []) :
    ∃ above, (linesOf before).getLast? = some above ∧
      lineAt? (utf8Length after) (before ++ after) = some (before.count '\n', above) := by
  obtain ⟨later, htotal, -⟩ := exists_length_linesOf before hafter
  have hcount : (linesOf before).length = before.count '\n' := by
    rw [length_linesOf, if_pos (lineStart_eq_nil_iff.mpr h), Nat.add_zero]
  have hpos : 0 < before.count '\n' := by
    rw [← hcount]
    exact List.length_pos_iff.mpr (linesOf_ne_nil hne)
  obtain ⟨above, habove⟩ : ∃ above, (linesOf before).getLast? = some above :=
    ⟨_, List.getLast?_eq_some_getLast (linesOf_ne_nil hne)⟩
  refine ⟨above, habove, ?_⟩
  -- no line has begun behind the last line end, so the last of the lines counted is the one above
  have hline : (linesOf (before ++ after))[before.count '\n' - 1]? = some above := by
    rw [(h.linesOf_append after).1, List.getElem?_append_left (by omega), ← habove,
      List.getLast?_eq_getElem?, hcount]
  rw [lineAt?, beforePosition_utf8Length]
  simp only [hcount, htotal, hline]
  rw [if_pos (by omega), Option.map_some, Nat.max_eq_left hpos]

/-- Inside a line it is that line, but for the last. -/
theorem lineAt?_of_not_wholeLines (h : ¬ WholeLines before) (hafter : after ≠ []) :
    lineAt? (utf8Length after) (before ++ after) =
      if '\n' ∈ after.dropLast then some (before.count '\n' + 1, lineAround before after)
      else none := by
  obtain ⟨later, htotal, hlast⟩ := exists_length_linesOf before hafter
  have hcount : (linesOf before).length = before.count '\n' + 1 := by
    rw [length_linesOf, if_neg (fun hnil => h (lineStart_eq_nil_iff.mp hnil))]
  rw [lineAt?, beforePosition_utf8Length]
  simp only [hcount, htotal, Nat.add_sub_cancel, getElem?_linesOf before hafter, Option.map_some]
  -- the line is given only if another one comes after it
  by_cases hmore : '\n' ∈ after.dropLast
  · have hlater : later ≠ 0 := fun hzero => hlast.mp hzero hmore
    rw [if_pos (by omega), if_pos hmore, Nat.max_eq_left (by omega)]
  · have hlater : later = 0 := hlast.mpr hmore
    rw [if_neg (by omega), if_neg hmore]

end Descramble
