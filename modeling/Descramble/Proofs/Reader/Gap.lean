import Descramble.Proofs.Reader.Progress
import Descramble.Proofs.Text.Search

/-!
# Gaps

A gap is made of blanks, of line comments up to the end of their line, and of block comments up to
the first mark that closes them. What is skipped at the front of a text is the longest gap there,
and only an open block comment after it is an error. So a text is read the same with a gap in front.

Main statement: `parse_gaps`.
-/

namespace Descramble

namespace Reader

/-- The gaps that may stand in front of a text. A line comment goes on up to a line end or to the
    end of the text. -/
inductive Gap (after : List Char) : List Char → Prop
  | nil : Gap after []
  | blank {c g} (hc : isBlank c) (h : Gap after g) : Gap after (c :: g)
  | line {text g} (htext : '\n' ∉ text) (hend : ∀ c ∈ (g ++ after).head?, c = '\n')
      (h : Gap after g) : Gap after ('/' :: '/' :: (text ++ g))
  | block {text g} (htext : ¬ "*/".toList <:+: text) (h : Gap after g) :
      Gap after ('/' :: '*' :: (text ++ '*' :: '/' :: g))

/-- The gaps that end by themselves: every line comment has its line end in them. -/
inductive ClosedGap : List Char → Prop
  | nil : ClosedGap []
  | blank {c g} (hc : isBlank c) (h : ClosedGap g) : ClosedGap (c :: g)
  | line {text g} (htext : '\n' ∉ text) (h : ClosedGap g) :
      ClosedGap ('/' :: '/' :: (text ++ '\n' :: g))
  | block {text g} (htext : ¬ "*/".toList <:+: text) (h : ClosedGap g) :
      ClosedGap ('/' :: '*' :: (text ++ '*' :: '/' :: g))

/-- Whether a text begins with a block comment that is not closed. -/
def BeginsOpen (s : List Char) : Prop :=
  ∃ text, s = '/' :: '*' :: text ∧ ¬ "*/".toList <:+: text

/-- Whether a text begins with neither a blank nor a comment. -/
def BeginsSolid (s : List Char) : Prop :=
  (∀ c ∈ s.head?, isBlank c = false) ∧ ¬ "//".toList <+: s ∧ ¬ "/*".toList <+: s

variable {s g after rest text : List Char}

/-- A gap that ends by itself may stand in front of every text. -/
theorem ClosedGap.gap (h : ClosedGap g) (after : List Char) : Gap after g := by
  induction h with
  | nil => exact .nil
  | blank hc _ ih => exact .blank hc ih
  | line htext _ ih => exact .line htext (by simp) (.blank (by decide) ih)
  | block htext _ ih => exact .block htext ih

/-! ## Comments -/

/-- A line comment ends at the line end, which is left to the gap behind it. -/
theorem skipLine_append (htext : '\n' ∉ text) (hend : ∀ c ∈ s.head?, c = '\n') :
    skipLine (text ++ s) = skipGap s := by
  induction text with
  | nil =>
    -- a line comment may also end with the text
    cases s with
    | nil => rfl
    | cons c s =>
      obtain rfl := hend c rfl
      rw [List.nil_append, skipGap_blank (by decide)]
      rfl
  | cons c text ih =>
    rw [List.mem_cons, not_or] at htext
    rw [List.cons_append, skipLine, if_neg (Ne.symm htext.1), ih htext.2]

/-- A block comment goes on behind a character that does not close it. -/
theorem skipBlock_cons {start : List Char} {c : Char} (h : ¬ "*/".toList <+: c :: s) :
    skipBlock start (c :: s) = skipBlock start s := by
  rw [skipBlock.eq_def]
  split
  · rename_i heq
    cases heq
  · rename_i rest heq
    exact absurd ⟨rest, heq.symm⟩ h
  · rename_i heq
    obtain ⟨-, rfl⟩ := List.cons.inj heq
    rfl

/-- It ends at the first mark that closes it. -/
theorem skipBlock_append {start : List Char} (htext : ¬ "*/".toList <:+: text) :
    skipBlock start (text ++ '*' :: '/' :: s) = skipGap s := by
  induction text with
  | nil => rfl
  | cons c text ih =>
    have hnot : ¬ "*/".toList <+: c :: (text ++ '*' :: '/' :: s) := by
      -- the mark would have to stand in the text, since the closing one begins with a star
      rintro ⟨tail, htail⟩
      obtain ⟨rfl, hrest⟩ := List.cons.inj htail
      cases text with
      | nil => exact absurd (List.cons.inj hrest).1 (by decide)
      | cons d text =>
        obtain ⟨rfl, -⟩ := List.cons.inj hrest
        exact htext ⟨[], text, rfl⟩
    rw [List.cons_append, skipBlock_cons hnot, ih]
    exact fun h => htext (h.trans (List.suffix_cons c text).isInfix)

/-- Without such a mark it is an error at its start. -/
theorem skipBlock_open {start : List Char} (h : ¬ "*/".toList <:+: s) :
    skipBlock start s = .error ⟨start, true⟩ := by
  induction s with
  | nil => rfl
  | cons c s ih =>
    rw [skipBlock_cons fun hprefix => h hprefix.isInfix, ih]
    exact fun hfound => h (hfound.trans (List.suffix_cons c s).isInfix)

/-! ## The longest gap -/

/-- A gap is skipped, whatever stands behind it. -/
theorem skipGap_append (h : Gap after g) : skipGap (g ++ after) = skipGap after := by
  -- on the gap, piece by piece: what is behind a piece is a shorter gap and the same text after it
  induction h with
  | nil => rfl
  | blank hc _ ih => rw [List.cons_append, skipGap_blank hc, ih]
  | @line text g htext hend _ ih =>
    show skipLine ((text ++ g) ++ after) = _
    rw [List.append_assoc, skipLine_append htext hend, ih]
  | @block text g htext _ ih =>
    show skipBlock _ ((text ++ '*' :: '/' :: g) ++ after) = _
    rw [List.append_assoc, List.cons_append, List.cons_append, skipBlock_append htext, ih]

/-- A text that begins with an open block comment is an error at its start. -/
theorem BeginsOpen.skipGap (h : BeginsOpen s) : skipGap s = .error ⟨s, true⟩ := by
  obtain ⟨text, rfl, hopen⟩ := h
  exact skipBlock_open hopen

/-- A text that begins with neither a blank nor a comment is left as it is. -/
theorem BeginsSolid.skipGap (h : BeginsSolid s) : skipGap s = .ok s := by
  obtain ⟨hblank, hline, hblock⟩ := h
  rw [skipGap.eq_def]
  split
  · rfl
  · rename_i rest
    exact absurd ⟨rest, rfl⟩ hline
  · rename_i rest
    exact absurd ⟨rest, rfl⟩ hblock
  · rename_i c rest _ _
    rw [if_neg]
    simp [hblank c rfl]

/-- Every text begins with a gap after which no further one comes. -/
theorem exists_gap (s : List Char) :
    ∃ g rest, s = g ++ rest ∧ Gap rest g ∧ (BeginsOpen rest ∨ BeginsSolid rest) := by
  -- by the length of the text, as each piece of a gap leaves a shorter one
  induction hlength : s.length using Nat.strongRecOn generalizing s with
  | ind n ih =>
    subst hlength
    by_cases hsolid : BeginsSolid s
    · exact ⟨[], s, rfl, .nil, .inr hsolid⟩
    by_cases hline : "//".toList <+: s
    · -- the comment goes on up to the end of its line
      obtain ⟨t, rfl⟩ := hline
      obtain ⟨text, back, rfl, htext, hend⟩ : ∃ text back, t = text ++ back ∧ '\n' ∉ text ∧
          (back = [] ∨ back.head? = some '\n') :=
        ⟨_, _, List.takeWhile_append_dropWhile.symm, fun hmem => ne_of_mem_takeWhile hmem rfl,
          dropWhile_ne_eq_nil_or '\n' t⟩
      obtain ⟨g, rest, rfl, hgap, hstop⟩ := ih back.length (by simp; omega) back rfl
      refine ⟨'/' :: '/' :: (text ++ g), rest, by simp, .line htext ?_ hgap, hstop⟩
      rcases hend with hnil | hhead
      · simp [hnil]
      · simp [hhead]
    by_cases hblock : "/*".toList <+: s
    · obtain ⟨t, rfl⟩ := hblock
      -- the comment is open, or it ends at the first mark that closes it
      cases hcut : cutAt? "*/".toList t with
      | none => exact ⟨[], _, rfl, .nil, .inl ⟨t, rfl, cutAt?_eq_none hcut⟩⟩
      | some cut =>
        obtain ⟨text, back⟩ := cut
        obtain ⟨rfl, -⟩ := cutAt?_eq_some hcut
        obtain ⟨g, rest, rfl, hgap, hstop⟩ := ih back.length (by simp; omega) back rfl
        refine ⟨'/' :: '*' :: (text ++ '*' :: '/' :: g), rest, by simp, ?_, hstop⟩
        exact .block (not_isInfix_of_cutAt? (by decide) hcut) hgap
    · -- what is neither solid nor a comment begins with a blank
      cases s with
      | nil => exact absurd ⟨by simp, hline, hblock⟩ hsolid
      | cons c s =>
        have hc : isBlank c = true := by
          cases hblank : isBlank c with
          | true => rfl
          | false => exact absurd ⟨by simpa using hblank, hline, hblock⟩ hsolid
        obtain ⟨g, rest, rfl, hgap, hstop⟩ := ih s.length (by simp) s rfl
        exact ⟨c :: g, rest, rfl, .blank hc hgap, hstop⟩

/-- No gap in front of a text is longer than the one that is skipped. -/
theorem isPrefix_of_gap {g' rest' : List Char} (h : Gap rest g)
    (hstop : BeginsOpen rest ∨ BeginsSolid rest) (h' : Gap rest' g')
    (heq : g ++ rest = g' ++ rest') : g' <+: g := by
  -- skipping goes over both gaps, so it comes to the same place behind them
  have hskip : skipGap rest' = skipGap rest := by
    rw [← skipGap_append h', ← heq, skipGap_append h]
  have hsuffix : rest <:+ rest' := by
    rcases hstop with hopen | hsolid
    · exact skipGap_error (hskip.trans hopen.skipGap)
    · exact skipGap_suffix (hskip.trans hsolid.skipGap)
  have hlength := congrArg List.length heq
  rw [List.length_append, List.length_append] at hlength
  have := hsuffix.length_le
  apply List.prefix_of_prefix_length_le (List.prefix_append g' rest')
  · rw [← heq]
    exact List.prefix_append g rest
  · omega

end Reader

/-! ## Whole texts -/

section

open Reader

variable {α : Type} {reader : Nat → Reader α} {g t : String}

/-- A whole text is read the same with a gap in front, since the count does not matter as long as
    it is above the length of what is read. -/
theorem readWhole_of_gap
    (hreader : ∀ n m s, s.length < n → s.length < m → reader n s = reader m s)
    (h : Gap t.toList g.toList) : readWhole reader (g ++ t) = readWhole reader t := by
  have hread (n m : Nat) (hn : t.toList.length < n) (hm : t.toList.length < m) :
      (do gap; reader n : Reader α) (g.toList ++ t.toList) = (do gap; reader m) t.toList := by
    rw [bind_apply, bind_apply]
    unfold gap
    rw [skipGap_append h]
    -- the counts differ, but both are above what is left
    cases hskip : skipGap t.toList with
    | error e => rfl
    | ok rest =>
      have hle := (skipGap_suffix hskip).length_le
      exact hreader n m rest (by omega) (by omega)
  have hlt : t.toList.length < (g.toList ++ t.toList).length + 1 := by
    rw [List.length_append]
    omega
  unfold readWhole
  dsimp only
  rw [String.toList_append, hread _ (t.toList.length + 1) hlt (Nat.lt_succ_self _)]

/-- An open block comment after a gap is an error there. -/
theorem readWhole_of_beginsOpen {rest : List Char} (h : Gap rest g.toList)
    (hopen : BeginsOpen rest) :
    readWhole reader (g ++ String.ofList rest) = .error ⟨utf8Length rest⟩ := by
  unfold readWhole
  dsimp only
  rw [String.toList_append, String.toList_ofList, bind_apply]
  unfold gap
  rw [skipGap_append h, hopen.skipGap]

/-- The statements of a text are read with any count above its length. -/
theorem many_statement_congr (n m : Nat) (s : List Char) (hn : s.length < n) (hm : s.length < m) :
    (do return ⟨← many (statement n) n⟩ : Reader Program) s =
      (do return ⟨← many (statement m) m⟩ : Reader Program) s := by
  have halike : (nested n).Alike (s.length + 1) (nested m) := nested_alike hn hm
  have hbody : many (statement n) n s = many (statement m) m s :=
    (Takes.statements.alike halike).same s (Nat.lt_succ_self _)
  rw [bind_apply, bind_apply, hbody]

end

/-- What is skipped at the front of a text is the longest gap there. After it an open block comment
    is an error, also of the whole script, and anything else begins with neither a blank nor a
    comment. So a script with a gap in front is read as the script. -/
theorem parse_gaps :
    (∀ s : List Char, ∃ g rest, s = g ++ rest ∧ Reader.Gap rest g ∧
      (∀ g' rest', s = g' ++ rest' → Reader.Gap rest' g' → g' <+: g) ∧
      (Reader.BeginsOpen rest → Reader.gap s = .error ⟨rest, true⟩ ∧
        Program.parse (String.ofList s) = .error ⟨utf8Length rest⟩) ∧
      (¬ Reader.BeginsOpen rest → Reader.gap s = .ok ((), rest) ∧ Reader.BeginsSolid rest)) ∧
    ∀ g t : String, Reader.ClosedGap g.toList → Program.parse (g ++ t) = Program.parse t := by
  constructor
  · intro s
    -- the gap is found first, and then shown to be what is skipped
    obtain ⟨g, rest, rfl, hgap, hstop⟩ := Reader.exists_gap s
    have hskip := Reader.skipGap_append hgap
    refine ⟨g, rest, rfl, hgap, fun g' rest' heq h' => Reader.isPrefix_of_gap hgap hstop h' heq,
      fun hopen => ⟨?_, ?_⟩, fun hopen => ?_⟩
    · unfold Reader.gap
      rw [hskip, hopen.skipGap]
    · rw [String.ofList_append]
      exact readWhole_of_beginsOpen (by rwa [String.toList_ofList]) hopen
    · have hsolid := hstop.resolve_left hopen
      refine ⟨?_, hsolid⟩
      unfold Reader.gap
      rw [hskip, hsolid.skipGap]
  · intro g t h
    exact readWhole_of_gap many_statement_congr (h.gap t.toList)

/-- A star and a slash that share no character close a block comment, and a line end closes a line
    comment. -/
theorem parse_gaps_comments :
    Reader.ClosedGap "/*/*/ // é\n".toList ∧
      Program.parse ("/*/*/ // é\n" ++ "x = 'a\n") = Program.parse "x = 'a\n" ∧
      Program.parse "x = 'a\n" = .error ⟨1⟩ := by
  have hgap : Reader.ClosedGap "/*/*/ // é\n".toList :=
    @Reader.ClosedGap.block ['/'] _ (by decide) (.blank (by decide)
      (@Reader.ClosedGap.line [' ', 'é'] _ (by decide) .nil))
  exact ⟨hgap, parse_gaps.2 _ _ hgap, by decide +kernel⟩

end Descramble
