import Descramble.CommandLine.Failure
import Descramble.Proofs.Number.Text
import Descramble.Proofs.Reader.Progress
import Descramble.Proofs.Text.Line

/-!
# The line of a failure

The failure of a script that cannot be read names a line and its number. Inside a line that is the
line of the error. At the start of a line, which is where the error of a statement lies that does
not begin, it is the line above; and on the last line of the text it is no line at all, as if the
text were over.

Main statement: `failure_line_of_parse`, when a failure names the line of its error.
-/

namespace Descramble

/-- A line with its number in front. -/
def numbered (number : Nat) (line : List Char) : String :=
  toString number ++ " " ++ String.ofList line

/-- A numbered line is the digits of its number, a blank and the line. -/
theorem toList_numbered (number : Nat) (line : List Char) :
    (numbered number line).toList = Nat.toDigits 10 number ++ ' ' :: line := by
  rw [numbered, String.toList_append, String.toList_append, Nat.toString_eq_repr, Nat.toList_repr,
    @String.toList_ofList line, List.append_assoc]
  rfl

/-- The number of a line is what stands before the first blank. -/
theorem numbered_inj {m n : Nat} {line line' : List Char} :
    numbered m line = numbered n line' ↔ m = n ∧ line = line' := by
  constructor
  · intro h
    have hlist := congrArg String.toList h
    rw [toList_numbered, toList_numbered] at hlist
    -- the digits of the number end at the blank, so both parts can be read off the text
    have hcut (n : Nat) (line : List Char) :
        (Nat.toDigits 10 n ++ ' ' :: line).takeWhile Char.isDigit = Nat.toDigits 10 n ∧
          (Nat.toDigits 10 n ++ ' ' :: line).dropWhile Char.isDigit = ' ' :: line :=
      takeWhile_digits
        (fun c hc => Nat.isDigit_of_mem_toDigits (by decide) (by decide) hc)
        (fun c hc => by cases hc; decide)
    have hdigits : Nat.toDigits 10 m = Nat.toDigits 10 n := by
      rw [← (hcut m line).1, hlist, (hcut n line').1]
    have hrest : ' ' :: line = ' ' :: line' := by
      rw [← (hcut m line).2, hlist, (hcut n line').2]
    -- the digits tell the number
    refine ⟨?_, (List.cons.inj hrest).2⟩
    rw [← @Nat.ofDigitChars_ten_toDigits m, hdigits, Nat.ofDigitChars_ten_toDigits]
  · rintro ⟨rfl, rfl⟩
    rfl

/-- A numbered line is told apart from the mark for the end of a script. -/
theorem numbered_ne_eof (number : Nat) (line : List Char) : numbered number line ≠ "EOF" := by
  intro h
  have hlist := congrArg String.toList h
  rw [toList_numbered] at hlist
  -- the number has a first digit, and the mark begins with a letter
  cases hdigits : Nat.toDigits 10 number with
  | nil => exact Nat.toDigits_ne_nil hdigits
  | cons c cs =>
    have hc : c.isDigit := Nat.isDigit_of_mem_toDigits (by decide) (by decide)
      (hdigits ▸ List.mem_cons_self)
    rw [hdigits, List.cons_append] at hlist
    obtain rfl : c = 'E' := (List.cons.inj hlist).1
    exact absurd hc (by decide)

namespace SyntaxError

variable {e : SyntaxError} {script : String} {before after : List Char}

/-- Where a line is found for the error, the failure names it. -/
theorem line_failure_of_some {number : Nat} {line : List Char}
    (h : lineAt? e.position script.toList = some (number, line)) :
    (e.failure script).line = numbered number line := by
  rw [failure, h]
  rfl

/-- Where none is found, the failure says that the script is over. -/
theorem line_failure_of_none (h : lineAt? e.position script.toList = none) :
    (e.failure script).line = "EOF" := by
  rw [failure, h]

/-- At the start of a script the failure names the first line. -/
theorem line_failure_of_nil (hposition : e.position = utf8Length script.toList)
    (hne : script.toList ≠ []) :
    (e.failure script).line = numbered 1 (lineAround [] script.toList) := by
  apply line_failure_of_some
  rw [hposition]
  exact lineAt?_nil hne

/-- At the start of a later line it names the line above. -/
theorem line_failure_of_wholeLines (htext : script.toList = before ++ after)
    (hposition : e.position = utf8Length after) (hbefore : before ≠ []) (hwhole : WholeLines before)
    (hafter : after ≠ []) : ∃ above, (linesOf before).getLast? = some above ∧
      (e.failure script).line = numbered (before.count '\n') above := by
  obtain ⟨above, habove, hat⟩ := lineAt?_of_wholeLines hbefore hwhole hafter
  refine ⟨above, habove, line_failure_of_some ?_⟩
  rw [htext, hposition, hat]

/-- Inside a line it names that line, unless it is the last. -/
theorem line_failure_of_not_wholeLines (htext : script.toList = before ++ after)
    (hposition : e.position = utf8Length after) (hwhole : ¬ WholeLines before)
    (hafter : after ≠ []) : (e.failure script).line =
      if '\n' ∈ after.dropLast then numbered (before.count '\n' + 1) (lineAround before after)
      else "EOF" := by
  have hat := lineAt?_of_not_wholeLines hwhole hafter
  rw [← htext, ← hposition] at hat
  split at hat
  · rename_i hmore
    rw [line_failure_of_some hat, if_pos hmore]
  · rename_i hlast
    rw [line_failure_of_none hat, if_neg hlast]

end SyntaxError

/-- Each character has a byte at least. -/
theorem utf8Length_pos_iff {cs : List Char} : 0 < utf8Length cs ↔ cs ≠ [] := by
  cases cs with
  | nil => simp [utf8Length_nil]
  | cons c cs =>
    have hc := c.utf8Size_pos
    simp only [utf8Length_cons, ne_eq, reduceCtorEq, not_false_eq_true, iff_true]
    omega

/-- A script that cannot be read fails with the line of the error, its number one more than the line
    ends before the error, if the error lies inside a line that is not the last or at the start of
    the script. At the start of a later line it fails with the line above, and inside the last line
    as at the end of the script. -/
theorem failure_line_of_parse {text : String} {e : SyntaxError} (h : Program.parse text = .error e) :
    ∃ before after, text.toList = before ++ after ∧ e.position = utf8Length after ∧
      beforePosition e.position text.toList = before ∧
      (e.position = 0 → (e.failure text).line = "EOF") ∧
      (0 < e.position → ∃ own, (linesOf text.toList)[before.count '\n']? = some own ∧
        ((e.failure text).line = numbered (before.count '\n' + 1) own ↔
          before = [] ∨ ¬ WholeLines before ∧ '\n' ∈ after.dropLast) ∧
        ((e.failure text).line = "EOF" ↔ ¬ WholeLines before ∧ '\n' ∉ after.dropLast) ∧
        (before ≠ [] → WholeLines before → ∃ above, (linesOf before).getLast? = some above ∧
          (e.failure text).line = numbered (before.count '\n') above)) := by
  -- an error lies at an end of the text, with the rest of it before that
  obtain ⟨after, ⟨before, htext⟩, hposition⟩ := parse_error (.inl h)
  replace htext := htext.symm
  have hbefore : beforePosition e.position text.toList = before := by
    rw [hposition, htext, beforePosition_utf8Length]
  refine ⟨before, after, htext, hposition, hbefore, fun hzero => ?_, fun hpos => ?_⟩
  · exact SyntaxError.line_failure_of_none (hzero ▸ lineAt?_zero text.toList)
  · have hafter : after ≠ [] := utf8Length_pos_iff.mp (hposition ▸ hpos)
    refine ⟨lineAround before after, htext ▸ getElem?_linesOf before hafter, ?_⟩
    -- at the start of the text, at the start of a later line, or inside a line
    by_cases hfirst : before = []
    · subst hfirst
      have hwhole : WholeLines [] := .inl rfl
      rw [List.nil_append] at htext
      have hline : (e.failure text).line = numbered 1 (lineAround [] after) := by
        rw [← htext] at hposition hafter ⊢
        exact SyntaxError.line_failure_of_nil hposition hafter
      rw [hline]
      exact ⟨iff_of_true rfl (.inl rfl), iff_of_false (numbered_ne_eof _ _) fun h => h.1 hwhole,
        fun hne => absurd rfl hne⟩
    · by_cases hwhole : WholeLines before
      · obtain ⟨above, habove, hline⟩ :=
          SyntaxError.line_failure_of_wholeLines htext hposition hfirst hwhole hafter
        rw [hline]
        refine ⟨iff_of_false ?_ ?_, iff_of_false (numbered_ne_eof _ _) fun h => h.1 hwhole,
          fun _ _ => ⟨above, habove, rfl⟩⟩
        · intro hsame
          exact absurd (numbered_inj.mp hsame).1 (by omega)
        · rintro (hnil | ⟨hnot, -⟩)
          · exact hfirst hnil
          · exact hnot hwhole
      · have hline := SyntaxError.line_failure_of_not_wholeLines htext hposition hwhole hafter
        by_cases hmore : '\n' ∈ after.dropLast
        · rw [hline, if_pos hmore]
          exact ⟨iff_of_true rfl (.inr ⟨hwhole, hmore⟩),
            iff_of_false (numbered_ne_eof _ _) fun h => h.2 hmore, fun _ h => absurd h hwhole⟩
        · rw [hline, if_neg hmore]
          refine ⟨iff_of_false (numbered_ne_eof _ _).symm ?_, iff_of_true rfl ⟨hwhole, hmore⟩,
            fun _ h => absurd h hwhole⟩
          rintro (hnil | ⟨-, hlast⟩)
          · exact hfirst hnil
          · exact hmore hlast

/-- A string that a line end breaks off, inside the second of three lines. -/
theorem failure_line_of_parse_brokenString :
    Program.parse "a;\nx = 'abc\nb" = .error ⟨2⟩ ∧
      ∃ own, (linesOf "a;\nx = 'abc\nb".toList)[1]? = some own ∧
        ((SyntaxError.mk 2).failure "a;\nx = 'abc\nb").line = numbered 2 own := by
  have hparse : Program.parse "a;\nx = 'abc\nb" = .error ⟨2⟩ := by decide +kernel
  refine ⟨hparse, ?_⟩
  obtain ⟨before, after, htext, -, hbefore, -, hline⟩ := failure_line_of_parse hparse
  have hcut : "a;\nx = 'abc\nb".toList =
      beforePosition 2 "a;\nx = 'abc\nb".toList ++ "\nb".toList := by decide
  -- the cut at the position of the error is the only one of its kind
  have hafter : after = "\nb".toList := by
    rw [← hbefore] at htext
    exact List.append_cancel_left (htext.symm.trans hcut)
  subst hafter hbefore
  obtain ⟨own, hown, hsame, -⟩ := hline (by decide)
  exact ⟨own, hown, hsame.mpr (.inr (by decide))⟩

/-- At the start of a later line, and on the last line, the failure does not name the line of the
    error. -/
theorem failure_line_of_lineStart :
    Program.parse "a;\n%" = .error ⟨1⟩ ∧
      (linesOf "a;\n%".toList)[1]? = some ['%'] ∧
      ((SyntaxError.mk 1).failure "a;\n%").line = "1 a;" ∧
      Program.parse "x = 'abc" = .error ⟨4⟩ ∧
      (linesOf "x = 'abc".toList)[0]? = some "x = 'abc".toList ∧
      ((SyntaxError.mk 4).failure "x = 'abc").line = "EOF" := by
  decide +kernel

end Descramble
