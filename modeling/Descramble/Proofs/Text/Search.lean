import Descramble.Text.Quoted
import Descramble.Text.Search

/-!
# Searching and splitting a text

A search finds the first place at which a text stands in another, and cutting a text at every such
place loses nothing: with the separator between them the pieces are the text again, and none of them
has a separator in it.

Main statements: `finds_occurrence?`; `intercalate_pieces`, `not_isInfix_of_mem_pieces` and
`head?_pieces`, what the pieces of a text are.
-/

namespace Descramble

/-- The first place from `start` on at which a text stands in another. -/
structure IsFirst (needle t : List Char) (start i : Nat) : Prop where
  start_le : start ≤ i
  add_length_le : i + needle.length ≤ t.length
  occurs : needle <+: t.drop i
  least : ∀ j, start ≤ j → needle <+: t.drop j → i ≤ j

/-- What a search from `start` on comes to: the first place, or `none` if there is no place. -/
def Finds (needle t : List Char) (start : Nat) : Option Nat → Prop
  | some i => IsFirst needle t start i
  | none => ∀ j, start ≤ j → ¬ needle <+: t.drop j

variable {needle separator t s front back piece : List Char} {start i bound : Nat}
  {place : Option Nat}

/-! ## One place -/

/-- Where a text stands, all of it lies before the end. -/
theorem add_length_le_of_occurs (hi : i ≤ t.length) (h : needle <+: t.drop i) :
    i + needle.length ≤ t.length := by
  have hlength := h.length_le
  rw [List.length_drop] at hlength
  omega

/-- A search may begin one place later where the text does not stand. -/
theorem Finds.of_succ (h : Finds needle t (start + 1) place) (hnot : ¬ needle <+: t.drop start) :
    Finds needle t start place := by
  have hlater {j : Nat} (hj : start ≤ j) (hoccurs : needle <+: t.drop j) : start + 1 ≤ j := by
    by_cases heq : j = start
    · exact absurd (heq ▸ hoccurs) hnot
    · omega
  cases place with
  | none => exact fun j hj hoccurs => h j (hlater hj hoccurs) hoccurs
  | some i =>
    exact ⟨Nat.le_of_succ_le h.start_le, h.add_length_le, h.occurs,
      fun j hj hoccurs => h.least j (hlater hj hoccurs) hoccurs⟩

/-- The same, by what is left of the text from the start on. -/
theorem finds_occurrence?_of_drop (hdrop : t.drop start = s) (hstart : start ≤ t.length) :
    Finds needle t start (occurrence? needle start s) := by
  -- by what is left of the text; each round goes on one place later
  induction s generalizing start with
  | nil =>
    unfold occurrence?
    split
    · rename_i hempty
      obtain rfl := List.isEmpty_iff.mp hempty
      exact ⟨Nat.le_refl _, hstart, List.nil_prefix, fun j hj _ => hj⟩
    · rename_i hempty
      intro j hj hoccurs
      have hend : t.length ≤ start := List.drop_eq_nil_iff.mp hdrop
      rw [List.drop_of_length_le (Nat.le_trans hend hj), List.prefix_nil] at hoccurs
      exact hempty (List.isEmpty_iff.mpr hoccurs)
  | cons c s ih =>
    unfold occurrence?
    split
    · rename_i hprefix
      have hoccurs : needle <+: t.drop start := by
        rw [hdrop]
        exact List.isPrefixOf_iff_prefix.mp hprefix
      exact ⟨Nat.le_refl _, add_length_le_of_occurs hstart hoccurs, hoccurs, fun j hj _ => hj⟩
    · rename_i hprefix
      have hnot : ¬ needle <+: t.drop start := by
        rw [hdrop]
        exact fun hoccurs => hprefix (List.isPrefixOf_iff_prefix.mpr hoccurs)
      have hlt : start < t.length := by
        by_cases hlt : start < t.length
        · exact hlt
        · rw [List.drop_of_length_le (Nat.not_lt.mp hlt)] at hdrop
          cases hdrop
      have hrest : t.drop (start + 1) = s := by
        rw [← List.drop_drop, hdrop]
        rfl
      exact (ih hrest hlt).of_succ hnot

/-- A search finds the first place, also where nothing is searched for. -/
theorem finds_occurrence? (hstart : start ≤ t.length) :
    Finds needle t start (occurrence? needle start (t.drop start)) :=
  finds_occurrence?_of_drop rfl hstart

/-- What stands somewhere in a text stands at a place of it. -/
theorem exists_occurs_of_isInfix (h : needle <:+: t) :
    ∃ i, i + needle.length ≤ t.length ∧ needle <+: t.drop i := by
  obtain ⟨front, back, rfl⟩ := h
  refine ⟨front.length, ?_, ?_⟩
  · simp only [List.length_append]
    omega
  · rw [List.append_assoc, List.drop_left]
    exact List.prefix_append needle back

/-! ## One cut -/

/-- A text is cut at the first place where the other stands. -/
theorem cutAt?_eq_some (h : cutAt? needle t = some (front, back)) :
    t = front ++ needle ++ back ∧ IsFirst needle t 0 front.length := by
  obtain ⟨i, hi, hcut⟩ := Option.map_eq_some_iff.mp h
  obtain ⟨rfl, rfl⟩ := Prod.mk.inj hcut
  have hfinds : Finds needle t 0 (occurrence? needle 0 (t.drop 0)) :=
    finds_occurrence? (Nat.zero_le _)
  rw [List.drop_zero, hi] at hfinds
  have hfirst : IsFirst needle t 0 i := hfinds
  have hle : i ≤ t.length := Nat.le_of_add_right_le hfirst.add_length_le
  constructor
  · obtain ⟨rest, hrest⟩ := hfirst.occurs
    have hback : t.drop (i + needle.length) = rest := by
      rw [← List.drop_drop, ← hrest, List.drop_left]
    rw [hback, List.append_assoc, hrest, List.take_append_drop]
  · rwa [List.length_take_of_le hle]

/-- A text that is not cut does not have the other in it. -/
theorem cutAt?_eq_none (h : cutAt? needle t = none) : ¬ needle <:+: t := by
  have hfinds : Finds needle t 0 (occurrence? needle 0 (t.drop 0)) :=
    finds_occurrence? (Nat.zero_le _)
  rw [List.drop_zero, Option.map_eq_none_iff.mp h] at hfinds
  intro hinfix
  obtain ⟨i, -, hoccurs⟩ := exists_occurs_of_isInfix hinfix
  exact hfinds i (Nat.zero_le i) hoccurs

/-- Before the first place, the text does not stand. -/
theorem not_isInfix_of_cutAt? (hneedle : needle ≠ []) (h : cutAt? needle t = some (front, back)) :
    ¬ needle <:+: front := by
  intro hinfix
  obtain ⟨htext, hfirst⟩ := cutAt?_eq_some h
  obtain ⟨i, hi, hoccurs⟩ := exists_occurs_of_isInfix hinfix
  have hpos : 0 < needle.length := List.length_pos_iff.mpr hneedle
  -- it would stand in the whole text too, before its first place
  have hearlier : needle <+: t.drop i := by
    rw [htext, List.append_assoc, List.drop_append_of_le_length (by omega)]
    exact hoccurs.trans (List.prefix_append _ _)
  have hle : front.length ≤ i := hfirst.least i (Nat.zero_le i) hearlier
  omega

/-! ## Up to a mark -/

/-- What stands before a mark has no mark in it. -/
theorem ne_of_mem_takeWhile {c d : Char} {cs : List Char} (h : c ∈ cs.takeWhile (· != d)) :
    c ≠ d := by
  simpa using List.all_eq_true.mp List.all_takeWhile c h

/-- From a mark on, a text is empty or begins with the mark. -/
theorem dropWhile_ne_eq_nil_or (d : Char) (cs : List Char) :
    cs.dropWhile (· != d) = [] ∨ (cs.dropWhile (· != d)).head? = some d := by
  have hstop := List.head?_dropWhile_not (· != d) cs
  cases h : cs.dropWhile (· != d) with
  | nil => exact .inl rfl
  | cons c rest =>
    rw [h] at hstop
    simp_all

/-! ## All pieces -/

/-- There is always a piece. -/
theorem piecesUpTo_ne_nil (separator t : List Char) (bound : Nat) :
    piecesUpTo separator bound t ≠ [] := by
  cases bound with
  | zero => exact List.cons_ne_nil t []
  | succ bound =>
    unfold piecesUpTo
    split <;> exact List.cons_ne_nil _ _

/-- The pieces with the separator between them are the text, however many are looked for. -/
theorem intercalate_piecesUpTo (separator t : List Char) (bound : Nat) :
    separator.intercalate (piecesUpTo separator bound t) = t := by
  -- by how many pieces are still looked for; what is left is a piece in any case
  induction bound generalizing t with
  | zero => exact List.intercalate_singleton
  | succ bound ih =>
    unfold piecesUpTo
    cases hcut : cutAt? separator t with
    | none => exact List.intercalate_singleton
    | some cut =>
      obtain ⟨front, back⟩ := cut
      simp only
      rw [List.intercalate_cons_of_ne_nil (piecesUpTo_ne_nil separator back bound), ih]
      exact (cutAt?_eq_some hcut).1.symm

/-- Where enough pieces are looked for, no separator is left in any. -/
theorem not_isInfix_of_mem_piecesUpTo (hseparator : separator ≠ []) (hbound : t.length ≤ bound)
    (h : piece ∈ piecesUpTo separator bound t) : ¬ separator <:+: piece := by
  induction bound generalizing t with
  | zero =>
    obtain rfl := List.mem_singleton.mp h
    obtain rfl := List.length_eq_zero_iff.mp (Nat.le_zero.mp hbound)
    exact fun hinfix => hseparator (List.infix_nil.mp hinfix)
  | succ bound ih =>
    unfold piecesUpTo at h
    cases hcut : cutAt? separator t with
    | none =>
      rw [hcut] at h
      obtain rfl := List.mem_singleton.mp h
      exact cutAt?_eq_none hcut
    | some cut =>
      obtain ⟨front, back⟩ := cut
      rw [hcut] at h
      rcases List.mem_cons.mp h with rfl | h
      · exact not_isInfix_of_cutAt? hseparator hcut
      · -- a separator takes at least one character, so the rest is shorter
        have hlength := congrArg List.length (cutAt?_eq_some hcut).1
        have hpos : 0 < separator.length := List.length_pos_iff.mpr hseparator
        simp only [List.length_append] at hlength
        exact ih (by omega) h

/-- The pieces of a text with the separator between them are the text. -/
theorem intercalate_pieces (separator t : List Char) :
    separator.intercalate (pieces separator t) = t :=
  intercalate_piecesUpTo separator t t.length

/-- No piece has the separator in it. -/
theorem not_isInfix_of_mem_pieces (hseparator : separator ≠ []) (h : piece ∈ pieces separator t) :
    ¬ separator <:+: piece :=
  not_isInfix_of_mem_piecesUpTo hseparator (Nat.le_refl _) h

/-- The first piece ends where the separator stands first. -/
theorem head?_pieces (hseparator : separator ≠ []) (t : List Char) :
    (pieces separator t).head? = some ((occurrence? separator 0 t).elim t t.take) := by
  unfold pieces
  cases t with
  | nil =>
    have hempty : separator.isEmpty = false := by
      cases separator with
      | nil => exact absurd rfl hseparator
      | cons c rest => rfl
    simp [piecesUpTo, occurrence?, hempty]
  | cons c rest =>
    rw [List.length_cons, piecesUpTo, cutAt?]
    cases occurrence? separator 0 (c :: rest) <;> rfl

/-! ## Joined texts -/

/-- Joining texts puts the separator between them. -/
theorem joined_eq_intercalate (separator : String) (texts : List String) :
    joined separator texts = separator.intercalate texts := by
  induction texts with
  | nil => exact String.intercalate_nil.symm
  | cons text rest ih =>
    cases rest with
    | nil => exact String.intercalate_singleton.symm
    | cons text' rest =>
      have hjoined : joined separator (text :: text' :: rest) =
          text ++ separator ++ joined separator (text' :: rest) := rfl
      rw [hjoined, ih, String.intercalate_cons_cons]

/-- One character after the other, with nothing between them. -/
theorem intercalate_nil_singletons (t : List Char) :
    ([] : List Char).intercalate (t.map fun c => [c]) = t := by
  -- the empty separator adds nothing between two characters
  induction t with
  | nil => rfl
  | cons c rest ih =>
    cases rest with
    | nil => exact List.intercalate_singleton
    | cons c' rest =>
      have hmore : (c' :: rest).map (fun c => [c]) ≠ [] := List.cons_ne_nil _ _
      rw [List.map_cons, List.intercalate_cons_of_ne_nil hmore, ih]
      rfl

end Descramble
