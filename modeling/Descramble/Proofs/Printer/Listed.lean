import Descramble.Proofs.Printer.Written

/-!
# Lists are read back

A list is written with a comma and a blank between its items. It is read item by item, and it ends
where neither a comma nor anything that goes on with the last item comes next.

Main statements: `sepBy1_text`, `sepBy_text`.
-/

namespace Descramble.Reader

variable {α : Type} {n : Nat} {p : Reader α} {f : α → String} {items : List α}
  {r r' : List Char}

/-- A text that can be an item of a list: it is read as the item where a comma follows, and no gap
    is in front of it. -/
structure ReadsItem (n : Nat) (p : Reader α) (t : List Char) (a : α) : Prop where
  reads : ReadsAs n 2 p t a
  solid : ∀ r, (∀ c ∈ r.head?, isWordChar c = false) → Solid (t ++ r)

/-- The text of the items after the first. -/
def afterCommas (f : α → String) (items : List α) : List Char :=
  items.flatMap fun a => ',' :: ' ' :: (f a).toList

/-- The text of a list is that of its first item and what comes after the commas. -/
theorem toList_commaSeparated (f : α → String) (a : α) (items : List α) :
    (commaSeparated ((a :: items).map f)).toList = (f a).toList ++ afterCommas f items := by
  induction items generalizing a with
  | nil => exact (List.append_nil _).symm
  | cons b items ih =>
    have hjoined : commaSeparated ((a :: b :: items).map f) =
        f a ++ ", " ++ commaSeparated ((b :: items).map f) :=
      rfl
    rw [hjoined, String.toList_append, String.toList_append, ih, List.append_assoc]
    rfl

/-- There is at least a character for every item after the first. -/
theorem length_le_afterCommas (f : α → String) (items : List α) :
    items.length ≤ (afterCommas f items).length := by
  unfold afterCommas
  induction items with
  | nil => exact Nat.le_refl 0
  | cons a items ih =>
    rw [List.flatMap_cons, List.length_append, List.length_cons, List.length_cons,
      List.length_cons]
    omega

/-- The items after the first, from where the gap after the first has been read. -/
theorem manyAfter_text (bound : Nat) (hitems : ∀ a ∈ items, ReadsItem n p (f a).toList a)
    (hbound : items.length ≤ bound) (hn : (afterCommas f items ++ r).length < n)
    (hr : Follows r r') (hstop : Stops 1 r') :
    ∃ mid, Follows (afterCommas f items ++ r) mid ∧ Stops 2 mid ∧
      manyAfter (symbol ",") p bound mid = .ok (items, r') := by
  -- from the last item on, since an item ends where a comma or the end of the list follows
  induction items generalizing bound with
  | nil =>
    have hcomma : Fails (symbol ",") r' := hstop.comma (by decide)
    exact ⟨r', hr, hstop.mono (by decide), many_of_fails (hcomma.bind _) bound⟩
  | cons a items ih =>
    rw [List.length_cons] at hbound
    obtain ⟨bound, rfl⟩ : ∃ b, bound = b + 1 := ⟨bound - 1, by omega⟩
    have htext : afterCommas f (a :: items) ++ r =
        ",".toList ++ ' ' :: ((f a).toList ++ (afterCommas f items ++ r)) := by
      simp only [afterCommas, List.flatMap_cons, List.cons_append, List.append_assoc]
      rfl
    rw [htext] at hn ⊢
    simp only [List.length_append, List.length_cons] at hn
    obtain ⟨mid, hmid, hstop', hmany⟩ := ih bound (fun b hb => hitems b (List.mem_cons_of_mem a hb))
      (Nat.le_of_succ_le_succ hbound) (by rw [List.length_append]; omega)
    obtain ⟨hreads, hsolid⟩ := hitems a List.mem_cons_self
    -- after the comma comes a blank, and an item has no gap in front
    have hgap := (skipGap_blank (c := ' ') (by decide) _).trans (hsolid _ hmid.wordEnd).skipGap
    refine ⟨_, follows_closing (by decide) _, stops_comma _, many_of_ok ?_ hmany⟩
    exact (bind_of_ok (symbol_text "," hgap)).trans
      (hreads _ mid (by simp only [List.length_append]; omega) hmid hstop')

/-- A list of at least one item. -/
theorem sepBy1_text {a : α} (bound : Nat) (hitems : ∀ b ∈ a :: items, ReadsItem n p (f b).toList b)
    (hbound : items.length ≤ bound)
    (hn : ((commaSeparated ((a :: items).map f)).toList ++ r).length < n)
    (hr : Follows r r') (hstop : Stops 1 r') :
    sepBy1 (symbol ",") p bound ((commaSeparated ((a :: items).map f)).toList ++ r) =
      .ok (a :: items, r') := by
  rw [toList_commaSeparated, List.append_assoc] at hn ⊢
  obtain ⟨mid, hmid, hstop', hmany⟩ :=
    manyAfter_text bound (fun b hb => hitems b (List.mem_cons_of_mem a hb)) hbound
      (by rw [List.length_append] at hn; omega) hr hstop
  exact sepBy1_of_ok ((hitems a List.mem_cons_self).reads _ mid hn hmid hstop') hmany

/-- A list that may be empty: then its reader must not take what follows for an item. -/
theorem sepBy_text (bound : Nat) (hitems : ∀ a ∈ items, ReadsItem n p (f a).toList a)
    (hbound : items.length ≤ bound)
    (hn : ((commaSeparated (items.map f)).toList ++ r).length < n)
    (hr : Follows r r') (hstop : Stops 1 r') (hfails : Fails p r') :
    ∃ s, skipGap ((commaSeparated (items.map f)).toList ++ r) = .ok s ∧
      sepBy (symbol ",") p bound s = .ok (items, r') := by
  cases items with
  | nil => exact ⟨r', hr.gap, sepBy_of_fails hfails⟩
  | cons a items =>
    rw [toList_commaSeparated, List.append_assoc] at hn ⊢
    rw [List.length_cons] at hbound
    obtain ⟨mid, hmid, hstop', hmany⟩ :=
      manyAfter_text bound (fun b hb => hitems b (List.mem_cons_of_mem a hb)) (by omega)
        (by rw [List.length_append] at hn; omega) hr hstop
    obtain ⟨hreads, hsolid⟩ := hitems a List.mem_cons_self
    exact ⟨_, (hsolid _ hmid.wordEnd).skipGap, sepBy_of_ok (hreads _ mid hn hmid hstop') hmany⟩

/-- A list up to its closing bracket. -/
theorem listed_text (hitems : ∀ a ∈ items, ReadsItem n p (f a).toList a) {c : Char}
    (hc : c ∈ [')', ']', '\x7d'])
    (hn : ((commaSeparated (items.map f)).toList ++ c :: r).length < n)
    (hfails : Fails p (c :: r)) :
    ∃ s, skipGap ((commaSeparated (items.map f)).toList ++ c :: r) = .ok s ∧
      sepBy (symbol ",") p n s = .ok (items, c :: r) := by
  -- the bound on the items is at least their number, since each has a character
  have hbound : items.length ≤ n := by
    cases items with
    | nil => exact Nat.zero_le n
    | cons a items =>
      have := length_le_afterCommas f items
      rw [toList_commaSeparated] at hn
      simp only [List.length_append, List.length_cons] at hn ⊢
      omega
  have hall : ∀ c ∈ [')', ']', '\x7d'], c ∈ endings ∧ c ∈ closings := by decide
  obtain ⟨hending, hclosing⟩ := hall c hc
  exact sepBy_text n hitems hbound hn (follows_closing hending r)
    ((stops_closing hclosing r).mono (by decide)) hfails

/-- Where no comma comes next there is no trailing one. -/
theorem trailingComma_text {c : Char} (hc : c ≠ ',') (r : List Char) :
    trailingComma (c :: r) = .ok ((), c :: r) := by
  have hcomma : Fails (symbol ",") (c :: r) := symbol_fails (if_neg hc.symm)
  exact bind_of_ok (optional_of_fails hcomma)

end Descramble.Reader
