import Descramble.Proofs.Printer.Token
import Descramble.Proofs.Text.Digits

/-!
# Quoted strings are read back

Each character of a string is written as itself or as an escape that stands for it, so the string
between the quotes is read as it was. The same holds of every text between quotes that spells the
string character by character.

Main statements: `SpelledBy.string`, `string_encode`.
-/

namespace Descramble

/-- The code of a character is read as the character. -/
theorem scalarOf_toNat (c : Char) : scalarOf c.toNat = c := by
  have hvalid : c.toNat.isValidChar := c.valid
  unfold scalarOf
  rw [if_pos hvalid, Char.ofNat_toNat]

/-- A code that is valid is that of the character it is read as. -/
theorem toNat_scalarOf {code : Nat} (h : code.isValidChar) : (scalarOf code).toNat = code := by
  unfold scalarOf
  rw [if_pos h, Char.ofNat, dif_pos h]
  rfl

namespace Reader

/-- As many hexadecimal digits as are asked for, whatever comes after them. -/
theorem hexDigits?_append {count n : Nat} {digits : List Char} (hlength : digits.length = count)
    (hhex : IsHex n digits) (tail : List Char) :
    hexDigits? count (digits ++ tail) = some (n, tail) := by
  obtain ⟨ds, hds, hvalue⟩ := isHex_iff.mp hhex
  have hcheck : ds.length = count := (length_of_mapM_digitIn? hds).trans hlength
  unfold hexDigits?
  rw [← hlength, List.take_left, List.drop_left, hds, Option.bind_eq_bind, Option.bind_some,
    hlength, if_pos hcheck, hvalue]

variable {start done tail text : List Char} {quote c : Char} {bound : Nat}

/-- A text in place of a character between the quotes: it is read as that character, whatever comes
    after it. -/
structure Spells (quote c : Char) (text : List Char) : Prop where
  length_pos : 0 < text.length
  read (start done tail : List Char) (bound : Nat) :
    stringBody start quote (bound + 1) done (text ++ tail) =
      stringBody start quote bound (c :: done) tail

/-- A character that neither ends a string nor starts an escape stands for itself. -/
theorem Spells.plain (hquote : c ≠ quote) (hslash : c ≠ '\\') (hline : c ≠ '\n') :
    Spells quote c [c] where
  length_pos := Nat.zero_lt_one
  read start done tail bound := by
    simp only [List.singleton_append, stringBody, hquote, hslash, hline, if_false]

/-- An escape is read alike after every quote. -/
theorem Spells.of_escape? (hquote : quote ≠ '\\')
    (h : ∀ tail, escape? (text ++ tail) = some (some c, tail)) : Spells quote c ('\\' :: text) where
  length_pos := Nat.zero_lt_succ _
  read start done tail bound := by
    simp only [List.cons_append, stringBody, Ne.symm hquote, if_false, if_true, h]

/-- An escape of two digits for a character below `0x100`. -/
theorem escape?_x (h : c.toNat < 0x100) (tail : List Char) :
    escape? ('x' :: (hexPadded 2 c.toNat ++ tail)) = some (some c, tail) := by
  show (hexDigits? 2 (hexPadded 2 c.toNat ++ tail)).bind
    (fun p => some (some (scalarOf p.1), p.2)) = _
  rw [hexDigits?_append (length_hexPadded (by decide) h) (isHex_hexPadded 2 _), Option.bind_some,
    scalarOf_toNat]

/-- An escape of four digits for one of the two line separators. -/
theorem escape?_u (h : c.toNat = 0x2028 ∨ c.toNat = 0x2029) (tail : List Char) :
    escape? ('u' :: (hexPadded 4 c.toNat ++ tail)) = some (some c, tail) := by
  rcases h with h | h
  · rw [← Char.ofNat_toNat c, h]
    rfl
  · rw [← Char.ofNat_toNat c, h]
    rfl

/-- What a character is written as is read as the character. -/
theorem spells_escape (c : Char) : Spells '"' c (Quoted.escape c) := by
  -- case by case as they are tried: the escapes of one letter, the line separators, the control
  -- characters, and any other character as itself
  unfold Quoted.escape
  by_cases h₁ : c = '"'
  · rw [if_pos h₁, h₁]
    exact .of_escape? (by decide) fun _ => rfl
  rw [if_neg h₁]
  by_cases h₂ : c = '\\'
  · rw [if_pos h₂, h₂]
    exact .of_escape? (by decide) fun _ => rfl
  rw [if_neg h₂]
  by_cases h₃ : c = '\n'
  · rw [if_pos h₃, h₃]
    exact .of_escape? (by decide) fun _ => rfl
  rw [if_neg h₃]
  by_cases h₄ : c = '\r'
  · rw [if_pos h₄, h₄]
    exact .of_escape? (by decide) fun _ => rfl
  rw [if_neg h₄]
  by_cases h₅ : c = '\t'
  · rw [if_pos h₅, h₅]
    exact .of_escape? (by decide) fun _ => rfl
  rw [if_neg h₅]
  by_cases h₆ : c.toNat = 0x2028 ∨ c.toNat = 0x2029
  · rw [if_pos h₆]
    exact .of_escape? (by decide) (escape?_u h₆)
  rw [if_neg h₆]
  by_cases h₇ : c.toNat < 0x20 ∨ c.toNat = 0x7F
  · rw [if_pos h₇]
    exact .of_escape? (by decide) (escape?_x (by omega))
  rw [if_neg h₇]
  exact .plain h₁ h₂ h₃

/-- A text that spells a list item by item, with `p` telling which texts stand for an item. -/
inductive SpelledBy {α : Type} (p : α → List Char → Prop) : List α → List Char → Prop
  | nil : SpelledBy p [] []
  | cons {a : α} {as : List α} {text rest : List Char} (head : p a text)
      (tail : SpelledBy p as rest) : SpelledBy p (a :: as) (text ++ rest)

section SpelledBy

variable {α : Type} {p q : α → List Char → Prop} {as : List α}

/-- Texts that may stand for an item may be allowed more. -/
theorem SpelledBy.imp (himp : ∀ a text, p a text → q a text) (h : SpelledBy p as text) :
    SpelledBy q as text := by
  induction h with
  | nil => exact .nil
  | cons head _ ih => exact .cons (himp _ _ head) ih

/-- The texts of the items, one after the other, spell the list. -/
theorem spelledBy_flatMap {f : α → List Char} (h : ∀ a ∈ as, p a (f a)) :
    SpelledBy p as (as.flatMap f) := by
  induction as with
  | nil => exact .nil
  | cons a as ih =>
    exact .cons (h a List.mem_cons_self) (ih fun b hb => h b (List.mem_cons_of_mem a hb))

/-- Where every item has a text, every list has one. -/
theorem exists_spelledBy (h : ∀ a, ∃ text, p a text) (as : List α) :
    ∃ text, SpelledBy p as text :=
  ⟨as.flatMap fun a => (h a).choose, spelledBy_flatMap fun a _ => (h a).choose_spec⟩

/-- The text of a list is that of its first item and that of the others. -/
theorem SpelledBy.of_cons {a : α} (h : SpelledBy p (a :: as) text) :
    ∃ head rest, text = head ++ rest ∧ p a head ∧ SpelledBy p as rest := by
  cases h with
  | cons head tail => exact ⟨_, _, rfl, head, tail⟩

/-- The text of a single item is the whole text. -/
theorem SpelledBy.of_singleton {a : α} (h : SpelledBy p [a] text) : p a text := by
  obtain ⟨head, rest, rfl, hhead, hrest⟩ := h.of_cons
  cases hrest
  rwa [List.append_nil]

end SpelledBy

/-- Each character takes at least one character, so a string is no longer than its text. -/
theorem SpelledBy.length_le {cs : List Char} (h : SpelledBy (Spells quote) cs text) :
    cs.length ≤ text.length := by
  induction h with
  | nil => exact Nat.le_refl _
  | cons head _ ih =>
    have hhead := head.length_pos
    rw [List.length_cons, List.length_append]
    omega

/-- The body is read character by character, and the bound goes down by one with each. -/
theorem SpelledBy.stringBody {cs : List Char} (h : SpelledBy (Spells quote) cs text)
    (hbound : cs.length < bound) :
    stringBody start quote bound done (text ++ quote :: tail) =
      .ok (String.ofList (done.reverse ++ cs), tail) := by
  obtain ⟨bound, rfl⟩ : ∃ b, bound = b + 1 := ⟨bound - 1, by omega⟩
  -- what is read gathers in front, so the characters come out in order only in the end
  induction h generalizing done bound with
  | nil => simp [Reader.stringBody]
  | cons head _ ih =>
    rw [List.length_cons] at hbound
    obtain ⟨bound, rfl⟩ : ∃ b, bound = b + 1 := ⟨bound - 1, by omega⟩
    rw [List.append_assoc, head.read, ih _ (by omega)]
    simp

/-- A string is read from a text that spells its characters between quotes, and then the gap. -/
theorem SpelledBy.string {value : String} (hquote : quote = '"' ∨ quote = '\'')
    (h : SpelledBy (Spells quote) value.toList text) (r : List Char) :
    string (quote :: (text ++ quote :: r)) = (skipGap r).map fun rest => (value, rest) := by
  have hlength := h.length_le
  unfold Reader.string
  simp only [if_pos hquote]
  -- the bound is the length of what follows the quote, which is enough for all characters
  rw [h.stringBody (by rw [List.length_append]; omega), List.reverse_nil, List.nil_append,
    String.ofList_toList]
  -- what is left is the gap after the string, whose error is passed on
  show (gap >>= fun _ => pure value : Reader String) r = _
  rw [bind_apply]
  unfold gap
  cases skipGap r with
  | ok rest => rfl
  | error e => rfl

/-- A string is read from its quoted text, with the gap after it. -/
theorem string_encode (value : String) (r : List Char) :
    string ((Quoted.encode value).toList ++ r) = (skipGap r).map fun rest => (value, rest) := by
  have htext : (Quoted.encode value).toList ++ r =
      '"' :: (value.toList.flatMap Quoted.escape ++ '"' :: r) := by
    unfold Quoted.encode
    rw [String.toList_ofList, List.cons_append, List.append_assoc]
    rfl
  rw [htext]
  exact (spelledBy_flatMap fun c _ => spells_escape c).string (.inl rfl) r

/-- The same, where the gap after the string is known. -/
theorem string_text (value : String) {r r' : List Char} (h : skipGap r = .ok r') :
    string ((Quoted.encode value).toList ++ r) = .ok (value, r') := by
  rw [string_encode, h]
  rfl

end Reader

end Descramble
