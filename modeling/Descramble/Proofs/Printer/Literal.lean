import Descramble.Proofs.Printer.Operator

/-!
# Literals and lists are read back

The operands that stand alone or in brackets: names, literals, arrays, objects and the arguments of
a call.

Main statements: `resumes_literal`, `resumes_array`, `resumes_object`, `arguments_text`.
-/

namespace Descramble.Reader

variable {n depth : Nat} {calls isNumber : Bool} {t s mid r r' : List Char} {e target : Expr}

/-! ## Literals and names -/

/-- A word with a fixed meaning that stands for a value. -/
theorem resumes_word {word : String} (hword : word ∈ ["true", "false", "null", "this"])
    (hread : ∀ r r', Follows r r' →
      Production.primary (nested n) (word.toList ++ r) = .ok (e, r')) :
    ResumesAccess n calls word.toList e isNumber := by
  -- none of the four words is `new`, which an access would go on with otherwise
  have hall : ∀ word ∈ ["true", "false", "null", "this"], (∀ c ∈ word.toList, isWordChar c) ∧
      word.toList ≠ "new".toList := by
    decide
  obtain ⟨hchars, hne⟩ := hall word hword
  refine resumes_of_primary (fun r r' hr => ?_) fun r r' _ hr _ => hread r r' hr
  exact keyword_fails_of_keyword hchars (by decide) hne hr.wordEnd

/-- The word `true` is read as its value. -/
theorem primary_true (h : Follows r r') :
    Production.primary (nested n) ("true".toList ++ r) = .ok (.literal (.flag true), r') := by
  refine (primary_of_word (by decide) _).trans ?_
  exact orElse_of_ok (bind_of_ok (keyword_text "true" h))

/-- The word `false` is read as its value. -/
theorem primary_false (h : Follows r r') :
    Production.primary (nested n) ("false".toList ++ r) = .ok (.literal (.flag false), r') := by
  refine (primary_of_word (by decide) _).trans ?_
  refine (orElse_of_fails (Fails.bind ⟨_, rfl⟩ _)).trans ?_
  exact orElse_of_ok (bind_of_ok (keyword_text "false" h))

/-- The word `null` is read as its value. -/
theorem primary_null (h : Follows r r') :
    Production.primary (nested n) ("null".toList ++ r) = .ok (.literal .null, r') := by
  refine (primary_of_word (by decide) _).trans ?_
  refine (orElse_of_fails (Fails.bind ⟨_, rfl⟩ _)).trans ?_
  refine (orElse_of_fails (Fails.bind ⟨_, rfl⟩ _)).trans ?_
  exact orElse_of_ok (bind_of_ok (keyword_text "null" h))

/-- The word `this` is read as the expression that it stands for. -/
theorem primary_this (h : Follows r r') :
    Production.primary (nested n) ("this".toList ++ r) = .ok (.this, r') := by
  refine (primary_of_word (by decide) _).trans ?_
  -- the words that are tried before it fail at their first letter or further on
  refine (orElse_of_fails (Fails.bind ⟨_, rfl⟩ _)).trans ?_
  refine (orElse_of_fails (Fails.bind ⟨_, rfl⟩ _)).trans ?_
  refine (orElse_of_fails (Fails.bind ⟨_, rfl⟩ _)).trans ?_
  exact orElse_of_ok (bind_of_ok (keyword_text "this" h))

/-- The word `this` is read back, and accesses go on from there. -/
theorem resumes_this : ResumesAccess n calls "this".toList .this isNumber :=
  resumes_word (by decide) fun _ _ => primary_this

/-- So is a name. -/
theorem resumes_ident {name : Name} (hname : IsName name) :
    ResumesAccess n calls name.toList (.ident name) isNumber :=
  resumes_of_primary
    (fun _ _ hr => keyword_fails_of_name hname (by decide) (by decide) hr.wordEnd)
    fun _ _ _ hr _ => primary_ident hname hr

/-- A word does not begin with a digit. -/
theorem keyword_fails_of_digit {word : String} {c : Char} (hc : c.isDigit)
    (hword : ∀ c ∈ word.toList.head?, isWordStart c) (hne : word.toList ≠ []) (s : List Char) :
    Fails (keyword word) (c :: s) := by
  -- the word has a first letter, which would have to be the digit
  obtain ⟨w, ws, hws⟩ := List.exists_cons_of_ne_nil hne
  rw [hws] at hword
  refine (exactly_fails hws ?_ s).bind _
  -- the first letter of the word is no digit
  rintro rfl
  rw [isDigit_of_isWordStart (hword w rfl)] at hc
  cases hc

/-- Only a finite number has a text that is read as a number. -/
theorem resumes_number {m : Magnitude} :
    ResumesAccess n calls (Number.finite false m).toText.toList
      (.literal (.number (.finite false m))) true := by
  refine resumes_of_primary (fun r r' _ => ?_) fun r r' _ hr hpoint => ?_
  · obtain ⟨c, cs, hcs, hc, _⟩ := Number.toText_eq_cons m
    rw [hcs]
    exact keyword_fails_of_digit hc (by decide) (by decide) _
  · exact orElse_of_ok (bind_of_ok (number_text hr (hpoint rfl)))

/-- A string is read back in its quotes. -/
theorem resumes_text (value : String) :
    ResumesAccess n calls (Quoted.encode value).toList (.literal (.text value)) isNumber := by
  obtain ⟨cs, hcs⟩ : ∃ cs, (Quoted.encode value).toList = '"' :: cs := by
    unfold Quoted.encode
    rw [String.toList_ofList]
    exact ⟨_, rfl⟩
  refine resumes_of_primary (fun r r' _ => ?_) fun r r' _ hr _ => ?_
  · rw [hcs]
    exact keyword_fails_of_char (by decide) (by decide) (by decide) _
  -- a number is tried before a string, and a quote begins none
  · have hnumber : Fails number ((Quoted.encode value).toList ++ r) := by
      rw [hcs]
      exact number_fails (by decide) (by decide) _
    refine (orElse_of_fails (hnumber.bind _)).trans ?_
    exact orElse_of_ok (bind_of_ok (string_text value hr.gap))

/-- Only a finite number has a text that is read as a number: that of infinity is a name. -/
theorem resumes_literal {value : Literal} (hwf : (Expr.literal value).WellFormed)
    (hfaithful : (Expr.literal value).Faithful) :
    ResumesAccess n calls value.toText.toList (.literal value) (Expr.literal value).isNumber := by
  cases value with
  | number number =>
    cases number with
    | nan => exact hwf.elim
    | infinite negative => cases hfaithful
    | finite negative m =>
      obtain rfl : negative = false := hwf
      exact resumes_number
  | text value => exact resumes_text value
  | flag value =>
    cases value with
    | true => exact resumes_word (by decide) fun _ _ => primary_true
    | false => exact resumes_word (by decide) fun _ _ => primary_false
  | null => exact resumes_word (by decide) fun _ _ => primary_null

/-! ## Lists in brackets -/

/-- Expressions with commas between them, up to a closing bracket. -/
theorem items_text {items : List Expr} (hitems : ∀ e ∈ items, ReadsBack n depth e)
    (closing : String) {c : Char} (hclosing : closing.toList = [c]) (hc : c = ')' ∨ c = ']')
    (hn : ((commaSeparated (Printer.exprs depth items)).toList ++ (closing.toList ++ r)).length < n)
    (hr : skipGap r = .ok r') :
    ∃ s, skipGap ((commaSeparated (Printer.exprs depth items)).toList ++ (closing.toList ++ r)) =
        .ok s ∧
      Production.items (nested n) closing s = .ok (items, r') := by
  have hend : closing.toList ++ r = c :: r := by
    rw [hclosing]
    rfl
  -- neither bracket begins an expression, and neither is the comma
  have hall : c ∈ [')', ']', '\x7d'] ∧ c ∈ endings ∧ c ≠ ',' := by
    rcases hc with rfl | rfl <;> decide
  have hclose := symbol_text closing hr
  rw [hend] at hn hclose ⊢
  -- an empty list is told by its closing bracket, at which no expression begins
  have hempty : Fails (nested n).assignment (c :: r) := by
    rw [List.length_append] at hn
    refine assignment_fails (by omega) fun d hd => ?_
    cases hd
    exact hall.2.1
  rw [exprs_eq_map] at hn ⊢
  obtain ⟨s, hs, hread⟩ := listed_text (fun e he => (hitems e he).item) hall.1 hn hempty
  refine ⟨s, hs, (bind_of_ok hread).trans ?_⟩
  exact (bind_of_ok (trailingComma_text hall.2.2 r)).trans (bind_of_ok hclose)

/-- An array is read back in its brackets. -/
theorem resumes_array {items : List Expr} (hitems : ∀ e ∈ items, ReadsBack n depth e) :
    ResumesAccess n calls (Printer.expr depth (.array items)).toList (.array items) isNumber := by
  rw [Printer.expr]
  refine resumes_of_primary (fun r r' _ => ?_) fun r r' hn hr _ => ?_
  · rw [String.toList_append, String.toList_append]
    exact keyword_fails_of_char (by decide) (by decide) (by decide) _
  -- the text between the brackets is that of the items
  · have htext : ("[" ++ commaSeparated (Printer.exprs depth items) ++ "]").toList ++ r =
        "[".toList ++ ((commaSeparated (Printer.exprs depth items)).toList ++ ("]".toList ++ r)) := by
      simp only [String.toList_append, List.append_assoc]
    rw [htext] at hn ⊢
    rw [List.length_append] at hn
    obtain ⟨s, hs, hread⟩ := items_text hitems "]" rfl (.inr rfl) (by omega) hr.gap
    refine primary_bracket _ ?_
    exact (bind_of_ok (symbol_text "[" hs)).trans (bind_of_ok hread)

/-- The arguments of a call. -/
theorem arguments_text {args : List Expr} (hargs : ∀ e ∈ args, ReadsBack n depth e)
    (hn : ((Printer.parenthesized (commaSeparated (Printer.exprs depth args))).toList ++ r).length <
      n) (hr : skipGap r = .ok r') :
    Production.arguments (nested n)
        ((Printer.parenthesized (commaSeparated (Printer.exprs depth args))).toList ++ r) =
      .ok (args, r') := by
  have htext : (Printer.parenthesized (commaSeparated (Printer.exprs depth args))).toList ++ r =
      "(".toList ++ ((commaSeparated (Printer.exprs depth args)).toList ++ (")".toList ++ r)) := by
    simp only [Printer.parenthesized, String.toList_append, List.append_assoc]
  rw [htext] at hn ⊢
  rw [List.length_append] at hn
  obtain ⟨s, hs, hread⟩ := items_text hargs ")" rfl (.inl rfl) (by omega) hr
  exact (bind_of_ok (symbol_text "(" hs)).trans hread

/-! ## Object literals -/

/-- The text of one property. -/
def propertyText (depth : Nat) (property : Property) : String :=
  property.key.toText ++ ": " ++
    Printer.atLeast 2 property.value.binding (Printer.expr depth property.value)

/-- Each property has its own text. -/
theorem propertyTexts_eq_map (depth : Nat) (properties : List Property) :
    Printer.propertyTexts depth properties = properties.map (propertyText depth) := by
  -- along the list, as the printer goes
  induction properties with
  | nil => rfl
  | cons property properties ih =>
    obtain ⟨key, value⟩ := property
    rw [Printer.propertyTexts, ih, List.map_cons]
    rfl

/-- A key is solid, and it is read up to the colon after it. -/
theorem propertyKey_text {key : PropertyKey} (hkey : key.WellFormed) (hfinite : key.isFinite)
    (r : List Char) :
    Solid (key.toText.toList ++ ':' :: r) ∧
      Production.propertyKey (key.toText.toList ++ ':' :: r) = .ok (key, ':' :: r) := by
  have hfollows : Follows (':' :: r) (':' :: r) := follows_closing (by decide) r
  -- a string is tried first, then a number, then a word, and their first characters are different
  cases key with
  | word name =>
    obtain ⟨c, cs, hcs, hc, hall⟩ := id hkey
    have hread := anyWord_text hkey hfollows
    show Solid (name.toList ++ ':' :: r) ∧ Production.propertyKey (name.toList ++ ':' :: r) = _
    rw [hcs] at hread ⊢
    refine ⟨⟨c, cs ++ ':' :: r, rfl, not_isBlank_of_isWordChar ?_⟩, ?_⟩
    · rw [isWordChar, hc, Bool.true_or]
    · have hstring : Fails string (c :: cs ++ ':' :: r) :=
        string_fails (ne_of_isWordStart hc (by decide)).symm
          (ne_of_isWordStart hc (by decide)).symm _
      have hnumber : Fails number (c :: cs ++ ':' :: r) :=
        number_fails (isDigit_of_isWordStart hc) (ne_of_isWordStart hc (by decide)).symm _
      refine (orElse_of_fails (hstring.bind _)).trans ?_
      refine (orElse_of_fails (hnumber.bind _)).trans ?_
      exact bind_of_ok hread
  | text value =>
    have hread := string_text value hfollows.gap
    refine ⟨?_, orElse_of_ok (bind_of_ok hread)⟩
    show Solid ((Quoted.encode value).toList ++ ':' :: r)
    unfold Quoted.encode
    rw [String.toList_ofList]
    exact ⟨'"', _, rfl, by decide⟩
  | number n =>
    cases n with
    | nan => exact hkey.elim
    | infinite negative => cases hfinite
    | finite negative m =>
      obtain rfl : negative = false := hkey
      have hread : number ((Number.finite false m).toText.toList ++ ':' :: r) =
          .ok (.finite false m, ':' :: r) :=
        number_text hfollows fun c hc => by cases hc; decide
      show Solid ((Number.finite false m).toText.toList ++ ':' :: r) ∧
        Production.propertyKey ((Number.finite false m).toText.toList ++ ':' :: r) = _
      obtain ⟨c, cs, hcs, hc, _⟩ := Number.toText_eq_cons m
      rw [hcs] at hread ⊢
      refine ⟨⟨c, cs ++ ':' :: r, rfl, not_isBlank_of_isWordChar ?_⟩, ?_⟩
      · rw [isWordChar, hc, Bool.or_true]
      · have hdigit (d : Char) (hd : d.isDigit = false) : c ≠ d := by
          rintro rfl
          rw [hc] at hd
          cases hd
        have hstring : Fails string (c :: cs ++ ':' :: r) :=
          string_fails (hdigit '"' (by decide)) (hdigit '\'' (by decide)) _
        refine (orElse_of_fails (hstring.bind _)).trans ?_
        exact orElse_of_ok (bind_of_ok hread)

/-- A property can be an item of a list: its key, a colon and its value. -/
theorem property_text {property : Property} (hkey : property.key.WellFormed)
    (hfinite : property.key.isFinite) (hvalue : ReadsBack n depth property.value) :
    ReadsItem n (Production.property (nested n)) (propertyText depth property).toList property := by
  have htext (r : List Char) : (propertyText depth property).toList ++ r =
      property.key.toText.toList ++ ':' :: (' ' :: ((Printer.atLeast 2 property.value.binding
        (Printer.expr depth property.value)).toList ++ r)) := by
    simp only [propertyText, String.toList_append, List.append_assoc]
    rfl
  constructor
  -- the key, the colon with the blank after it, and the value
  case reads =>
    intro r r' hn hr hstop
    have hgap := hvalue.skipGap_atLeast 2 hr.wordEnd
    rw [htext] at hn ⊢
    simp only [List.length_append, List.length_cons] at hn
    refine (bind_of_ok (propertyKey_text hkey hfinite _).2).trans ?_
    refine (bind_of_ok (symbol_text ":" (follows_blank hgap).gap)).trans ?_
    have hread := (hvalue.atLeast 2).assignment (Nat.le_refl 2) r r'
      (by rw [List.length_append]; omega) hr hstop
    cases property
    exact bind_of_ok hread
  case solid =>
    intro r _
    rw [htext]
    exact (propertyKey_text hkey hfinite _).1

/-- An object literal is read back in its braces. -/
theorem resumes_object {properties : List Property}
    (hkeys : ∀ property ∈ properties, property.key.WellFormed ∧ property.key.isFinite)
    (hvalues : ∀ property ∈ properties, ReadsBack n depth property.value) :
    ResumesAccess n calls (Printer.expr depth (.object properties)).toList (.object properties)
      isNumber := by
  rw [Printer.expr, propertyTexts_eq_map]
  refine resumes_of_primary (fun r r' _ => ?_) fun r r' hn hr _ => ?_
  · rw [String.toList_append, String.toList_append]
    exact keyword_fails_of_char (by decide) (by decide) (by decide) _
  · have htext : ("\x7b" ++ commaSeparated (properties.map (propertyText depth)) ++ "\x7d").toList ++
        r = "\x7b".toList ++ ((commaSeparated (properties.map (propertyText depth))).toList ++
          '\x7d' :: r) := by
      simp only [String.toList_append, List.append_assoc]
      rfl
    rw [htext] at hn ⊢
    rw [List.length_append] at hn
    -- an empty object is told by its closing brace
    have hempty : Fails (Production.property (nested n)) ('\x7d' :: r) := Fails.bind ⟨_, rfl⟩ _
    obtain ⟨s, hs, hread⟩ := listed_text (f := propertyText depth)
      (fun property hmem => property_text (hkeys property hmem).1 (hkeys property hmem).2
        (hvalues property hmem)) (by decide) (by omega) hempty
    refine primary_brace _ ?_
    refine (bind_of_ok (symbol_text "\x7b" hs)).trans ((bind_of_ok hread).trans ?_)
    refine (bind_of_ok (trailingComma_text (by decide) r)).trans ?_
    exact bind_of_ok (symbol_text "\x7d" hr.gap)

end Descramble.Reader
