import Descramble.Proofs.Printer.Primary
import Descramble.Proofs.Reader.Production

/-!
# How the text of an expression begins

The first token of an expression says which readers it is not for: it is no gap, none of the words
that statements begin with, and an operator only where the expression binds loosely enough.

Main statements: `lead_expr`, `Lead.plain`, `Lead.leadingWord_ne`.
-/

namespace Descramble

namespace Reader

/-- What kind of token an expression begins with: one that statements do not begin with, an operator
    in front of an operand, or one that statements begin with, too. -/
inductive LeadKind where
  | plain
  | operator
  | ambiguous
deriving DecidableEq

/-- The text begins with a token of an expression. -/
inductive Lead : LeadKind → List Char → Prop where
  | name {name : Name} (hname : IsName name) {r : List Char}
      (hr : ∀ c ∈ r.head?, isWordChar c = false) : Lead .plain (name.toList ++ r)
  | word (word : String) (hword : word ∈ ["true", "false", "null", "this", "new"]) {r : List Char}
      (hr : ∀ c ∈ r.head?, isWordChar c = false) : Lead .plain (word.toList ++ r)
  | digit {c : Char} (hc : c.isDigit) (s : List Char) : Lead .plain (c :: s)
  | mark {c : Char} (hc : c ∈ ['"', '[', '(']) (s : List Char) : Lead .plain (c :: s)
  | operatorWord {word : String} (hword : word ∈ ["typeof", "void", "delete"]) {r : List Char}
      (hr : ∀ c ∈ r.head?, isWordChar c = false) : Lead .operator (word.toList ++ r)
  | operatorMark {c : Char} (hc : c ∈ ['!', '-', '+', '~']) (s : List Char) :
      Lead .operator (c :: s)
  | function {r : List Char} (hr : ∀ c ∈ r.head?, isWordChar c = false) :
      Lead .ambiguous ("function".toList ++ r)
  | brace (s : List Char) : Lead .ambiguous ('\x7b' :: s)

/-! ## What the first token says -/

/-- The text begins with a character that is neither blank nor a slash. -/
def Solid (s : List Char) : Prop :=
  ∃ c cs, s = c :: cs ∧ isBlank c = false ∧ c ≠ '/'

/-- A text that begins with something has no gap in front. -/
theorem Solid.skipGap {s : List Char} (h : Solid s) : skipGap s = .ok s := by
  obtain ⟨c, cs, rfl, hblank, hslash⟩ := h
  exact skipGap_solid hblank hslash cs

/-- A character of words is neither blank nor the beginning of a comment. -/
theorem not_isBlank_of_isWordChar {c : Char} (h : isWordChar c) :
    isBlank c = false ∧ c ≠ '/' := by
  -- by its code: letters, digits and the two marks, none of them a slash
  have hrange : 36 ≤ c.toNat ∧ c.toNat ≤ 122 ∧ c.toNat ≠ 47 := by
    rcases Bool.or_eq_true .. |>.mp h with h | h
    · rcases isWordStart_range h with h | h | rfl | rfl
      · omega
      · omega
      · decide
      · decide
    · have hge : 48 ≤ c.toNat := (Char.isDigit_iff_toNat.mp h).1
      have hle : c.toNat ≤ 57 := (Char.isDigit_iff_toNat.mp h).2
      omega
  constructor
  · exact not_isBlank_of_print (by omega)
  · rintro rfl
    exact absurd hrange (by decide)

variable {kind : LeadKind} {s : List Char}

/-- The marks that an expression can begin with. -/
def leadMarks : List Char :=
  ['"', '[', '(', '!', '-', '+', '~', '\x7b']

/-- The text of an expression begins with a character of words or one of few marks. -/
theorem Lead.head (h : Lead kind s) : ∃ c cs, s = c :: cs ∧ (isWordChar c ∨ c ∈ leadMarks) := by
  have hword {w : String} (hw : ∃ c cs, w.toList = c :: cs ∧ isWordChar c) (r : List Char) :
      ∃ c cs, w.toList ++ r = c :: cs ∧ (isWordChar c ∨ c ∈ leadMarks) := by
    obtain ⟨c, cs, hcs, hc⟩ := hw
    exact ⟨c, cs ++ r, by rw [hcs]; rfl, .inl hc⟩
  -- token by token, each with the character it begins with
  cases h with
  | name hname hr =>
    obtain ⟨⟨c, cs, hcs, hc, _⟩, _⟩ := hname
    exact hword ⟨c, cs, hcs, by rw [isWordChar, hc, Bool.true_or]⟩ _
  | word _ hw hr =>
    simp only [List.mem_cons, List.not_mem_nil, or_false] at hw
    rcases hw with rfl | rfl | rfl | rfl | rfl <;> exact hword ⟨_, _, rfl, by decide⟩ _
  | digit hc s => exact ⟨_, s, rfl, .inl (by rw [isWordChar, hc, Bool.or_true])⟩
  | mark hc s =>
    simp only [List.mem_cons, List.not_mem_nil, or_false] at hc
    rcases hc with rfl | rfl | rfl <;> exact ⟨_, s, rfl, .inr (by decide)⟩
  | operatorWord hw hr =>
    simp only [List.mem_cons, List.not_mem_nil, or_false] at hw
    rcases hw with rfl | rfl | rfl <;> exact hword ⟨_, _, rfl, by decide⟩ _
  | operatorMark hc s =>
    simp only [List.mem_cons, List.not_mem_nil, or_false] at hc
    rcases hc with rfl | rfl | rfl | rfl <;> exact ⟨_, s, rfl, .inr (by decide)⟩
  | function hr => exact hword ⟨_, _, rfl, by decide⟩ _
  | brace s => exact ⟨_, s, rfl, .inr (by decide)⟩

/-- The text of an expression begins with no gap. -/
theorem Lead.solid (h : Lead kind s) : Solid s := by
  obtain ⟨c, cs, hs, hc⟩ := h.head
  refine ⟨c, cs, hs, ?_⟩
  rcases hc with hc | hc
  · exact not_isBlank_of_isWordChar hc
  · have hall : ∀ c ∈ leadMarks, isBlank c = false ∧ c ≠ '/' := by decide
    exact hall c hc

/-- A mark that no expression begins with is not read from the text of one. -/
theorem Lead.symbol_fails (h : Lead kind s) {mark : String} {t : Char} {ts : List Char}
    (ht : mark.toList = t :: ts) (hword : isWordChar t = false) (hmark : t ∉ leadMarks) :
    Fails (symbol mark) s := by
  obtain ⟨c, cs, rfl, hc⟩ := h.head
  refine Reader.symbol_fails ?_
  rw [ht]
  refine if_neg ?_
  rintro rfl
  -- the first character is one of words, or one of the marks, but not this one
  rcases hc with hc | hc
  · rw [hc] at hword
    cases hword
  · exact hmark hc

/-- The words that no expression begins with. -/
def statementWords : List String :=
  ["break", "case", "catch", "const", "continue", "default", "else", "finally", "for", "if", "let",
   "return", "switch", "throw", "try", "var", "while"]

/-- The words that a text which begins with a token of the kind does not begin with. -/
def LeadKind.excluded : LeadKind → List String
  | .plain => "function" :: "typeof" :: "void" :: "delete" :: statementWords
  | .operator => "function" :: statementWords
  | .ambiguous => "typeof" :: "void" :: "delete" :: statementWords

/-- The words that are excluded are reserved words, so no name is one of them. -/
theorem LeadKind.excluded_letter : ∀ kind : LeadKind, ∀ word ∈ kind.excluded,
    (∀ c ∈ word.toList, isWordChar c) ∧ word.toList ≠ [] ∧
      (∀ c ∈ word.toList.head?, isWordStart c) ∧ isReserved word := by
  intro kind
  -- the lists are short enough to be gone through
  cases kind <;> decide

/-- The word goes on with its first character. -/
theorem leadingWord_cons {c : Char} (hc : isWordChar c) (s : List Char) :
    leadingWord (c :: s) = c :: leadingWord s :=
  List.takeWhile_cons_of_pos hc

/-- The text of an expression does not begin with a word that is excluded for its kind. -/
theorem Lead.leadingWord_ne (h : Lead kind s) {word : String} (hword : word ∈ kind.excluded) :
    leadingWord s ≠ word.toList := by
  obtain ⟨_, hne, hletter, hreserved⟩ := kind.excluded_letter word hword
  -- the token is another word, or a mark and no word at all
  have hother {other : String} (hall : ∀ c ∈ other.toList, isWordChar c)
      (hother : other.toList ≠ word.toList) {r : List Char}
      (hr : ∀ c ∈ r.head?, isWordChar c = false) :
      leadingWord (other.toList ++ r) ≠ word.toList := by
    rw [(leadingWord_append hall hr).1]
    exact hother
  have hmark {c : Char} (hc : isWordChar c = false) (s : List Char) :
      leadingWord (c :: s) ≠ word.toList := by
    rw [leadingWord_cons_of_not hc]
    exact hne.symm
  cases h with
  | name hname hr => exact hother hname.1.all (hname.ne_keyword hreserved) hr
  | word _ hw hr =>
    have hcheck : ∀ w ∈ ["true", "false", "null", "this", "new"],
        (∀ c ∈ w.toList, isWordChar c) ∧
          ∀ word ∈ LeadKind.plain.excluded, w.toList ≠ word.toList := by
      decide
    exact hother (hcheck _ hw).1 ((hcheck _ hw).2 word hword) hr
  | digit hc s =>
    -- a word that begins with a digit is none of them
    rw [leadingWord_cons (by rw [isWordChar, hc, Bool.or_true])]
    intro heq
    rw [← heq] at hletter
    rw [isDigit_of_isWordStart (hletter _ rfl)] at hc
    cases hc
  | mark hc s =>
    have hall : ∀ c ∈ ['"', '[', '('], isWordChar c = false := by decide
    exact hmark (hall _ hc) s
  | operatorWord hw hr =>
    have hcheck : ∀ w ∈ ["typeof", "void", "delete"], (∀ c ∈ w.toList, isWordChar c) ∧
        ∀ word ∈ LeadKind.operator.excluded, w.toList ≠ word.toList := by
      decide
    exact hother (hcheck _ hw).1 ((hcheck _ hw).2 word hword) hr
  | operatorMark hc s =>
    have hall : ∀ c ∈ ['!', '-', '+', '~'], isWordChar c = false := by decide
    exact hmark (hall _ hc) s
  | function hr =>
    have hcheck : ∀ word ∈ LeadKind.ambiguous.excluded, "function".toList ≠ word.toList := by
      decide
    exact hother (by decide) (hcheck word hword) hr
  | brace s => exact hmark (by decide) s

/-- So no such word is read from it. -/
theorem Lead.keyword_fails (h : Lead kind s) {word : String} (hword : word ∈ kind.excluded) :
    Fails (keyword word) s :=
  Reader.keyword_fails (kind.excluded_letter word hword).1 (h.leadingWord_ne hword)

/-- Only an operator begins with the mark of one. -/
theorem Lead.head_ne (h : Lead kind s) (hkind : kind ≠ .operator) :
    ∀ c ∈ s.head?, c ∉ ['!', '-', '+', '~'] := by
  have hword {w : String} (hw : ∀ c ∈ w.toList.head?, isWordChar c) (hne : w.toList ≠ [])
      (r : List Char) : ∀ c ∈ (w.toList ++ r).head?, c ∉ ['!', '-', '+', '~'] := by
    obtain ⟨d, ds, hds⟩ := List.exists_cons_of_ne_nil hne
    rw [hds] at hw ⊢
    intro c hc hmem
    have hall : ∀ c ∈ ['!', '-', '+', '~'], isWordChar c = false := by decide
    cases hc
    have := hw d rfl
    rw [hall d hmem] at this
    cases this
  -- what begins with an operator is excluded, and no other token begins with such a mark
  cases h with
  | name hname hr =>
    obtain ⟨⟨c, cs, hcs, hc, _⟩, _⟩ := id hname
    refine hword (fun d hd => hname.1.all d (List.mem_of_mem_head? hd)) ?_ _
    rw [hcs]
    exact List.cons_ne_nil c cs
  | word _ hw hr =>
    have hcheck : ∀ w ∈ ["true", "false", "null", "this", "new"],
        (∀ c ∈ w.toList.head?, isWordChar c) ∧ w.toList ≠ [] := by
      decide
    exact hword (hcheck _ hw).1 (hcheck _ hw).2 _
  | digit hc s =>
    rintro c hc' hmem
    have hall : ∀ c ∈ ['!', '-', '+', '~'], c.isDigit = false := by decide
    cases hc'
    rw [hall _ hmem] at hc
    cases hc
  | mark hc s =>
    have hall : ∀ c ∈ ['"', '[', '('], c ∉ ['!', '-', '+', '~'] := by decide
    rintro c hc'
    cases hc'
    exact hall _ hc
  | operatorWord hw hr => exact absurd rfl hkind
  | operatorMark hc s => exact absurd rfl hkind
  | function hr => exact hword (by decide) (by decide) _
  | brace s =>
    rintro c hc'
    cases hc'
    decide

/-- Only an object literal begins with a brace. -/
theorem Lead.head_ne_brace (h : Lead kind s) (hkind : kind ≠ .ambiguous) :
    ∀ c ∈ s.head?, c ≠ '\x7b' := by
  have hword {w : String} (hw : w.toList ≠ []) (hhead : '\x7b' ∉ w.toList.head?) (r : List Char) :
      ∀ c ∈ (w.toList ++ r).head?, c ≠ '\x7b' := by
    obtain ⟨d, ds, hds⟩ := List.exists_cons_of_ne_nil hw
    rw [hds] at hhead ⊢
    rintro c hc rfl
    exact hhead hc
  -- a brace is no character of words and none of the other marks
  cases h with
  | name hname hr =>
    obtain ⟨⟨c, cs, hcs, hc, _⟩, _⟩ := id hname
    refine hword (by rw [hcs]; exact List.cons_ne_nil c cs) ?_ _
    rw [hcs]
    exact fun hbrace => ne_of_isWordStart hc (by decide) (Option.some.inj hbrace).symm
  | word _ hw hr =>
    have hcheck : ∀ w ∈ ["true", "false", "null", "this", "new"],
        w.toList ≠ [] ∧ '\x7b' ∉ w.toList.head? := by
      decide
    exact hword (hcheck _ hw).1 (hcheck _ hw).2 _
  | digit hc s =>
    rintro c hc' rfl
    cases hc'
    cases hc
  | mark hc s =>
    have hall : ∀ c ∈ ['"', '[', '('], c ≠ '\x7b' := by decide
    rintro c hc'
    cases hc'
    exact hall _ hc
  | operatorWord hw hr =>
    have hcheck : ∀ w ∈ ["typeof", "void", "delete"], w.toList ≠ [] ∧ '\x7b' ∉ w.toList.head? := by
      decide
    exact hword (hcheck _ hw).1 (hcheck _ hw).2 _
  | operatorMark hc s =>
    have hall : ∀ c ∈ ['!', '-', '+', '~'], c ≠ '\x7b' := by decide
    rintro c hc'
    cases hc'
    exact hall _ hc
  | function hr => exact absurd rfl hkind
  | brace s => exact absurd rfl hkind

/-- No operator stands in front of the operand. -/
theorem Lead.plain (h : Lead kind s) (hkind : kind ≠ .operator) : Plain s := by
  have hhead := h.head_ne hkind
  obtain ⟨c, cs, rfl, _⟩ := h.head
  have hc := hhead c rfl
  simp only [List.mem_cons, List.not_mem_nil, or_false, not_or] at hc
  have hmark (mark : String) {t : Char} {ts : List Char} (ht : mark.toList = t :: ts)
      (hne : c ≠ t) : afterStart? mark.toList (c :: cs) = none := by
    rw [ht]
    exact if_neg hne.symm
  -- the three operators that are words are among the words excluded
  have hkeyword {word : String} (hword : word ∈ ["typeof", "void", "delete"]) :
      Fails (keyword word) (c :: cs) := by
    refine h.keyword_fails ?_
    cases kind with
    | operator => exact absurd rfl hkind
    | plain =>
      have hall : ∀ w ∈ ["typeof", "void", "delete"], w ∈ LeadKind.plain.excluded := by decide
      exact hall word hword
    | ambiguous =>
      have hall : ∀ w ∈ ["typeof", "void", "delete"], w ∈ LeadKind.ambiguous.excluded := by decide
      exact hall word hword
  constructor
  · exact .orElse ((operator_fails (hmark "!" rfl hc.1)).bind _) <|
      .orElse ((operator_fails (hmark "-" rfl hc.2.1)).bind _) <|
      .orElse ((operator_fails (hmark "+" rfl hc.2.2.1)).bind _) <|
      .orElse ((operator_fails (hmark "~" rfl hc.2.2.2)).bind _) <|
      .orElse ((hkeyword (by decide)).bind _) <|
      .orElse ((hkeyword (by decide)).bind _) <| (hkeyword (by decide)).bind _
  · exact .orElse ((Reader.symbol_fails (hmark "++" rfl hc.2.2.1)).bind _)
      ((Reader.symbol_fails (hmark "--" rfl hc.2.1)).bind _)

/-- What the text of an expression begins with, for an expression that binds at least as tightly as
    `least`. -/
def Leads (least : Nat) (ambiguous : Bool) (t : List Char) : Prop :=
  ∀ r, (∀ c ∈ r.head?, isWordChar c = false) → ∃ kind, Lead kind (t ++ r) ∧
    (15 ≤ least → kind ≠ .operator) ∧ (ambiguous = false → kind ≠ .ambiguous)

/-- A text that begins plainly whatever comes after it. -/
theorem leads_plain {least : Nat} {ambiguous : Bool} {t : List Char}
    (h : ∀ r, (∀ c ∈ r.head?, isWordChar c = false) → Lead .plain (t ++ r)) :
    Leads least ambiguous t :=
  fun r hr => ⟨.plain, h r hr, (fun _ h => by cases h), fun _ h => by cases h⟩

/-- An operator in front is ruled out for tight expressions only, so it may be for others. -/
theorem Leads.mono {least least' : Nat} {ambiguous : Bool} {t : List Char}
    (h : Leads least ambiguous t) (hleast : 15 ≤ least' → 15 ≤ least) :
    Leads least' ambiguous t := by
  intro r hr
  obtain ⟨kind, hlead, hoperator, hambiguous⟩ := h r hr
  exact ⟨kind, hlead, fun h => hoperator (hleast h), hambiguous⟩

/-- A text that goes on after the text of its first part, but not with a word. -/
theorem Leads.append {least least' : Nat} {ambiguous : Bool} {t u : List Char}
    (h : Leads least ambiguous t) (hu : ∃ c cs, u = c :: cs ∧ isWordChar c = false)
    (hleast : 15 ≤ least' → 15 ≤ least) : Leads least' ambiguous (t ++ u) := by
  intro r hr
  obtain ⟨c, cs, rfl, hc⟩ := hu
  obtain ⟨kind, hlead, hoperator, hambiguous⟩ := h (c :: cs ++ r) fun d hd => by
    cases hd
    exact hc
  rw [← List.append_assoc] at hlead
  exact ⟨kind, hlead, fun h => hoperator (hleast h), hambiguous⟩

/-- Parentheses are one plain token. -/
theorem leads_parenthesized (least : Nat) {ambiguous : Bool} (text : String) :
    Leads least ambiguous (Printer.parenthesized text).toList := by
  refine leads_plain fun r hr => ?_
  unfold Printer.parenthesized
  rw [String.toList_append, String.toList_append]
  exact Lead.mark (by decide) _

/-- An operand begins as its expression does, or with the parenthesis that it needs. -/
theorem leads_atLeast (least : Nat) {binding : Nat} {ambiguous : Bool} {text : String}
    (h : Leads binding ambiguous text.toList) :
    Leads least ambiguous (Printer.atLeast least binding text).toList := by
  unfold Printer.atLeast
  -- with parentheses, or as the expression itself, which then binds tightly enough
  split
  · exact leads_parenthesized least text
  · exact h.mono fun hleast => by omega

/-- A literal begins plainly. -/
theorem leads_literal {value : Literal} (h : (Expr.literal value).WellFormed) :
    Leads 18 false value.toText.toList := by
  refine leads_plain fun r hr => ?_
  cases value with
  | number n =>
    cases n with
    | nan => exact h.elim
    -- infinity is written as a name
    | infinite negative =>
      have hname : IsName "Infinity" :=
        ⟨⟨'I', "nfinity".toList, rfl, by decide, by decide⟩, by decide⟩
      obtain rfl : negative = false := h
      exact Lead.name hname hr
    | finite negative m =>
      obtain rfl : negative = false := h
      obtain ⟨c, cs, hcs, hc, _⟩ := Number.toText_eq_cons m
      show Lead .plain ((Number.finite false m).toText.toList ++ r)
      rw [hcs]
      exact Lead.digit hc _
  | text s =>
    show Lead .plain ((Quoted.encode s).toList ++ r)
    unfold Quoted.encode
    rw [String.toList_ofList]
    exact Lead.mark (by decide) _
  | flag b =>
    cases b with
    | true => exact Lead.word "true" (by decide) hr
    | false => exact Lead.word "false" (by decide) hr
  | null => exact Lead.word "null" (by decide) hr

/-- An operator that is a mark or a word, in front of its operand. -/
theorem leads_unaryText (op : UnaryOp) (arg : String) :
    Leads 14 false (Printer.unaryText op arg).toList := by
  intro r hr
  refine ⟨.operator, ?_, fun h => absurd h (by decide), fun _ h => by cases h⟩
  unfold Printer.unaryText
  have hblank {c : Char} {s : List Char} : ∀ d ∈ (' ' :: s).head?, isWordChar d = false := by
    intro d hd
    cases hd
    decide
  cases op with
  | not | negate | plus | bitNot =>
    split <;>
      · simp only [String.toList_append]
        exact Lead.operatorMark (by decide) _
  -- a word is followed by a blank, so that it ends there
  | typeOf | void | delete =>
    rw [if_pos (by rfl)]
    simp only [String.toList_append, List.append_assoc]
    exact Lead.operatorWord (by decide) (hblank (c := ' '))

/-- The parameters of an arrow function: a single one stands without parentheses. -/
def arrowParams : List Name → String
  | [param] => param
  | params => Printer.parameterList params

/-- The text of an arrow function is that of its parameters, the arrow and the body. -/
theorem expr_arrow (depth : Nat) (params : List Name) (body : ArrowBody) :
    Printer.expr depth (.arrow params body) =
      arrowParams params ++ " => " ++ Printer.arrowBody depth body := by
  unfold Printer.expr
  -- only a single parameter is written without parentheses
  match params with
  | [] => rfl
  | [param] => rfl
  | param :: other :: params => rfl

/-- An arrow function begins with a name or a parenthesis. -/
theorem leads_arrowParams {params : List Name} (h : ∀ param ∈ params, IsName param)
    {u : List Char} (hu : ∃ c cs, u = c :: cs ∧ isWordChar c = false) {least : Nat} :
    Leads least false ((arrowParams params).toList ++ u) := by
  obtain ⟨c, cs, rfl, hc⟩ := hu
  unfold arrowParams
  -- a single name, or parentheses
  split
  · rename_i param
    refine leads_plain fun r hr => ?_
    rw [List.append_assoc]
    refine Lead.name (h param List.mem_cons_self) fun d hd => ?_
    cases hd
    exact hc
  · exact (leads_parenthesized least _).append ⟨c, cs, rfl, hc⟩ id

/-- A text that goes on as its first part begins. -/
theorem starts_append {text : String} (rest : String)
    (h : ∃ c cs, text.toList = c :: cs ∧ isWordChar c = false) :
    ∃ c cs, (text ++ rest).toList = c :: cs ∧ isWordChar c = false := by
  obtain ⟨c, cs, hcs, hc⟩ := h
  exact ⟨c, cs ++ rest.toList, by rw [String.toList_append, hcs, List.cons_append], hc⟩

/-- Parentheses begin with a mark. -/
theorem starts_parenthesized (text : String) :
    ∃ c cs, (Printer.parenthesized text).toList = c :: cs ∧ isWordChar c = false :=
  starts_append _ (starts_append _ ⟨'(', [], rfl, by decide⟩)

/-- After the word `function` comes a blank or the list of the parameters. -/
theorem functionHead_starts (name : Option Name) (params : List Name) :
    ∃ c cs, (Printer.functionHead name params).toList = "function".toList ++ c :: cs ∧
      isWordChar c = false := by
  -- with a name there is a blank, without one a parenthesis
  cases name with
  | none =>
    obtain ⟨c, cs, hcs, hc⟩ := starts_parenthesized (commaSeparated params)
    refine ⟨c, cs ++ [' '], ?_, hc⟩
    simp only [Printer.functionHead, Printer.parameterList, String.toList_append, hcs]
    rfl
  | some name =>
    refine ⟨' ', name.toList ++ (Printer.parameterList params ++ " ").toList, ?_, by decide⟩
    simp only [Printer.functionHead, String.toList_append, List.append_assoc]
    rfl

/-- The object of an access; a number stands in parentheses, so that the point is not its own. -/
def accessed (depth : Nat) (object : Expr) : String :=
  if object.isNumber then Printer.parenthesized (Printer.expr depth object)
  else Printer.atLeast 17 object.binding (Printer.expr depth object)

/-- The text of an access by name. -/
theorem expr_member (depth : Nat) (target : Expr) (name : Name) :
    Printer.expr depth (.member target name) = accessed depth target ++ "." ++ name := by
  rw [Printer.expr]
  rfl

/-- The text of an access by a computed key. -/
theorem expr_index (depth : Nat) (target key : Expr) :
    Printer.expr depth (.index target key) =
      accessed depth target ++ "[" ++ Printer.expr depth key ++ "]" := by
  rw [Printer.expr]
  rfl

/-- The object of an access begins as its expression does, or with a parenthesis. -/
theorem leads_accessed {depth : Nat} {object : Expr}
    (h : Leads object.binding object.startsAmbiguously (Printer.expr depth object).toList) :
    Leads 17 object.startsAmbiguously (accessed depth object).toList := by
  unfold accessed
  split
  · exact leads_parenthesized 17 _
  · exact leads_atLeast 17 h

/-- The text of an expression begins with a token of an expression. -/
theorem leads_expr (depth : Nat) (e : Expr) (he : e.Sound) :
    Leads e.binding e.startsAmbiguously (Printer.expr depth e).toList := by
  induction e using Part.expr_induction with
  | step e ih =>
    have hinside {other : Expr} (hmem : .expr other ∈ e.inner) :
        Leads other.binding other.startsAmbiguously (Printer.expr depth other).toList :=
      ih other hmem (he.inside hmem)
    clear ih
    -- an expression leads with its own first token, or with that of its leftmost part
    cases e with
    | ident name => exact leads_plain fun r hr => Lead.name he.here hr
    | literal value => exact leads_literal he.here
    | this => exact leads_plain fun r hr => Lead.word "this" (by decide) hr
    | array items =>
      refine leads_plain fun r hr => ?_
      rw [Printer.expr, String.toList_append, String.toList_append]
      exact Lead.mark (by decide) _
    | object properties =>
      intro r hr
      -- a brace at the start of a statement opens a block, so its text may not start one
      refine ⟨.ambiguous, ?_, (fun _ h => by cases h), fun h => by cases h⟩
      rw [Printer.expr, String.toList_append, String.toList_append]
      exact Lead.brace _
    | function name definition =>
      intro r hr
      refine ⟨.ambiguous, ?_, (fun _ h => by cases h), fun h => by cases h⟩
      rw [Printer.expr]
      obtain ⟨c, cs, hhead, hc⟩ := functionHead_starts name definition.params
      rw [String.toList_append, hhead, List.append_assoc, List.append_assoc]
      refine Lead.function fun d hd => ?_
      cases hd
      exact hc
    | arrow params body =>
      rw [expr_arrow, String.append_assoc, String.toList_append]
      exact leads_arrowParams he.here (starts_append _ ⟨' ', _, rfl, by decide⟩)
    | call callee args =>
      rw [Printer.expr, String.toList_append]
      -- parentheses hide what the callee starts with
      exact (leads_atLeast 17 (hinside List.mem_cons_self)).append
        (starts_parenthesized _) fun _ => by decide
    | construct callee args =>
      rw [Printer.expr]
      simp only [String.toList_append, List.append_assoc]
      refine leads_plain fun r hr => Lead.word "new" (by decide) ?_
      rintro c hc
      cases hc
      decide
    | member target name =>
      rw [expr_member, String.append_assoc, String.toList_append]
      exact (leads_accessed (hinside List.mem_cons_self)).append
        (starts_append _ ⟨'.', _, rfl, by decide⟩) id
    | index target key =>
      rw [expr_index, String.append_assoc, String.append_assoc, String.toList_append]
      exact (leads_accessed (hinside List.mem_cons_self)).append
        (starts_append _ ⟨'[', _, rfl, by decide⟩) id
    | assign op target value =>
      rw [Printer.expr, String.append_assoc, String.append_assoc, String.append_assoc,
        String.toList_append]
      exact (leads_atLeast 17 (hinside List.mem_cons_self)).append
        (starts_append _ ⟨' ', _, rfl, by decide⟩) fun _ => by decide
    | logical op left right | binary op left right =>
      rw [Printer.expr, String.append_assoc, String.append_assoc, String.append_assoc,
        String.toList_append]
      exact (leads_atLeast _ (hinside List.mem_cons_self)).append
        (starts_append _ ⟨' ', _, rfl, by decide⟩) id
    | unary op arg =>
      rw [Printer.expr]
      exact leads_unaryText op _
    | update op before arg =>
      -- only an operator written before its operand comes first
      cases before with
      | true =>
        rw [Printer.expr, String.toList_append]
        intro r hr
        refine ⟨.operator, ?_, fun h => absurd (show 15 ≤ 14 from h) (by decide),
          fun _ h => by cases h⟩
        cases op <;> exact Lead.operatorMark (by decide) _
      | false =>
        rw [Printer.expr, String.toList_append]
        refine (leads_atLeast 17 (hinside List.mem_cons_self)).append ?_
          fun _ => by decide
        cases op <;> exact ⟨_, _, rfl, by decide⟩
    | conditional test yes no =>
      rw [Printer.expr]
      simp only [String.append_assoc]
      rw [String.toList_append]
      exact (leads_atLeast 4 (hinside List.mem_cons_self)).append
        (starts_append _ ⟨' ', _, rfl, by decide⟩)
        fun h => absurd (show 15 ≤ 3 from h) (by decide)
    | sequence items =>
      -- a sequence has a second item, so a comma follows the first
      have hlength : 2 ≤ items.length := he.here
      obtain ⟨first, items, rfl⟩ := List.exists_cons_of_length_pos (by omega : 0 < items.length)
      obtain ⟨second, items, rfl⟩ : ∃ second rest, items = second :: rest :=
        List.exists_cons_of_length_pos (by rw [List.length_cons] at hlength; omega)
      rw [Printer.expr, Printer.exprs, Printer.exprs, commaSeparated, joined,
        String.append_assoc, String.toList_append]
      case x_1 => exact List.cons_ne_nil _ _
      exact (leads_atLeast 2 (hinside List.mem_cons_self)).append
        (starts_append _ ⟨',', _, rfl, by decide⟩)
        fun h => absurd (show 15 ≤ 1 from h) (by decide)

end Reader

end Descramble
