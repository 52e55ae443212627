import Descramble.Proofs.Script.Part
import Descramble.Script.Printer
import Descramble.Text.Word

/-!
# Well-formed trees

Some trees have no text that reads as them: a sequence of one item, a call as the target of an
assignment, a variable named by a reserved word. `Part.WellFormed` says of one part what every part
has that was read from a text.
-/

namespace Descramble

/-- Whether a name is a word, reserved or not. -/
def IsWord (name : Name) : Prop :=
  ∃ c cs, name.toList = c :: cs ∧ isWordStart c ∧ cs.all isWordChar

/-- Whether a name is a word that can name a variable. -/
def IsName (name : Name) : Prop :=
  IsWord name ∧ isReserved name = false

/-- Whether a name is a word can be computed. -/
theorem isWord_iff {name : Name} :
    IsWord name ↔ name.toList.head?.any isWordStart && name.toList.tail.all isWordChar := by
  unfold IsWord
  cases name.toList with
  | nil => simp
  | cons c cs =>
    rw [List.head?_cons, List.tail_cons, Option.any_some, Bool.and_eq_true]
    constructor
    · rintro ⟨d, ds, hcons, h⟩
      cases hcons
      exact h
    · exact fun h => ⟨c, cs, rfl, h⟩

instance decidableIsWord (name : Name) : Decidable (IsWord name) :=
  decidable_of_iff _ isWord_iff.symm

instance decidableIsName (name : Name) : Decidable (IsName name) :=
  inferInstanceAs (Decidable (_ ∧ _))

/-- A name is not a word with a fixed meaning. -/
theorem IsName.ne_keyword {name : Name} {word : String} (h : IsName name)
    (hword : isReserved word) : name.toList ≠ word.toList := by
  intro heq
  -- the name would be reserved, like the word
  rw [String.toList_inj.mp heq] at h
  rw [h.2] at hword
  cases hword

/-- Every character of a word is one that words have. -/
theorem IsWord.all {name : Name} (h : IsWord name) : ∀ c ∈ name.toList, isWordChar c := by
  obtain ⟨c, cs, hcs, hc, hall⟩ := h
  rw [hcs]
  intro d hd
  rcases List.mem_cons.mp hd with rfl | hd
  · unfold isWordChar
    rw [hc, Bool.true_or]
  · exact List.all_eq_true.mp hall d hd

namespace Number

/-- Whether a number can be written as a numeral, possibly one that is too large. -/
def IsNumeral : Number → Prop
  | .nan => False
  | .infinite negative => negative = false
  | .finite negative _ => negative = false

end Number

/-- Whether a key can be written as it is. -/
def PropertyKey.WellFormed : PropertyKey → Prop
  | .word name => IsWord name
  | .text _ => True
  | .number n => n.IsNumeral

/-- Whether a declaration has something to declare, and only names. -/
def Declaration.WellFormed (d : Declaration) : Prop :=
  d.declarators ≠ [] ∧ ∀ declarator ∈ d.declarators, IsName declarator.name

/-- Whether a statement ends in an `if` without an `else`, which a following `else` would be read
    with. -/
def Stmt.endsOpen : Stmt → Bool
  | .ifElse _ _ none => true
  | .ifElse _ _ (some no) => no.endsOpen
  | .forLoop _ _ _ body => body.endsOpen
  | .whileLoop _ body => body.endsOpen
  | _ => false

/-- What an expression has, beyond being of its type, when it was read from a text. -/
def Expr.WellFormed : Expr → Prop
  | .ident name => IsName name
  | .literal (.number n) => n.IsNumeral
  | .object properties => ∀ property ∈ properties, property.key.WellFormed
  | .function name definition =>
    (∀ n ∈ name, IsName n) ∧ ∀ param ∈ definition.params, IsName param
  | .arrow params _ => ∀ param ∈ params, IsName param
  | .member _ name => IsWord name
  | .assign _ target _ => target.isTarget
  | .sequence items => 2 ≤ items.length
  | _ => True

/-- What a statement has, beyond being of its type, when it was read from a text. -/
def Stmt.WellFormed : Stmt → Prop
  | .declare d => d.WellFormed
  | .function name definition => IsName name ∧ ∀ param ∈ definition.params, IsName param
  -- an open `if` inside would take the `else`
  | .ifElse _ yes (some _) => yes.endsOpen = false
  | .forLoop (some (.declare d)) _ _ _ => d.WellFormed
  -- a `try` alone is an error of the reader
  | .attempt _ handler finalizer =>
    (handler ≠ none ∨ finalizer ≠ none) ∧
      ∀ clause ∈ handler, ∀ param ∈ clause.param, IsName param
  | _ => True

/-- What a part has, beyond being of its type, when it was read from a text. -/
def Part.WellFormed : Part → Prop
  | .expr e => e.WellFormed
  | .stmt s => s.WellFormed

end Descramble
