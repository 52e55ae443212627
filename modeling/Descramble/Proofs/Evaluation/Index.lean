import Descramble.Proofs.Evaluation.Method
import Descramble.Proofs.Number.Plain
import Descramble.Proofs.Value.Property

/-!
# Indices are canonical

An index has one spelling as a key, its decimal numeral. A number that is used as a key spells the
index that it equals in just that way, so an item that is asked for by its index is found among the
items.

Main statement: `listIndex?_canonical`.
-/

namespace Descramble

variable {s : Store} {key : String} {i : Nat}

/-- The indices that keys spell are the values of the canonical numerals. -/
theorem listIndex?_eq_some_iff_isCanonical :
    listIndex? key = some i ↔
      i < 2 ^ 64 ∧ IsCanonical key.toList ∧ Nat.ofDigitChars 10 key.toList 0 = i := by
  -- the reader takes a numeral without a leading zero and refuses values that are too large
  constructor
  · intro h
    obtain ⟨hcanonical, hvalue, hlt⟩ := isCanonical_of_listIndex? h
    exact ⟨hlt, hcanonical, hvalue.symm⟩
  · rintro ⟨hlt, hcanonical, rfl⟩
    exact listIndex?_of_isCanonical hcanonical hlt

/-- A number that equals a natural number below `2 ^ 53` is the key of that index. -/
theorem listIndex?_textOf {x : Number} (hlt : i < 2 ^ 53) (h : x.equals (.ofNat i) = true) :
    listIndex? (s.textOf (.number x)) = some i := by
  have htext : s.textOf (.number x) = toString i := Number.toText_of_equals hlt h
  rw [htext, listIndex?_eq_some_iff]
  exact ⟨rfl, Nat.lt_trans hlt (by decide)⟩

/-- An item is found under every key of its index. -/
theorem getProperty_of_listIndex? {ref : ObjectRef} {items : Array Value}
    (hitems : s.items? (.object ref) = some items) (hkey : listIndex? key = some i)
    (hi : i < items.size) :
    Action.getProperty (.object ref) key s = .done (.ok items[i]) s := by
  obtain ⟨properties, parent, hobject⟩ := Store.exists_object_of_items? hitems
  -- a key of an index is looked up among the items before anything else
  have hget : (s.object ref).get? key = some items[i] := by
    rw [hobject, Object.get?_of_listIndex? hkey, Array.getElem?_eq_getElem hi, Option.some_or]
  show Action.getOfObject ref key s = _
  unfold Action.getOfObject
  rw [Action.read_bind, hget]
  rfl

/-- Keys spell the indices below `2 ^ 64` by their numerals without a zero in front, so no two keys
    spell the same one. The key that a number below `2 ^ 53` is turned into spells the number, and
    an access with the number finds the item. -/
theorem listIndex?_canonical :
    (∀ (key : String) (i : Nat), listIndex? key = some i ↔
      i < 2 ^ 64 ∧ IsCanonical key.toList ∧ Nat.ofDigitChars 10 key.toList 0 = i) ∧
    (∀ (key other : String) (i : Nat),
      listIndex? key = some i → listIndex? other = some i → other = key) ∧
    ∀ (s : Store) (x : Number) (i : Nat), i < 2 ^ 53 → x.equals (.ofNat i) = true →
      s.textOf (.number x) = toString i ∧ listIndex? (s.textOf (.number x)) = some i ∧
      ∀ (ref : ObjectRef) (items : Array Value) (hi : i < items.size),
        s.items? (.object ref) = some items →
        Action.getIndex (.object ref) (.number x) s = .done (.ok items[i]) s := by
  refine ⟨fun _ _ => listIndex?_eq_some_iff_isCanonical, fun _ _ _ => listIndex?_inj, ?_⟩
  intro s x i hlt hx
  -- the text of the number is the numeral, whichever way the number is represented
  have hindex := listIndex?_textOf (s := s) hlt hx
  refine ⟨Number.toText_of_equals hlt hx, hindex, ?_⟩
  intro ref items hi hitems
  exact getProperty_of_listIndex? hitems hindex hi

/-- The second item of an array. -/
theorem listIndex?_canonical_second :
    let s : Store := ⟨#[.list #[.null, .text "b"]], #[]⟩
    listIndex? "1" = some 1 ∧ (∀ other, listIndex? other = some 1 → other = "1") ∧
      1 < 2 ^ 53 ∧ (Number.ofNat 1).equals (.ofNat 1) = true ∧
      s.textOf (.number (.ofNat 1)) = "1" ∧
      Action.getIndex (.object ⟨0⟩) (.number (.ofNat 1)) s = .done (.ok (.text "b")) s := by
  intro s
  obtain ⟨hindex, hinj, htext⟩ := listIndex?_canonical
  have hone : listIndex? "1" = some 1 :=
    (hindex "1" 1).mpr ⟨by decide, isCanonical_toDigits 1, by decide⟩
  have hlt : 1 < 2 ^ 53 := by decide
  have hequals : (Number.ofNat 1).equals (.ofNat 1) = true :=
    Number.equals_iff_rank?.mpr ⟨_, Number.rank?_ofNat hlt.le, Number.rank?_ofNat hlt.le⟩
  obtain ⟨hkey, -, hitem⟩ := htext s (.ofNat 1) 1 hlt hequals
  exact ⟨hone, fun other h => hinj "1" other 1 hone h, hlt, hequals, hkey,
    hitem ⟨0⟩ #[.null, .text "b"] (by decide) rfl⟩

end Descramble
