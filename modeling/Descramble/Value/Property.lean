import Descramble.Value.Conversion

/-!
# Properties

An object keeps its properties under texts. An array keeps those below `2 ^ 24` that are canonical
indices as items, and its length is a property that follows from them. What an object does not have
itself it may inherit from its parent.
-/

namespace Descramble

/-- Arrays keep items up to this length. -/
def maxListLength : Nat :=
  2 ^ 24

/-- The index that a text spells canonically: digits without a leading zero, below `2 ^ 64`. -/
def listIndex? (key : String) : Option Nat :=
  let cs := key.toList
  if cs.isEmpty || !cs.all Char.isDigit || (1 < cs.length && cs.head? == some '0') then none
  else
    let i := Nat.ofDigitChars 10 cs 0
    if i < 2 ^ 64 then some i else none

/-- An array with exactly `len` items: cut off, or filled up with `undefined`. -/
def resize (items : Array Value) (len : Nat) : Array Value :=
  if len ≤ items.size then items.extract 0 len
  else items ++ Array.replicate (len - items.size) .undefined

namespace Object

/-- A property of the object's own. -/
def get? (o : Object) (key : String) : Option Value :=
  match o.kind with
  | .list items =>
    if key = "length" then some (.number (.ofNat items.size))
    else
      match (listIndex? key).bind (items[·]?) with
      | some v => some v
      | none => o.properties.get? key
  | _ => o.properties.get? key

/-- Puts a value under a key, other than the length of an array. An item past the end of an array
    fills the gap before it with `undefined`. -/
def insert (o : Object) (key : String) (value : Value) : Object :=
  match o with
  | ⟨.list items, properties, parent⟩ =>
    match listIndex? key with
    | some i =>
      if i < maxListLength then
        let items := if i < items.size then items else resize items (i + 1)
        ⟨.list (items.setIfInBounds i value), properties, parent⟩
      else ⟨.list items, properties.insert key value, parent⟩
    | none => ⟨.list items, properties.insert key value, parent⟩
  | ⟨kind, properties, parent⟩ => ⟨kind, properties.insert key value, parent⟩

/-- Sets the length of an array. Only a whole number that is not negative is a length, and one above
    the limit changes nothing; `none` for anything else. -/
def setLength? (o : Object) (len : Number) : Option Object :=
  match o with
  | ⟨.list items, properties, parent⟩ =>
    if len.isWhole then
      match len.truncate? with
      | some (.ofNat n) =>
        if n ≤ maxListLength then some ⟨.list (resize items n), properties, parent⟩
        else some ⟨.list items, properties, parent⟩
      | _ => none
    else none
  | _ => none

/-- Removes a property. An item of an array becomes `undefined` and keeps its place. -/
def erase (o : Object) (key : String) : Object :=
  match o with
  | ⟨.list items, properties, parent⟩ =>
    match listIndex? key with
    | some i =>
      if i < items.size then ⟨.list (items.setIfInBounds i .undefined), properties, parent⟩
      else ⟨.list items, properties.erase key, parent⟩
    | none => ⟨.list items, properties.erase key, parent⟩
  | ⟨kind, properties, parent⟩ => ⟨kind, properties.erase key, parent⟩

end Object

namespace Store

/-- Whether a key and an object make the length of an array. -/
def isListLength (s : Store) (ref : ObjectRef) (key : String) : Bool :=
  key == "length" && (s.object ref).isList

/-- Puts a value under a key of an object. -/
def setOwn (s : Store) (ref : ObjectRef) (key : String) (value : Value) : Store :=
  if s.isListLength ref key then
    let len := s.numberOf value
    s.modifyObject ref fun o => (o.setLength? len).getD (o.insert key value)
  else
    s.modifyObject ref (·.insert key value)

/-- Whether a value would make an array longer than arrays can be. -/
def rejectsLength (s : Store) (ref : ObjectRef) (key : String) (value : Value) : Bool :=
  s.isListLength ref key && (Number.ofNat maxListLength).lt (s.numberOf value)

/-- Whether a value has to look at an array to become its length. The array is being written at that
    moment and cannot be read. -/
def conflictsWithLength (s : Store) (ref : ObjectRef) (key : String) (value : Value) : Bool :=
  s.isListLength ref key && s.looksAt value ref

/-- A property of an object or the nearest of its parents, of which at most `bound` are asked. -/
def inheritedWithin (s : Store) (key : String) : Nat → ObjectRef → Option Value
  | 0, _ => none
  | bound + 1, ref =>
    let o := s.object ref
    match o.get? key with
    | some v => some v
    | none =>
      match o.parent with
      | some parent => s.inheritedWithin key bound parent
      | none => none

/-- A property of an object or the nearest of its parents. A parent is older than its children, so
    the number of an object bounds how many it has. -/
def inherited? (s : Store) (ref : ObjectRef) (key : String) : Option Value :=
  s.inheritedWithin key (ref.index + 1) ref

/-- Whether an object is among the next `bound` parents on a chain. -/
def descendsWithin (s : Store) (ancestor : ObjectRef) : Nat → ObjectRef → Bool
  | 0, _ => false
  | bound + 1, ref =>
    match (s.object ref).parent with
    | some parent => parent == ancestor || s.descendsWithin ancestor bound parent
    | none => false

/-- Whether an object has another among its parents. -/
def descendsFrom (s : Store) (ref ancestor : ObjectRef) : Bool :=
  s.descendsWithin ancestor (ref.index + 1) ref

end Store

end Descramble
