import Descramble.Value.Basic

/-!
# Bindings

Values under names, in the order in which the names came. Putting a value under a name that has one
replaces it in its place.

Main statements: `get?_insert_self`, `get?_insert_of_ne`, `get?_erase_self` and `get?_erase_of_ne`,
a change at one name is seen at that name and at no other.
-/

namespace Descramble

/-- Puts a value under a name in a list of entries. -/
def insertEntry (name : Name) (value : Value) : List (Name × Value) → List (Name × Value)
  | [] => [(name, value)]
  | (other, old) :: rest =>
    if name = other then (name, value) :: rest else (other, old) :: insertEntry name value rest

/-- Names are the new one or one that was there. -/
theorem mem_names_insertEntry {name other : Name} {value : Value} {entries : List (Name × Value)}
    (h : other ∈ (insertEntry name value entries).map Prod.fst) :
    other = name ∨ other ∈ entries.map Prod.fst := by
  induction entries with
  | nil => simpa [insertEntry] using h
  | cons entry rest ih =>
    obtain ⟨first, old⟩ := entry
    -- found at the first entry, which is replaced, or further along
    by_cases heq : name = first
    · simp only [insertEntry, if_pos heq, List.map_cons, List.mem_cons] at h ⊢
      exact h.imp id .inr
    · simp only [insertEntry, if_neg heq, List.map_cons, List.mem_cons] at h ⊢
      rcases h with h | h
      · exact .inr (.inl h)
      · exact (ih h).imp id .inr

/-- No name stands twice: a value that is put under a name replaces the old one. -/
theorem nodup_insertEntry {name : Name} {value : Value} {entries : List (Name × Value)}
    (h : (entries.map Prod.fst).Nodup) :
    ((insertEntry name value entries).map Prod.fst).Nodup := by
  induction entries with
  | nil => simp [insertEntry]
  | cons entry rest ih =>
    obtain ⟨first, old⟩ := entry
    rw [List.map_cons, List.nodup_cons] at h
    by_cases heq : name = first
    · subst heq
      simpa [insertEntry] using h
    · simp only [insertEntry, if_neg heq, List.map_cons, List.nodup_cons]
      -- the first name is not among those of what follows, the new one included
      refine ⟨fun hmem => ?_, ih h.2⟩
      rcases mem_names_insertEntry hmem with hname | hrest
      · exact heq hname.symm
      · exact h.1 hrest

/-- The entry that was put in is the one found. -/
theorem lookup_insertEntry_self (name : Name) (value : Value) (entries : List (Name × Value)) :
    (insertEntry name value entries).lookup name = some value := by
  induction entries with
  | nil => simp [insertEntry]
  | cons entry rest ih =>
    obtain ⟨first, old⟩ := entry
    -- the value is put here, or further along
    by_cases heq : name = first
    · simp [insertEntry, heq]
    · simp [insertEntry, heq, List.lookup_cons, beq_false_of_ne heq, ih]

/-- Other names are looked up past it. -/
theorem lookup_insertEntry_of_ne {name other : Name} (value : Value)
    (entries : List (Name × Value)) (h : other ≠ name) :
    (insertEntry name value entries).lookup other = entries.lookup other := by
  induction entries with
  | nil => simp [insertEntry, List.lookup_cons, beq_false_of_ne h]
  | cons entry rest ih =>
    obtain ⟨first, old⟩ := entry
    -- the entry that is replaced is not the one looked for
    by_cases heq : name = first
    · subst heq
      simp [insertEntry, List.lookup_cons, beq_false_of_ne h]
    · simp [insertEntry, heq, List.lookup_cons, ih]

/-- Values under names. -/
structure Bindings where
  entries : List (Name × Value)
  nodup : (entries.map Prod.fst).Nodup

namespace Bindings

/-- No values at all. -/
def empty : Bindings :=
  ⟨[], .nil⟩

/-- The value under a name. -/
def get? (b : Bindings) (name : Name) : Option Value :=
  b.entries.lookup name

/-- Whether there is a value under a name. -/
def contains (b : Bindings) (name : Name) : Bool :=
  (b.get? name).isSome

/-- Puts a value under a name, in the place of the one that was there. -/
def insert (b : Bindings) (name : Name) (value : Value) : Bindings :=
  ⟨insertEntry name value b.entries, nodup_insertEntry b.nodup⟩

/-- Puts a value under a name unless the name has one. -/
def insertIfNew (b : Bindings) (name : Name) (value : Value) : Bindings :=
  if b.contains name then b else b.insert name value

/-- Takes a name out. -/
def erase (b : Bindings) (name : Name) : Bindings :=
  ⟨b.entries.filter (·.1 != name), b.nodup.sublist (List.filter_sublist.map _)⟩

/-- Nothing is found where there is nothing. -/
@[simp] theorem get?_empty (name : Name) : empty.get? name = none :=
  rfl

/-- A value that is put under a name is found there. -/
@[simp] theorem get?_insert_self (b : Bindings) (name : Name) (value : Value) :
    (b.insert name value).get? name = some value :=
  lookup_insertEntry_self name value b.entries

/-- Nothing changes under other names. -/
theorem get?_insert_of_ne (b : Bindings) (value : Value) {name other : Name} (h : other ≠ name) :
    (b.insert name value).get? other = b.get? other :=
  lookup_insertEntry_of_ne value b.entries h

/-- The value that was there first stays. -/
theorem get?_insertIfNew_self (b : Bindings) (name : Name) (value : Value) :
    (b.insertIfNew name value).get? name = some ((b.get? name).getD value) := by
  unfold insertIfNew contains
  cases h : b.get? name <;> simp [h]

/-- Nothing changes under other names, whether or not the name was new. -/
theorem get?_insertIfNew_of_ne (b : Bindings) (value : Value) {name other : Name}
    (h : other ≠ name) : (b.insertIfNew name value).get? other = b.get? other := by
  unfold insertIfNew
  split
  · rfl
  · exact b.get?_insert_of_ne value h

/-- A name that is taken out has no value any more. -/
@[simp] theorem get?_erase_self (b : Bindings) (name : Name) : (b.erase name).get? name = none := by
  rw [get?, erase, List.lookup_eq_none_iff]
  -- none of the entries that are left has the name
  intro entry h
  have hne := (List.mem_filter.mp h).2
  simpa [bne, Bool.not_eq_true', beq_eq_false_iff_ne, ne_comm] using hne

/-- Nothing changes under other names. -/
theorem get?_erase_of_ne (b : Bindings) {name other : Name} (h : other ≠ name) :
    (b.erase name).get? other = b.get? other := by
  simp only [get?, erase]
  induction b.entries with
  | nil => rfl
  | cons entry rest ih =>
    obtain ⟨first, value⟩ := entry
    -- an entry that is left out is not the one looked for
    by_cases heq : first = name
    · subst heq
      simp [List.lookup_cons, ih, beq_false_of_ne h]
    · simp [List.lookup_cons, ih, heq]

end Bindings

end Descramble
