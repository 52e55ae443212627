import Descramble.Pattern.Basic
import Descramble.Proofs.Script.Renaming

/-!
# Patterns that are blind to names

A pattern can see a name in two ways: through the field of an identifier that holds it, and as a
child of an identifier. A blind pattern names no such field, and asks only for children of a kind, so
it accepts a renamed tree exactly when it accepts the tree.

Main statement: `Pattern.accepts_rename`.
-/

namespace Descramble.Pattern

/-- Whether a pattern asks for a node of a certain kind, which no primitive has. -/
def asksKind : Pattern → Bool
  | .exact kind _ => kind.isSome
  | _ => false

mutual

/-- Whether a pattern cannot see names. -/
def isBlind : Pattern → Bool
  | .exact _ fields => fieldsBlind fields
  | .literal _ | .wildcard => true
  | .anyOf options => allBlind options
  | .contains required => required.all asksKind && allBlind required
  | .sequence items => allBlind items

def allBlind : List Pattern → Bool
  | [] => true
  | p :: ps => p.isBlind && allBlind ps

def fieldsBlind : List (NodeField × Pattern) → Bool
  | [] => true
  | (f, p) :: rest => f != .name && p.isBlind && fieldsBlind rest

end

variable (r : Name → Name)

/-- A text has no kind, so a pattern that asks for one does not accept it. -/
theorem accepts_text_of_asksKind {p : Pattern} (h : p.asksKind) (s : String) :
    p.accepts (.text s) = false := by
  cases p with
  | exact kind fields =>
    obtain ⟨kind, rfl⟩ := Option.isSome_iff_exists.mp h
    rfl
  | _ => cases h

/-- Only the name itself is another child of a renamed node. -/
theorem children_rename (n : Node) :
    (n.rename r).children = n.children.map (Node.rename r) ∨
      ∃ name, n.children = [.text name] ∧ (n.rename r).children = [.text (r name)] := by
  -- an identifier is the only kind of node whose children are its name
  have hfields (kind : NodeKind) (hkind : kind ≠ .identifier) :
      ∀ f ∈ Node.fieldsOfKind kind, f ≠ .name := by
    cases kind <;> first | decide | exact absurd rfl hkind
  have hchildren (kind : NodeKind) (hitems : n.items? = none) (hk : n.kind? = some kind)
      (hkind : kind ≠ .identifier) : (n.rename r).children = n.children.map (Node.rename r) := by
    have hitems' : (n.rename r).items? = none := by rw [Node.items?_rename, hitems]; rfl
    have hk' : (n.rename r).kind? = some kind := by rw [Node.kind?_rename, hk]
    simp only [Node.children, hitems, hitems', Node.fields, hk, hk', List.map_map]
    exact List.map_congr_left fun f hf => Node.field_rename r n (hfields kind hkind f hf)
  cases n with
  | stmt s =>
    refine .inl (hchildren _ rfl rfl ?_)
    cases s <;> simp [Node.kindOfStmt]
  | expr e =>
    cases e with
    | ident name => exact .inr ⟨name, rfl, rfl⟩
    | _ => exact .inl (hchildren _ rfl rfl (by simp [Node.kindOfExpr]))
  | binding name => exact .inr ⟨name, rfl, rfl⟩
  -- the items of a list are its children
  | list items => exact .inl (Node.renameAll_eq_map r items)
  | text _ | number _ | flag _ | null | absent => exact .inl rfl
  | _ => exact .inl (hchildren _ rfl rfl (by decide))

mutual

/-- A blind pattern accepts a renamed node exactly when it accepts the node. -/
theorem accepts_rename : (p : Pattern) → p.isBlind → (n : Node) →
    p.accepts (n.rename r) = p.accepts n
  | .wildcard, _, _ => rfl
  | .literal value, _, n => Node.equalsLiteral_rename r n value
  | .anyOf options, h, n => anyAccepts_rename options h n
  | .sequence patterns, h, n => by
    rw [accepts, accepts, Node.items?_rename]
    cases n.items? with
    | none => rfl
    | some items => exact eachAccepts_rename patterns h items
  | .contains required, h, n => by
    rw [isBlind, Bool.and_eq_true] at h
    rw [accepts, accepts, Node.isAbsent_rename, eachFound_rename required h.1 h.2 n]
  | .exact kind fields, h, n => by
    rw [accepts, accepts, Node.isAbsent_rename, Node.kind?_rename, fieldsAccept_rename fields h n]

/-- One of several blind patterns accepts a renamed node exactly when one accepts the node. -/
theorem anyAccepts_rename : (ps : List Pattern) → allBlind ps → (n : Node) →
    anyAccepts ps (n.rename r) = anyAccepts ps n
  | [], _, _ => rfl
  | p :: ps, h, n => by
    rw [allBlind, Bool.and_eq_true] at h
    rw [anyAccepts, anyAccepts, accepts_rename p h.1 n, anyAccepts_rename ps h.2 n]

/-- Blind patterns that ask for a kind are found among the children of a renamed node exactly when
    they are found among those of the node. -/
theorem eachFound_rename : (ps : List Pattern) → ps.all asksKind → allBlind ps → (n : Node) →
    eachFound ps (n.rename r).children = eachFound ps n.children
  | [], _, _, _ => rfl
  | p :: ps, hkind, h, n => by
    rw [List.all_cons, Bool.and_eq_true] at hkind
    rw [allBlind, Bool.and_eq_true] at h
    have hany : (n.rename r).children.any (fun m => p.accepts m) =
        n.children.any fun m => p.accepts m := by
      -- the one child that can change is a name, a text without a kind, and no such pattern accepts
      -- it
      rcases children_rename r n with heq | ⟨name, hn, hr⟩
      · rw [heq, List.any_map]
        exact congrArg (n.children.any ·) (funext fun m => accepts_rename p h.1 m)
      · rw [hn, hr, List.any_cons, List.any_cons, accepts_text_of_asksKind hkind.1,
          accepts_text_of_asksKind hkind.1]
    rw [eachFound, eachFound, hany, eachFound_rename ps hkind.2 h.2 n]

/-- Blind patterns accept renamed nodes one by one exactly when they accept the nodes. -/
theorem eachAccepts_rename : (ps : List Pattern) → allBlind ps → (ns : List Node) →
    eachAccepts ps (Node.renameAll r ns) = eachAccepts ps ns
  | [], _, ns => by cases ns <;> rfl
  | _ :: _, _, [] => rfl
  | p :: ps, h, n :: ns => by
    rw [allBlind, Bool.and_eq_true] at h
    rw [Node.renameAll, eachAccepts, eachAccepts, accepts_rename p h.1 n,
      eachAccepts_rename ps h.2 ns]

/-- Blind patterns accept the fields of a renamed node exactly when they accept those of the node.
    -/
theorem fieldsAccept_rename : (fields : List (NodeField × Pattern)) → fieldsBlind fields →
    (n : Node) → fieldsAccept fields (n.rename r) = fieldsAccept fields n
  | [], _, _ => rfl
  | (f, p) :: rest, h, n => by
    rw [fieldsBlind, Bool.and_eq_true, Bool.and_eq_true, bne_iff_ne] at h
    rw [fieldsAccept, fieldsAccept, Node.field_rename r n h.1.1, accepts_rename p h.1.2 (n.field f),
      fieldsAccept_rename rest h.2 n]

end

end Descramble.Pattern
