import Descramble.Proofs.Number.Nearest
import Descramble.Proofs.Number.Whole
import Descramble.Value.Operation

/-!
# Comparing values

Strict equality is an equivalence on everything but not-a-number, and what equals strictly equals
loosely. The four relations of order come from one comparison, which answers the same from either
side: two values stand to each other in exactly one of three ways, or in none.

Main statement: `Store.comparisons_coherent`.
-/

namespace Descramble

/-! ## Numbers -/

namespace Number

variable {x y z : Number}

/-- Only not-a-number has no place in the order. -/
theorem rank?_eq_none_iff : x.rank? = none ↔ x = .nan := by
  cases x <;> simp [rank?]

/-- A natural number is a number. -/
theorem ofNat_ne_nan (n : Nat) : ofNat n ≠ .nan :=
  ofRatio_ne_nan _ _

/-- Numbers equal each other or do not, from either side. -/
theorem equals_comm (x y : Number) : x.equals y = y.equals x :=
  Bool.eq_iff_iff.mpr ⟨equals_symm, equals_symm⟩

/-- Numbers that equal a third equal each other. -/
theorem equals_trans (h : x.equals y = true) (h' : y.equals z = true) : x.equals z = true := by
  obtain ⟨i, hx, hy⟩ := equals_iff_rank?.mp h
  obtain ⟨j, hy', hz⟩ := equals_iff_rank?.mp h'
  -- the number between them has one rank
  cases hy.symm.trans hy'
  exact equals_iff_rank?.mpr ⟨i, hx, hz⟩

/-- Only not-a-number does not equal itself. -/
theorem equals_self_iff : x.equals x = true ↔ x ≠ .nan := by
  rw [equals_iff_rank?, ne_eq, ← rank?_eq_none_iff]
  cases x.rank? <;> simp

/-- Numbers compare the other way round from the other side. -/
theorem compare?_swap (x y : Number) : y.compare? x = (x.compare? y).map Ordering.swap := by
  unfold compare?
  cases x.rank? with
  | none => cases y.rank? <;> rfl
  | some i => cases y.rank? with
    | none => rfl
    | some j => exact congrArg some Std.OrientedOrd.eq_swap

/-- Two numbers compare unless one is not-a-number. -/
theorem isSome_compare?_iff : (x.compare? y).isSome ↔ x ≠ .nan ∧ y ≠ .nan := by
  rw [ne_eq, ne_eq, ← rank?_eq_none_iff, ← rank?_eq_none_iff]
  unfold compare?
  cases x.rank? <;> cases y.rank? <;> simp

end Number

/-! ## Equality -/

namespace Value

variable {a b c : Value}

/-- Numbers equal strictly by what they count; every other value equals itself only. -/
theorem strictEquals_iff :
    a.strictEquals b = true ↔
      (∃ x y, a = .number x ∧ b = .number y ∧ x.equals y = true) ∨
        a = b ∧ ∀ x, a ≠ .number x := by
  cases a <;> cases b <;> simp [strictEquals]

/-- Values equal strictly or do not, from either side. -/
theorem strictEquals_comm (a b : Value) : a.strictEquals b = b.strictEquals a := by
  -- values of different types never equal strictly
  cases a with
  | undefined | null => cases b <;> rfl
  | number x => cases b with
    | number y => exact Number.equals_comm x y
    | _ => rfl
  | flag x => cases b with
    | flag y => exact BEq.comm
    | _ => rfl
  | text t => cases b with
    | text u => exact BEq.comm
    | _ => rfl
  | object ref => cases b with
    | object ref' => exact BEq.comm
    | _ => rfl

/-- Values that strictly equal a third strictly equal each other. -/
theorem strictEquals_trans (h : a.strictEquals b = true) (h' : b.strictEquals c = true) :
    a.strictEquals c = true := by
  rw [strictEquals_iff] at h h' ⊢
  -- as numbers all along, or as one value that is no number
  rcases h with ⟨x, y, rfl, rfl, hxy⟩ | ⟨rfl, hnumber⟩
  · rcases h' with ⟨y', z, hy, rfl, hyz⟩ | ⟨-, hnumber⟩
    · cases hy
      exact .inl ⟨x, z, rfl, rfl, Number.equals_trans hxy hyz⟩
    · exact absurd rfl (hnumber y)
  · exact h'

/-- Only not-a-number does not strictly equal itself. -/
theorem strictEquals_self_iff : a.strictEquals a = true ↔ a ≠ .number .nan := by
  cases a <;> simp [strictEquals, Number.equals_self_iff]

end Value

namespace Store

variable (s : Store)

/-- Primitive values equal loosely or do not, from either side. -/
theorem primitiveEquals_comm (a b : Value) : s.primitiveEquals a b = s.primitiveEquals b a := by
  cases a with
  | undefined | null => cases b <;> rfl
  -- two texts are compared as such, and otherwise numbers are
  | text t => cases b with
    | undefined | null => rfl
    | text u => exact BEq.comm
    | _ => exact Number.equals_comm _ _
  | _ => cases b with
    | undefined | null => rfl
    | _ => exact Number.equals_comm _ _

/-- Values equal loosely or do not, from either side. -/
theorem looseEquals_comm (a b : Value) : s.looseEquals a b = s.looseEquals b a := by
  unfold looseEquals
  cases a with
  | object ref => cases b with
    | object ref' => exact BEq.comm
    | undefined | null => rfl
    | _ => exact s.primitiveEquals_comm _ _
  | undefined | null => cases b with
    | object ref => rfl
    | _ => exact s.primitiveEquals_comm _ _
  | _ => cases b <;> exact s.primitiveEquals_comm _ _

/-- What equals strictly equals loosely. -/
theorem looseEquals_of_strictEquals {a b : Value} (h : a.strictEquals b = true) :
    s.looseEquals a b = true := by
  rcases Value.strictEquals_iff.mp h with ⟨x, y, rfl, rfl, hxy⟩ | ⟨rfl, hnumber⟩
  · exact hxy
  · cases a with
    | undefined => rfl
    | null => rfl
    | flag b =>
      -- flags are compared as the numbers that they stand for
      show (s.numberOf (.flag b)).equals (s.numberOf (.flag b)) = true
      rw [Number.equals_self_iff]
      simp only [numberOf]
      split
      · exact Number.ofNat_ne_nan 1
      · exact nofun
    | number x => exact absurd rfl (hnumber x)
    | text t => exact beq_self_eq_true t
    | object ref => exact beq_self_eq_true ref

/-! ## Order -/

/-- Whether two values have an order once they are primitive: two texts do, and otherwise two values
    that both stand for numbers. -/
def Comparable (a b : Value) : Prop :=
  (∃ t u, s.primitiveOf a = .text t ∧ s.primitiveOf b = .text u) ∨
    s.numberOf (s.primitiveOf a) ≠ .nan ∧ s.numberOf (s.primitiveOf b) ≠ .nan

/-- Values compare the other way round from the other side. -/
theorem compare?_swap (a b : Value) : s.compare? b a = (s.compare? a b).map Ordering.swap := by
  unfold compare?
  cases s.primitiveOf a <;> cases s.primitiveOf b
  -- two texts are compared as texts, anything else by numbers
  case text.text t u => exact congrArg some Std.OrientedOrd.eq_swap
  all_goals exact Number.compare?_swap _ _

/-- Values compare exactly if they have an order. -/
theorem isSome_compare?_iff (a b : Value) : (s.compare? a b).isSome ↔ s.Comparable a b := by
  unfold compare? Comparable
  cases s.primitiveOf a <;> cases s.primitiveOf b
  case text.text t u => simp
  all_goals simp [Number.isSome_compare?_iff]

/-- What the operators that compare two values keep to, whatever the values are. -/
structure Coherent : Prop where
  strict_comm (a b : Value) : a.strictEquals b = b.strictEquals a
  strict_trans (a b c : Value) :
    a.strictEquals b = true → b.strictEquals c = true → a.strictEquals c = true
  strict_self (a : Value) : a.strictEquals a = true ↔ a ≠ .number .nan
  loose_comm (a b : Value) : s.looseEquals a b = s.looseEquals b a
  loose_of_strict (a b : Value) : a.strictEquals b = true → s.looseEquals a b = true
  less_swap (a b : Value) : s.comparison .less a b = s.comparison .greater b a
  lessEq_swap (a b : Value) : s.comparison .lessEq a b = s.comparison .greaterEq b a
  less_asymm (a b : Value) : ¬(s.comparison .less a b = true ∧ s.comparison .less b a = true)
  /-- Values with an order stand in exactly one of the three ways, others in none. -/
  trichotomy (a b : Value) :
    (s.Comparable a b ∧
      [s.comparison .less a b, s.comparison .greater a b,
        s.comparison .lessEq a b && s.comparison .greaterEq a b].count true = 1) ∨
    (¬ s.Comparable a b ∧
      ∀ op ∈ [Comparison.less, .greater, .lessEq, .greaterEq], s.comparison op a b = false)

/-- The operators that compare two values are coherent in every store, also where objects are
    compared by their texts. -/
theorem comparisons_coherent : s.Coherent where
  strict_comm := Value.strictEquals_comm
  strict_trans _ _ _ := Value.strictEquals_trans
  strict_self _ := Value.strictEquals_self_iff
  loose_comm := s.looseEquals_comm
  loose_of_strict _ _ := s.looseEquals_of_strictEquals
  less_swap a b := by
    simp only [comparison, s.compare?_swap a b]
    cases s.compare? a b with
    | none => rfl
    | some o => cases o <;> rfl
  lessEq_swap a b := by
    simp only [comparison, s.compare?_swap a b]
    cases s.compare? a b with
    | none => rfl
    | some o => cases o <;> rfl
  less_asymm a b := by
    simp only [comparison, s.compare?_swap a b]
    cases s.compare? a b with
    | none => decide
    | some o => cases o <;> decide
  trichotomy a b := by
    rw [← s.isSome_compare?_iff a b]
    simp only [comparison]
    -- all four relations read off the one comparison, which has three outcomes or none
    cases s.compare? a b with
    | none => right; simp
    | some o => left; cases o <;> decide

end Store

end Descramble
