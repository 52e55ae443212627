import Descramble.Script.Tree

/-!
# Equality of trees

Two trees are compared part by part. `Expr.beq_iff_eq` and `Stmt.beq_iff_eq` say that the comparison
decides equality, which gives the `DecidableEq` instances of all types of the tree.
-/

namespace Descramble

mutual

def Expr.beq : Expr → Expr → Bool
  | .ident a, .ident b => a == b
  | .literal a, .literal b => a == b
  | .this, .this => true
  | .array as, .array bs => Expr.listBeq as bs
  | .object as, .object bs => Property.listBeq as bs
  | .function a f, .function b g => a == b && Function.beq f g
  | .arrow as f, .arrow bs g => as == bs && ArrowBody.beq f g
  | .call a as, .call b bs => a.beq b && Expr.listBeq as bs
  | .construct a as, .construct b bs => a.beq b && Expr.listBeq as bs
  | .member a x, .member b y => a.beq b && x == y
  | .index a x, .index b y => a.beq b && x.beq y
  | .assign o a x, .assign p b y => o == p && a.beq b && x.beq y
  | .logical o a x, .logical p b y => o == p && a.beq b && x.beq y
  | .binary o a x, .binary p b y => o == p && a.beq b && x.beq y
  | .unary o a, .unary p b => o == p && a.beq b
  | .update o s a, .update p t b => o == p && s == t && a.beq b
  | .conditional a x u, .conditional b y v => a.beq b && x.beq y && u.beq v
  | .sequence as, .sequence bs => Expr.listBeq as bs
  -- expressions of different kinds are never equal
  | _, _ => false

def Expr.listBeq : List Expr → List Expr → Bool
  | [], [] => true
  | a :: as, b :: bs => a.beq b && Expr.listBeq as bs
  | _, _ => false

def Expr.optionBeq : Option Expr → Option Expr → Bool
  | none, none => true
  | some a, some b => a.beq b
  | _, _ => false

def Property.listBeq : List Property → List Property → Bool
  | [], [] => true
  | ⟨k, a⟩ :: as, ⟨l, b⟩ :: bs => k == l && a.beq b && Property.listBeq as bs
  | _, _ => false

def Function.beq : Function → Function → Bool
  | ⟨ps, as⟩, ⟨qs, bs⟩ => ps == qs && Stmt.listBeq as bs

def ArrowBody.beq : ArrowBody → ArrowBody → Bool
  | .expr a, .expr b => a.beq b
  | .block as, .block bs => Stmt.listBeq as bs
  | _, _ => false

def Stmt.beq : Stmt → Stmt → Bool
  | .expr a, .expr b => a.beq b
  | .declare a, .declare b => Declaration.beq a b
  | .function a f, .function b g => a == b && Function.beq f g
  | .giveBack a, .giveBack b => Expr.optionBeq a b
  | .ifElse a x u, .ifElse b y v => a.beq b && x.beq y && Stmt.optionBeq u v
  | .block as, .block bs => Stmt.listBeq as bs
  | .forLoop a x u s, .forLoop b y v t =>
    ForStart.optionBeq a b && Expr.optionBeq x y && Expr.optionBeq u v && s.beq t
  | .whileLoop a s, .whileLoop b t => a.beq b && s.beq t
  | .switch a as, .switch b bs => a.beq b && SwitchCase.listBeq as bs
  | .attempt as h f, .attempt bs i g =>
    Stmt.listBeq as bs && CatchClause.optionBeq h i && Stmt.listOptionBeq f g
  | .raise a, .raise b => a.beq b
  | .breakOut, .breakOut => true
  | .continueLoop, .continueLoop => true
  | .empty, .empty => true
  -- neither are statements of different kinds
  | _, _ => false

def Stmt.listBeq : List Stmt → List Stmt → Bool
  | [], [] => true
  | a :: as, b :: bs => a.beq b && Stmt.listBeq as bs
  | _, _ => false

def Stmt.optionBeq : Option Stmt → Option Stmt → Bool
  | none, none => true
  | some a, some b => a.beq b
  | _, _ => false

def Stmt.listOptionBeq : Option (List Stmt) → Option (List Stmt) → Bool
  | none, none => true
  | some as, some bs => Stmt.listBeq as bs
  | _, _ => false

def Declaration.beq : Declaration → Declaration → Bool
  | ⟨k, as⟩, ⟨l, bs⟩ => k == l && Declarator.listBeq as bs

def Declarator.listBeq : List Declarator → List Declarator → Bool
  | [], [] => true
  | ⟨x, a⟩ :: as, ⟨y, b⟩ :: bs => x == y && Expr.optionBeq a b && Declarator.listBeq as bs
  | _, _ => false

def ForStart.optionBeq : Option ForStart → Option ForStart → Bool
  | none, none => true
  | some (.declare a), some (.declare b) => Declaration.beq a b
  | some (.expr a), some (.expr b) => a.beq b
  | _, _ => false

def SwitchCase.listBeq : List SwitchCase → List SwitchCase → Bool
  | [], [] => true
  | ⟨t, s⟩ :: as, ⟨u, r⟩ :: bs =>
    Expr.optionBeq t u && Stmt.listBeq s r && SwitchCase.listBeq as bs
  | _, _ => false

def CatchClause.optionBeq : Option CatchClause → Option CatchClause → Bool
  | none, none => true
  | some ⟨p, s⟩, some ⟨q, t⟩ => p == q && Stmt.listBeq s t
  | _, _ => false

end

mutual

/-- Comparing two expressions by recursion decides whether they are equal. -/
theorem Expr.beq_iff_eq : (a b : Expr) → (a.beq b = true ↔ a = b)
  | .ident _, b => by cases b <;> simp [Expr.beq]
  | .literal _, b => by cases b <;> simp [Expr.beq]
  | .this, b => by cases b <;> simp [Expr.beq]
  | .array as, b => by cases b <;> simp [Expr.beq, Expr.listBeq_iff_eq as]
  | .object as, b => by cases b <;> simp [Expr.beq, Property.listBeq_iff_eq as]
  | .function _ f, b => by cases b <;> simp [Expr.beq, Function.beq_iff_eq f]
  | .arrow _ f, b => by cases b <;> simp [Expr.beq, ArrowBody.beq_iff_eq f]
  | .call a as, b => by cases b <;> simp [Expr.beq, Expr.beq_iff_eq a, Expr.listBeq_iff_eq as]
  | .construct a as, b => by cases b <;> simp [Expr.beq, Expr.beq_iff_eq a, Expr.listBeq_iff_eq as]
  | .member a _, b => by cases b <;> simp [Expr.beq, Expr.beq_iff_eq a]
  | .index a x, b => by cases b <;> simp [Expr.beq, Expr.beq_iff_eq a, Expr.beq_iff_eq x]
  -- the operator is compared first, then both sides in order
  | .assign _ a x, b => by
    cases b <;> simp [Expr.beq, Expr.beq_iff_eq a, Expr.beq_iff_eq x, and_assoc]
  | .logical _ a x, b => by
    cases b <;> simp [Expr.beq, Expr.beq_iff_eq a, Expr.beq_iff_eq x, and_assoc]
  | .binary _ a x, b => by
    cases b <;> simp [Expr.beq, Expr.beq_iff_eq a, Expr.beq_iff_eq x, and_assoc]
  | .unary _ a, b => by cases b <;> simp [Expr.beq, Expr.beq_iff_eq a]
  | .update _ _ a, b => by cases b <;> simp [Expr.beq, Expr.beq_iff_eq a, and_assoc]
  | .conditional a x u, b => by
    cases b <;> simp [Expr.beq, Expr.beq_iff_eq a, Expr.beq_iff_eq x, Expr.beq_iff_eq u, and_assoc]
  | .sequence as, b => by cases b <;> simp [Expr.beq, Expr.listBeq_iff_eq as]

/-- Lists of expressions are compared item by item. -/
theorem Expr.listBeq_iff_eq : (as bs : List Expr) → (Expr.listBeq as bs = true ↔ as = bs)
  | [], bs => by cases bs <;> simp [Expr.listBeq]
  | a :: as, bs => by
    cases bs <;> simp [Expr.listBeq, Expr.beq_iff_eq a, Expr.listBeq_iff_eq as]

/-- An expression that may be missing has to be missing in both. -/
theorem Expr.optionBeq_iff_eq : (a b : Option Expr) → (Expr.optionBeq a b = true ↔ a = b)
  | none, b => by cases b <;> simp [Expr.optionBeq]
  | some a, b => by cases b <;> simp [Expr.optionBeq, Expr.beq_iff_eq a]

/-- Properties are compared by key and value, in the order they are written in. -/
theorem Property.listBeq_iff_eq :
    (as bs : List Property) → (Property.listBeq as bs = true ↔ as = bs)
  | [], bs => by cases bs <;> simp [Property.listBeq]
  | _ :: _, [] => by simp [Property.listBeq]
  | ⟨_, a⟩ :: as, ⟨_, b⟩ :: bs => by
    simp [Property.listBeq, Expr.beq_iff_eq a b, Property.listBeq_iff_eq as bs]

/-- Functions are compared by parameters and statements; their names stand outside. -/
theorem Function.beq_iff_eq : (f g : Function) → (Function.beq f g = true ↔ f = g)
  | ⟨_, as⟩, g => by cases g; simp [Function.beq, Stmt.listBeq_iff_eq as]

/-- A block differs from an expression, also where both give the same value. -/
theorem ArrowBody.beq_iff_eq : (f g : ArrowBody) → (ArrowBody.beq f g = true ↔ f = g)
  | .expr a, g => by cases g <;> simp [ArrowBody.beq, Expr.beq_iff_eq a]
  | .block as, g => by cases g <;> simp [ArrowBody.beq, Stmt.listBeq_iff_eq as]

/-- Comparing two statements by recursion decides whether they are equal. -/
theorem Stmt.beq_iff_eq : (a b : Stmt) → (a.beq b = true ↔ a = b)
  | .expr a, b => by cases b <;> simp [Stmt.beq, Expr.beq_iff_eq a]
  | .declare a, b => by cases b <;> simp [Stmt.beq, Declaration.beq_iff_eq a]
  | .function _ f, b => by cases b <;> simp [Stmt.beq, Function.beq_iff_eq f]
  | .giveBack a, b => by cases b <;> simp [Stmt.beq, Expr.optionBeq_iff_eq a]
  | .ifElse a x u, b => by
    cases b <;>
      simp [Stmt.beq, Expr.beq_iff_eq a, Stmt.beq_iff_eq x, Stmt.optionBeq_iff_eq u, and_assoc]
  | .block as, b => by cases b <;> simp [Stmt.beq, Stmt.listBeq_iff_eq as]
  | .forLoop a x u s, b => by
    cases b <;>
      simp [Stmt.beq, ForStart.optionBeq_iff_eq a, Expr.optionBeq_iff_eq x,
        Expr.optionBeq_iff_eq u, Stmt.beq_iff_eq s, and_assoc]
  | .whileLoop a s, b => by cases b <;> simp [Stmt.beq, Expr.beq_iff_eq a, Stmt.beq_iff_eq s]
  | .switch a as, b => by
    cases b <;> simp [Stmt.beq, Expr.beq_iff_eq a, SwitchCase.listBeq_iff_eq as]
  | .attempt as h f, b => by
    cases b <;>
      simp [Stmt.beq, Stmt.listBeq_iff_eq as, CatchClause.optionBeq_iff_eq h,
        Stmt.listOptionBeq_iff_eq f, and_assoc]
  | .raise a, b => by cases b <;> simp [Stmt.beq, Expr.beq_iff_eq a]
  | .breakOut, b => by cases b <;> simp [Stmt.beq]
  | .continueLoop, b => by cases b <;> simp [Stmt.beq]
  | .empty, b => by cases b <;> simp [Stmt.beq]

/-- Lists of statements are compared item by item. -/
theorem Stmt.listBeq_iff_eq : (as bs : List Stmt) → (Stmt.listBeq as bs = true ↔ as = bs)
  | [], bs => by cases bs <;> simp [Stmt.listBeq]
  | a :: as, bs => by
    cases bs <;> simp [Stmt.listBeq, Stmt.beq_iff_eq a, Stmt.listBeq_iff_eq as]

/-- A statement that may be missing has to be missing in both. -/
theorem Stmt.optionBeq_iff_eq : (a b : Option Stmt) → (Stmt.optionBeq a b = true ↔ a = b)
  | none, b => by cases b <;> simp [Stmt.optionBeq]
  | some a, b => by cases b <;> simp [Stmt.optionBeq, Stmt.beq_iff_eq a]

/-- The same for statements that may be missing all together. -/
theorem Stmt.listOptionBeq_iff_eq :
    (a b : Option (List Stmt)) → (Stmt.listOptionBeq a b = true ↔ a = b)
  | none, b => by cases b <;> simp [Stmt.listOptionBeq]
  | some as, b => by cases b <;> simp [Stmt.listOptionBeq, Stmt.listBeq_iff_eq as]

/-- Declarations are compared by kind and by their declarators. -/
theorem Declaration.beq_iff_eq : (a b : Declaration) → (Declaration.beq a b = true ↔ a = b)
  | ⟨_, as⟩, b => by cases b; simp [Declaration.beq, Declarator.listBeq_iff_eq as]

/-- Declarators are compared by name and initializer, in order. -/
theorem Declarator.listBeq_iff_eq :
    (as bs : List Declarator) → (Declarator.listBeq as bs = true ↔ as = bs)
  | [], bs => by cases bs <;> simp [Declarator.listBeq]
  | _ :: _, [] => by simp [Declarator.listBeq]
  | ⟨_, a⟩ :: as, ⟨_, b⟩ :: bs => by
    simp [Declarator.listBeq, Expr.optionBeq_iff_eq a b, Declarator.listBeq_iff_eq as bs]

/-- What a loop begins with may be missing, a declaration or an expression. -/
theorem ForStart.optionBeq_iff_eq :
    (a b : Option ForStart) → (ForStart.optionBeq a b = true ↔ a = b)
  | none, b => by cases b <;> simp [ForStart.optionBeq]
  | some (.declare a), b => by
    cases b with
    | none => simp [ForStart.optionBeq]
    | some b => cases b <;> simp [ForStart.optionBeq, Declaration.beq_iff_eq a]
  | some (.expr a), b => by
    cases b with
    | none => simp [ForStart.optionBeq]
    | some b => cases b <;> simp [ForStart.optionBeq, Expr.beq_iff_eq a]

/-- Cases are compared by test and statements, in order. -/
theorem SwitchCase.listBeq_iff_eq :
    (as bs : List SwitchCase) → (SwitchCase.listBeq as bs = true ↔ as = bs)
  | [], bs => by cases bs <;> simp [SwitchCase.listBeq]
  | _ :: _, [] => by simp [SwitchCase.listBeq]
  | ⟨t, s⟩ :: as, ⟨u, r⟩ :: bs => by
    simp [SwitchCase.listBeq, Expr.optionBeq_iff_eq t u, Stmt.listBeq_iff_eq s r,
      SwitchCase.listBeq_iff_eq as bs]

/-- Handlers are compared by parameter and statements, where there are any. -/
theorem CatchClause.optionBeq_iff_eq :
    (a b : Option CatchClause) → (CatchClause.optionBeq a b = true ↔ a = b)
  | none, b => by cases b <;> simp [CatchClause.optionBeq]
  | some _, none => by simp [CatchClause.optionBeq]
  | some ⟨_, s⟩, some ⟨_, t⟩ => by simp [CatchClause.optionBeq, Stmt.listBeq_iff_eq s t]

end

instance : DecidableEq Expr := fun a b => decidable_of_iff _ (Expr.beq_iff_eq a b)

instance : DecidableEq Stmt := fun a b => decidable_of_iff _ (Stmt.beq_iff_eq a b)

instance : DecidableEq Function := fun a b => decidable_of_iff _ (Function.beq_iff_eq a b)

instance : DecidableEq Program := fun a b =>
  decidable_of_iff (a.body = b.body) (by cases a; cases b; simp)

/-- What a text reads as can be compared with what it should read as. -/
instance decidableEqExcept {ε α : Type} [DecidableEq ε] [DecidableEq α] :
    DecidableEq (Except ε α)
  | .ok a, .ok b => decidable_of_iff (a = b) ⟨congrArg _, Except.ok.inj⟩
  | .error e, .error f => decidable_of_iff (e = f) ⟨congrArg _, Except.error.inj⟩
  | .ok _, .error _ => .isFalse fun h => by cases h
  | .error _, .ok _ => .isFalse fun h => by cases h

end Descramble
