import Descramble.Proofs.Reader.Token
import Descramble.Script.Parse

/-!
# Productions over readers that cannot be told apart

Every production, over two families of readers for its parts that are alike on shorter texts, is
alike on texts one character longer, and the trees it reads are well-formed.

Main statements: `alike_assignment`, `alike_unary`, `alike_construct` and `alike_statement`, one for
each production that the readers count down on.
-/

namespace Descramble

/-- A tree that is well-formed in every part. -/
def Expr.Sound (e : Expr) : Prop :=
  Part.Everywhere Part.WellFormed (.expr e)

/-- A statement that is well-formed in every part. -/
def Stmt.Sound (s : Stmt) : Prop :=
  Part.Everywhere Part.WellFormed (.stmt s)

/-- An expression is sound if it is well-formed itself and all that stands right inside is sound. -/
theorem Expr.sound_of {e : Expr} (here : e.WellFormed)
    (inside : ∀ part ∈ e.inner, Part.Everywhere Part.WellFormed part) : e.Sound :=
  .intro here inside

/-- The same for a statement. -/
theorem Stmt.sound_of {s : Stmt} (here : s.WellFormed)
    (inside : ∀ part ∈ s.inner, Part.Everywhere Part.WellFormed part) : s.Sound :=
  .intro here inside

/-- Expressions that are sound one by one are sound as the parts inside another. -/
theorem Expr.sound_all {items : List Expr} (h : ∀ e ∈ items, e.Sound) :
    ∀ part ∈ items.map Part.expr, Part.Everywhere Part.WellFormed part := by
  intro part hpart
  obtain ⟨e, he, rfl⟩ := List.mem_map.mp hpart
  exact h e he

/-- Statements that are sound one by one are sound as the parts inside another. -/
theorem Stmt.sound_all {body : List Stmt} (h : ∀ s ∈ body, s.Sound) :
    ∀ part ∈ body.map Part.stmt, Part.Everywhere Part.WellFormed part := by
  intro part hpart
  obtain ⟨s, hs, rfl⟩ := List.mem_map.mp hpart
  exact h s hs

namespace Reader

/-- Readers for parts that do the same with texts shorter than `K` and read well-formed trees. What
    follows a statement that ends open does not go on with an `else`. -/
structure Nested.Alike (K : Nat) (N M : Nested) : Prop where
  bound_left : K ≤ N.bound
  bound_right : K ≤ M.bound
  assignment : Reader.Alike K 1 Expr.Sound N.assignment M.assignment
  unary : Reader.Alike K 1 Expr.Sound N.unary M.unary
  construct : Reader.Alike K 1 Expr.Sound N.construct M.construct
  statement : Reader.Alike K 1 Stmt.Sound N.statement M.statement
  open_end : ∀ s st rest, s.length < K → N.statement s = .ok (st, rest) → st.endsOpen →
    Fails (do keyword "else"; N.statement) rest

/-! ## Operators -/

section Operators

variable {L : Nat}

/-- A reader that gives a fixed value once its mark has been read. -/
theorem Alike.value {α : Type} {P : α → Prop} {p : Reader Unit} {a : α}
    (hp : Alike L 1 (fun _ => True) p p) (ha : P a) :
    Alike L 1 P (do p; return a) (do p; return a) :=
  hp.bind fun _ _ => Alike.pure ha

/-- A value for a mark that is read whatever follows it. -/
theorem Alike.symbol_value {α : Type} {P : α → Prop} {mark : String} {a : α}
    (hne : 0 < mark.toList.length) (ha : P a) :
    Alike L 1 P (do symbol mark; return a) (do symbol mark; return a) :=
  (alike_symbol mark hne).value ha

/-- A value for a mark that is read unless a longer one begins there. -/
theorem Alike.operator_value {α : Type} {P : α → Prop} {mark : String} {longer : List Char} {a : α}
    (hne : 0 < mark.toList.length) (ha : P a) :
    Alike L 1 P (do operator mark longer; return a) (do operator mark longer; return a) :=
  (alike_operator mark longer hne).value ha

/-- A value for a word that is read unless the name goes on. -/
theorem Alike.keyword_value {α : Type} {P : α → Prop} {word : String} {a : α}
    (hne : 0 < word.toList.length) (ha : P a) :
    Alike L 1 P (do keyword word; return a) (do keyword word; return a) :=
  (alike_keyword word hne).value ha

/-- Every unary operator is read the same by itself and takes at least one character. -/
theorem alike_unaryOperator : Alike L 1 (fun _ => True) unaryOperator unaryOperator :=
  -- four marks and then three words
  (Alike.operator_value (by decide) trivial).orElse <|
  (Alike.operator_value (by decide) trivial).orElse <|
  (Alike.operator_value (by decide) trivial).orElse <|
  (Alike.operator_value (by decide) trivial).orElse <|
  (Alike.keyword_value (by decide) trivial).orElse <|
  (Alike.keyword_value (by decide) trivial).orElse <|
  Alike.keyword_value (by decide) trivial

/-- Two marks count up and down. -/
theorem alike_updateOperator : Alike L 1 (fun _ => True) updateOperator updateOperator :=
  (Alike.symbol_value (by decide) trivial).orElse (Alike.symbol_value (by decide) trivial)

/-- Eleven marks assign with an operation, and one assigns what it is given. -/
theorem alike_assignmentOperator :
    Alike L 1 (fun _ => True) assignmentOperator assignmentOperator :=
  (Alike.symbol_value (by decide) trivial).orElse <|
  (Alike.symbol_value (by decide) trivial).orElse <|
  (Alike.symbol_value (by decide) trivial).orElse <|
  (Alike.symbol_value (by decide) trivial).orElse <|
  (Alike.symbol_value (by decide) trivial).orElse <|
  (Alike.symbol_value (by decide) trivial).orElse <|
  (Alike.symbol_value (by decide) trivial).orElse <|
  (Alike.symbol_value (by decide) trivial).orElse <|
  (Alike.symbol_value (by decide) trivial).orElse <|
  (Alike.symbol_value (by decide) trivial).orElse <|
  (Alike.symbol_value (by decide) trivial).orElse <|
  Alike.operator_value (by decide) trivial

/-- One of three words begins a declaration. -/
theorem alike_declarationKind :
    Alike L 1 (fun _ => True) Production.declarationKind Production.declarationKind :=
  (Alike.keyword_value (by decide) trivial).orElse <|
  (Alike.keyword_value (by decide) trivial).orElse <|
  Alike.keyword_value (by decide) trivial

/-- A comma after the last item may be missing. -/
theorem alike_trailingComma : Alike L 0 (fun _ => True) trailingComma trailingComma :=
  (alike_symbol "," (by decide)).optional.bind fun _ _ => Alike.pure trivial

/-- A statement ends with a mark, or at what ends it anyway and is not taken. -/
theorem alike_statementEnd : Alike L 0 (fun _ => True) statementEnd statementEnd where
  same _ _ := rfl
  -- at the end of the text or of a block nothing is taken
  reads s a rest hs h := by
    unfold statementEnd at h
    split at h
    · cases h
      exact ⟨List.suffix_refl _, Nat.le_refl _, trivial⟩
    · cases h
      exact ⟨List.suffix_refl _, Nat.le_refl _, trivial⟩
    · exact (alike_symbol ";" (by decide)).any.reads s a rest hs h
  fails s e hs h := by
    unfold statementEnd at h
    split at h
    · cases h
    · cases h
    · exact (alike_symbol ";" (by decide)).fails s e hs h

/-- Every infix operator takes at least one character. -/
theorem alike_token (op : Infix) : Alike L 1 (fun _ => True) op.token op.token := by
  unfold Infix.token
  -- two operators are words, the others are marks that are not empty
  split
  · exact alike_keyword _ (by decide)
  · exact alike_keyword _ (by decide)
  · refine alike_operator _ _ ?_
    rcases op with (_ | _) | ((_ | _ | _ | _ | _ | _ | _ | _ | _ | _ | _) |
      (_ | _ | _ | _ | _ | _ | _ | _) | _ | _) <;> decide

end Operators

namespace Production

/-! ## Trees put together from sound parts -/

/-- A literal has no parts inside. -/
theorem literal_sound {value : Literal} (hvalue : (Expr.literal value).WellFormed) :
    (Expr.literal value).Sound :=
  Expr.sound_of hvalue fun _ hpart => by cases hpart

/-- Neither has the word for what a function is called on. -/
theorem this_sound : Expr.this.Sound :=
  Expr.sound_of trivial fun _ hpart => by cases hpart

theorem ident_sound {name : Name} (hname : IsName name) : (Expr.ident name).Sound :=
  Expr.sound_of hname fun _ hpart => by cases hpart

theorem sequenced_sound {items : List Expr} (hne : items ≠ []) (hitems : ∀ e ∈ items, e.Sound) :
    (sequenced items).Sound := by
  match items, hne with
  | [e], _ => exact hitems e (List.mem_singleton.mpr rfl)
  | e :: e' :: es, _ =>
    exact Expr.sound_of (Nat.le_add_left 2 es.length) (Expr.sound_all hitems)

/-- An object literal is sound if its keys are well-formed and its values are sound. -/
theorem object_sound {properties : List Property}
    (hproperties : ∀ property ∈ properties,
      property.key.WellFormed ∧ property.value.Sound) :
    (Expr.object properties).Sound := by
  refine Expr.sound_of (fun property hmem => (hproperties property hmem).1) fun part hpart => ?_
  obtain ⟨property, hmem, rfl⟩ := List.mem_map.mp hpart
  exact (hproperties property hmem).2

/-- Something applied to arguments is sound if both are. -/
theorem applied_sound {e callee : Expr} {args : List Expr} (here : e.WellFormed)
    (hinner : e.inner = .expr callee :: args.map Part.expr) (hcallee : callee.Sound)
    (hargs : ∀ arg ∈ args, arg.Sound) : e.Sound := by
  refine Expr.sound_of here fun part hpart => ?_
  rw [hinner] at hpart
  rcases List.mem_cons.mp hpart with rfl | hpart
  · exact hcallee
  · exact Expr.sound_all hargs part hpart

/-- A call is sound if what is called and all arguments are. -/
theorem call_sound {callee : Expr} {args : List Expr} (hcallee : callee.Sound)
    (hargs : ∀ e ∈ args, e.Sound) : (Expr.call callee args).Sound :=
  applied_sound trivial rfl hcallee hargs

/-- A construction is sound if what constructs and all arguments are. -/
theorem construct_sound {callee : Expr} {args : List Expr} (hcallee : callee.Sound)
    (hargs : ∀ e ∈ args, e.Sound) : (Expr.construct callee args).Sound :=
  applied_sound trivial rfl hcallee hargs

/-- An expression with one operand is sound if the operand is. -/
theorem operand_sound {e arg : Expr} (here : e.WellFormed) (hinner : e.inner = [.expr arg])
    (harg : arg.Sound) : e.Sound := by
  refine Expr.sound_of here fun part hpart => ?_
  rw [hinner] at hpart
  cases List.mem_singleton.mp hpart
  exact harg

/-- An expression with two operands is sound if both are. -/
theorem operands_sound {e left right : Expr} (here : e.WellFormed)
    (hinner : e.inner = [.expr left, .expr right]) (hleft : left.Sound) (hright : right.Sound) :
    e.Sound := by
  refine Expr.sound_of here fun part hpart => ?_
  rw [hinner] at hpart
  rcases List.mem_cons.mp hpart with rfl | hpart
  · exact hleft
  · cases List.mem_singleton.mp hpart
    exact hright

/-- A key is a string, a number that is written as a numeral, or any word. -/
theorem alike_propertyKey {L : Nat} :
    Alike L 1 PropertyKey.WellFormed propertyKey propertyKey :=
  .orElse (alike_string.bind fun _ _ => Alike.pure trivial) <|
  .orElse (alike_number.bind fun _ hn => Alike.pure hn) <|
  alike_anyWord.bind fun _ hname => Alike.pure hname

variable {K : Nat} {N M : Nested}

/-- Expressions with commas between them are one expression, or a sequence of at least two. -/
theorem alike_commaJoined {L : Nat} {p q : Reader Expr} (hp : Alike L 1 Expr.Sound p q)
    (hleft : L ≤ N.bound + 1) (hright : L ≤ M.bound + 1) :
    Alike L 1 Expr.Sound (commaJoined N p) (commaJoined M q) :=
  ((alike_symbol "," (by decide)).sepBy1 hp hleft hright).bind fun _ hitems =>
    Alike.pure (sequenced_sound hitems.1 hitems.2)

variable (h : N.Alike K M)
include h

/-! ## Lists and blocks -/

/-- A block gives sound statements. -/
theorem alike_block :
    Alike (K + 1) 1 (fun body => ∀ s ∈ body, s.Sound) (block N) (block M) :=
  (alike_symbol "\x7b" (by decide)).bind fun _ _ =>
    (h.statement.many h.bound_left h.bound_right).andThen fun _ hbody =>
      (alike_symbol "\x7d" (by decide)).any.bind fun _ _ => Alike.pure hbody

/-- Parameters are names in parentheses. -/
theorem alike_params :
    Alike (K + 1) 1 (fun names => ∀ name ∈ names, IsName name) (params N) (params M) :=
  (alike_symbol "(" (by decide)).bind fun _ _ =>
    ((alike_symbol "," (by decide)).sepBy alike_ident h.bound_left
      h.bound_right).andThen fun _ hnames =>
      (alike_symbol ")" (by decide)).any.bind fun _ _ => Alike.pure hnames

/-- Items up to a closing mark are sound expressions, with a comma at the end or without. -/
theorem alike_items (closing : String) (hne : 0 < closing.toList.length) :
    Alike K 0 (fun items => ∀ e ∈ items, e.Sound) (items N closing) (items M closing) :=
  ((alike_symbol "," (by decide)).sepBy h.assignment h.bound_left
    h.bound_right).bind fun _ hitems =>
    alike_trailingComma.bind fun _ _ =>
      (alike_symbol closing hne).any.bind fun _ _ => Alike.pure hitems

/-- Arguments are sound expressions in parentheses. -/
theorem alike_arguments :
    Alike (K + 1) 1 (fun args => ∀ e ∈ args, e.Sound) (arguments N) (arguments M) :=
  (alike_symbol "(" (by decide)).bind fun _ _ => alike_items h ")" (by decide)

/-! ## Expressions that no operator can split -/

/-- Within an expression another whole one may stand, commas included. -/
theorem alike_innerExpr : Alike K 1 Expr.Sound (innerExpr N) (innerExpr M) :=
  alike_commaJoined h.assignment (Nat.le_succ_of_le h.bound_left) (Nat.le_succ_of_le h.bound_right)

/-- A property is a key and a value. -/
theorem alike_property :
    Alike K 1 (fun property => property.key.WellFormed ∧ property.value.Sound)
      (property N) (property M) :=
  alike_propertyKey.bind fun _ hkey =>
    (alike_symbol ":" (by decide)).any.bind fun _ _ =>
      (h.assignment.within (Nat.sub_le _ _)).bind fun _ hvalue =>
        Alike.pure ⟨hkey, hvalue⟩

/-- An object literal is properties in braces. -/
theorem alike_objectLiteral :
    Alike (K + 1) 1 Expr.Sound (objectLiteral N) (objectLiteral M) :=
  (alike_symbol "\x7b" (by decide)).bind fun _ _ =>
    ((alike_symbol "," (by decide)).sepBy (alike_property h) h.bound_left
      h.bound_right).andThen fun _ hproperties =>
      alike_trailingComma.bind fun _ _ =>
        (alike_symbol "\x7d" (by decide)).any.bind fun _ _ =>
          Alike.pure (object_sound hproperties)

/-- An array literal is items in brackets. -/
theorem alike_arrayLiteral :
    Alike (K + 1) 1 Expr.Sound (arrayLiteral N) (arrayLiteral M) :=
  (alike_symbol "[" (by decide)).bind fun _ _ =>
    (alike_items h "]" (by decide)).bind fun _ hitems =>
      Alike.pure (Expr.sound_of trivial (Expr.sound_all hitems))

/-- A function expression may have a name, and has parameters and a block. -/
theorem alike_functionExpression :
    Alike (K + 1) 1 Expr.Sound (functionExpression N) (functionExpression M) :=
  (alike_keyword "function" (by decide)).bind fun _ _ =>
    alike_ident.optional.bind fun _ hname =>
      -- one character has been read, so what follows may be as long as a nested reader allows
      ((alike_params h).within (Nat.le_succ K)).bind fun _ hparams =>
        ((alike_block h).within (Nat.le_succ K)).bind fun _ hbody =>
          Alike.pure (Expr.sound_of ⟨hname, hparams⟩ (Stmt.sound_all hbody))

/-- Parentheses leave no part in the tree. -/
theorem alike_parenthesized :
    Alike (K + 1) 1 Expr.Sound (parenthesized N) (parenthesized M) :=
  (alike_symbol "(" (by decide)).bind fun _ _ =>
    (alike_innerExpr h).any.bind fun _ he =>
      (alike_symbol ")" (by decide)).any.bind fun _ _ => Alike.pure he

/-- What no operator can split begins with a mark of its own, or is a name. -/
theorem alike_primary : Alike (K + 1) 1 Expr.Sound (primary N) (primary M) :=
  -- literals, then what brackets of any kind enclose, and a name last
  .orElse (alike_number.bind fun _ hn => Alike.pure (literal_sound hn)) <|
  .orElse (alike_string.bind fun _ _ => Alike.pure (literal_sound trivial)) <|
  .orElse (Alike.keyword_value (by decide) (literal_sound trivial)) <|
  .orElse (Alike.keyword_value (by decide) (literal_sound trivial)) <|
  .orElse (Alike.keyword_value (by decide) (literal_sound trivial)) <|
  .orElse (Alike.keyword_value (by decide) this_sound) <|
  .orElse (alike_functionExpression h) <|
  .orElse (alike_arrayLiteral h) <|
  .orElse (alike_objectLiteral h) <|
  .orElse (alike_parenthesized h) <|
  alike_ident.bind fun _ hname => Alike.pure (ident_sound hname)

/-! ## Accesses and calls -/

/-- What an access or a call is applied to may be anything; the result is sound if that is. -/
theorem alike_suffix_imp (e : Expr) (calls : Bool) :
    Alike K 0 (fun o => ∀ e' ∈ o, e.Sound → e'.Sound) (suffix N calls e) (suffix M calls e) := by
  -- a point and a name, a key in brackets, or arguments where calls are allowed
  refine (alike_operator "." ['.'] (by decide)).lookFor.bind fun dot _ => ?_
  cases dot with
  | some _ =>
    refine alike_anyWord.any.bind fun name hname => Alike.pure fun e' he' he => ?_
    cases he'
    exact operand_sound hname rfl he
  | none =>
    refine (alike_symbol "[" (by decide)).lookFor.bind fun bracket _ => ?_
    cases bracket with
    | some _ =>
      refine (alike_innerExpr h).any.bind fun key hkey =>
        (alike_symbol "]" (by decide)).any.bind fun _ _ => Alike.pure fun e' he' he => ?_
      cases he'
      exact operands_sound trivial rfl he hkey
    | none =>
      refine Alike.ite _ (((alike_arguments h).within (Nat.le_succ K)).bind fun args hargs =>
        Alike.pure fun e' he' he => ?_) (Alike.pure fun _ h => by cases h)
      cases he'
      exact call_sound he hargs

/-- An access of something sound, or a call of it, is sound. -/
theorem alike_suffix {e : Expr} (he : e.Sound) (calls : Bool) :
    Alike K 0 (fun o => ∀ e ∈ o, e.Sound) (suffix N calls e) (suffix M calls e) :=
  (alike_suffix_imp h e calls).imp fun _ ho e' he' => ho e' he' he

/-- An access or a call takes at least one character. -/
theorem suffix_shorter {calls : Bool} {e e' : Expr} {s rest : List Char} (hs : s.length < K)
    (hsuffix : suffix N calls e s = .ok (some e', rest)) : rest.length < s.length := by
  obtain ⟨dot, mid, hdot, hrest⟩ := bind_eq_ok hsuffix
  -- the mark that a suffix begins with has been taken in each case
  rcases lookFor_eq_ok hdot with ⟨_, rfl, hread⟩ | ⟨rfl, rfl, _⟩
  · obtain ⟨name, mid', hname, hpure⟩ := bind_eq_ok hrest
    cases hpure
    have := ((alike_operator "." ['.'] (by decide)).reads s _ mid hs hread).2.1
    have := (alike_anyWord.reads mid name rest (Nat.lt_succ_self _) hname).2.1
    omega
  obtain ⟨bracket, mid', hbracket, hrest'⟩ := bind_eq_ok hrest
  rcases lookFor_eq_ok hbracket with ⟨_, rfl, hread⟩ | ⟨rfl, rfl, _⟩
  · obtain ⟨key, mid₁, hkey, hclose⟩ := bind_eq_ok hrest'
    obtain ⟨_, mid₂, hclose', hpure⟩ := bind_eq_ok hclose
    cases hpure
    have := ((alike_symbol "[" (by decide)).reads mid _ mid' hs hread).2.1
    have := ((alike_innerExpr h).reads mid' key mid₁ (by omega) hkey).2.1
    have := ((alike_symbol "]" (by decide)).reads mid₁ _ rest (Nat.lt_succ_self _) hclose').2.1
    omega
  -- without a point or a bracket the suffix is a call, if calls are allowed
  · dsimp only at hrest'
    split at hrest'
    · obtain ⟨args, mid₁, hargs, hpure⟩ := bind_eq_ok hrest'
      cases hpure
      have := ((alike_arguments h).reads mid' args rest (by omega) hargs).2.1
      omega
    · cases hrest'

omit h in
/-- Reading accesses one after the other is a loop of steps. -/
theorem suffixes_eq_loop (calls : Bool) (bound : Nat) :
    suffixes N calls bound = loop (suffix N calls) bound := by
  induction bound with
  | zero => rfl
  | succ bound ih =>
    funext e
    unfold suffixes loop
    rw [ih]
    refine congrArg (suffix N calls e >>= ·) (funext fun o => ?_)
    cases o <;> rfl

/-- Whatever the accesses start from, the result is sound if that is. -/
theorem alike_suffixes_imp (e : Expr) (calls : Bool) :
    Alike K 0 (fun e' => e.Sound → e'.Sound) (suffixes N calls N.bound e)
      (suffixes M calls M.bound e) := by
  -- what the accesses start from may be anything, so the loop keeps that soundness carries over
  rw [suffixes_eq_loop, suffixes_eq_loop]
  exact Alike.loop
    (fun a ha => (alike_suffix_imp h a calls).imp fun _ ho e' he' he => ho e' he' (ha he))
    (fun _ _ _ _ _ hs => suffix_shorter h hs) id h.bound_left h.bound_right

/-- Accesses and calls of something sound are sound. -/
theorem alike_suffixes {e : Expr} (he : e.Sound) (calls : Bool) :
    Alike K 0 Expr.Sound (suffixes N calls N.bound e) (suffixes M calls M.bound e) :=
  (alike_suffixes_imp h e calls).imp fun _ he' => he' he

/-- A construction is read as a word, what constructs and arguments, which may be missing. -/
theorem alike_construct : Alike (K + 1) 1 Expr.Sound (construct N) (construct M) :=
  (alike_keyword "new" (by decide)).bind fun _ _ =>
    -- what constructs may be a construction itself, but no call
    (h.construct.orElse ((alike_primary h).shorter (Nat.le_succ K))).any.bind fun _ htarget =>
      (alike_suffixes h htarget false).bind fun _ hcallee =>
        ((alike_arguments h).shorter (Nat.le_succ K)).optional.bind fun args hargs =>
          Alike.pure <| construct_sound hcallee <| by
            cases args with
            | none => intro e he; cases he
            | some args => exact hargs args rfl

/-- An access chain starts from a construction or from what no operator can split. -/
theorem alike_access : Alike (K + 1) 1 Expr.Sound (access N) (access M) :=
  ((alike_construct h).orElse (alike_primary h)).bind fun _ he => alike_suffixes h he true

/-! ## Operators and whole expressions -/

/-- Operators stand before their operand, or after it where they count. -/
theorem alike_unary : Alike (K + 1) 1 Expr.Sound (unary N) (unary M) := by
  refine alike_unaryOperator.lookForThen (fun op _ => h.unary.any.bind fun arg harg =>
    Alike.pure (operand_sound trivial rfl harg)) ?_
  refine alike_updateOperator.lookForThen (fun op _ => h.unary.any.bind fun arg harg =>
    Alike.pure (operand_sound trivial rfl harg)) ?_
  refine (alike_access h).bind fun e he => ?_
  -- no operator before the operand, so one may come after it
  refine alike_updateOperator.lookFor.bind fun after _ => ?_
  cases after with
  | some op => exact Alike.pure (operand_sound trivial rfl he)
  | none => exact Alike.pure he

omit h in
/-- The operator that comes next takes at least one character. -/
theorem firstInfix?_suffix {ops : List Infix} {op : Infix} {s rest : List Char}
    (hfirst : firstInfix? ops s = some (op, rest)) : rest <:+ s ∧ rest.length < s.length := by
  -- on the operators of the level, the first that can be read there is taken
  induction ops with
  | nil => cases hfirst
  | cons first ops ih =>
    unfold firstInfix? at hfirst
    split at hfirst
    · rename_i htoken
      cases hfirst
      obtain ⟨hsuffix, hlen, _⟩ := (alike_token _).reads s _ _ (Nat.lt_succ_self _) htoken
      exact ⟨hsuffix, by omega⟩
    · exact ih hfirst

/-- One operator of a level and the operand after it. -/
def infixStep (ops : List Infix) (operand : Reader Expr) (left : Expr) :
    Reader (Option Expr) := fun s =>
  match firstInfix? ops s with
  | some (op, rest) => (do return some (op.combine left (← operand)) : Reader (Option Expr)) rest
  | none => .ok (none, s)

omit h in
/-- Reading a level operator by operator is a loop of steps. -/
theorem chainRest_eq_loop (ops : List Infix) (operand : Reader Expr) (bound : Nat) :
    chainRest ops operand bound = loop (infixStep ops operand) bound := by
  induction bound with
  | zero => rfl
  | succ bound ih =>
    funext left s
    unfold chainRest loop
    rw [ih, bind_apply]
    -- the same whether there is a next operator or none
    unfold infixStep
    cases firstInfix? ops s with
    | none => rfl
    | some r =>
      dsimp only
      rw [bind_apply]
      cases operand r.2 <;> rfl

omit h in
/-- An infix operator on sound operands is sound. -/
theorem combine_sound (op : Infix) {left right : Expr} (hleft : left.Sound)
    (hright : right.Sound) : (op.combine left right).Sound := by
  cases op with
  | logical op => exact operands_sound trivial rfl hleft hright
  | binary op => exact operands_sound trivial rfl hleft hright

omit h in
/-- One operator and its operand, after a left operand that is sound. -/
theorem alike_infixStep {L : Nat} {p q : Reader Expr} (hp : Alike L 0 Expr.Sound p q)
    (ops : List Infix) {left : Expr} (hleft : left.Sound) :
    Alike L 0 (fun o => ∀ e ∈ o, e.Sound) (infixStep ops p left) (infixStep ops q left) := by
  have hright (op : Infix) : Alike L 0 (fun o => ∀ e ∈ o, e.Sound)
      (do return some (op.combine left (← p))) (do return some (op.combine left (← q))) :=
    hp.bind fun right hright => Alike.pure fun e he => by
      cases he
      exact combine_sound op hleft hright
  -- the operator is looked up in the text before the operand is read, so this is no sequence of two
  -- readers
  constructor
  case same =>
    intro s hs
    unfold infixStep
    cases hfirst : firstInfix? ops s with
    | none => rfl
    | some r => exact (hright r.1).same r.2 (by have := (firstInfix?_suffix hfirst).2; omega)
  case reads =>
    intro s o rest hs hread
    unfold infixStep at hread
    cases hfirst : firstInfix? ops s with
    | none =>
      rw [hfirst] at hread
      cases hread
      exact ⟨List.suffix_refl _, Nat.le_refl _, fun _ h => by cases h⟩
    | some r =>
      rw [hfirst] at hread
      obtain ⟨hsuffix, hlen⟩ := firstInfix?_suffix hfirst
      obtain ⟨hrest, hlen', ho⟩ := (hright r.1).reads r.2 o rest (by omega) hread
      exact ⟨hrest.trans hsuffix, by omega, ho⟩
  case fails =>
    intro s e hs hread
    unfold infixStep at hread
    cases hfirst : firstInfix? ops s with
    | none => rw [hfirst] at hread; cases hread
    | some r =>
      rw [hfirst] at hread
      obtain ⟨hsuffix, hlen⟩ := firstInfix?_suffix hfirst
      exact ((hright r.1).fails r.2 e (by omega) hread).trans hsuffix

omit h in
/-- An operator and its operand take at least one character. -/
theorem infixStep_shorter {L : Nat} {p q : Reader Expr} (hp : Alike L 0 Expr.Sound p q)
    {ops : List Infix} {left e : Expr} {s rest : List Char} (hs : s.length < L)
    (hstep : infixStep ops p left s = .ok (some e, rest)) : rest.length < s.length := by
  unfold infixStep at hstep
  cases hfirst : firstInfix? ops s with
  | none => rw [hfirst] at hstep; cases hstep
  | some r =>
    rw [hfirst] at hstep
    obtain ⟨right, mid, hright, hpure⟩ := bind_eq_ok hstep
    cases hpure
    have hlen := (firstInfix?_suffix hfirst).2
    have := (hp.reads r.2 right _ (by omega) hright).2.1
    omega

/-- Every level of operators gives a sound expression. -/
theorem alike_chain (levels : Nat) :
    Alike (K + 1) 1 Expr.Sound (chain N.bound (unary N) levels)
      (chain M.bound (unary M) levels) := by
  -- level by level: the operands of a level are chains of the next tighter one
  induction levels with
  | zero => exact alike_unary h
  | succ levels ih =>
    have hoperand := ih.within (Nat.le_succ K)
    refine ih.bind fun left hleft => ?_
    rw [chainRest_eq_loop, chainRest_eq_loop]
    exact Alike.loop (fun _ he => alike_infixStep hoperand _ he)
      (fun _ _ _ _ _ hs => infixStep_shorter hoperand hs) hleft h.bound_left h.bound_right

/-- A condition with two branches is sound if all three are. -/
theorem alike_conditional : Alike (K + 1) 1 Expr.Sound (conditional N) (conditional M) := by
  refine (alike_chain h 10).bind fun test htest => ?_
  refine (alike_symbol "?" (by decide)).lookFor.bind fun mark _ => ?_
  -- without the mark it is the condition alone
  cases mark with
  | none => exact Alike.pure htest
  | some _ =>
    refine h.assignment.any.bind fun yes hyes => ?_
    refine (alike_symbol ":" (by decide)).any.bind fun _ _ => ?_
    refine h.assignment.any.bind fun no hno => Alike.pure ?_
    refine Expr.sound_of trivial fun part hpart => ?_
    rcases List.mem_cons.mp hpart with rfl | hpart
    · exact htest
    rcases List.mem_cons.mp hpart with rfl | hpart
    · exact hyes
    · cases List.mem_singleton.mp hpart
      exact hno

/-- An arrow function has one name or parameters, and an expression or a block as its body. -/
theorem alike_arrow : Alike (K + 1) 1 Expr.Sound (arrow N) (arrow M) := by
  have hparams : Alike (K + 1) 1 (fun names => ∀ name ∈ names, IsName name)
      ((do return [← ident]) <|> params N) ((do return [← ident]) <|> params M) :=
    .orElse (alike_ident.bind fun name hname => Alike.pure fun other hmem => by
      cases List.mem_singleton.mp hmem
      exact hname) (alike_params h)
  have hbody : Alike K 0 (fun body => ∀ part ∈ ArrowBody.inner body,
      Part.Everywhere Part.WellFormed part)
      ((do return .block (← block N)) <|> (do return .expr (← N.assignment)))
      ((do return .block (← block M)) <|> (do return .expr (← M.assignment))) :=
    .orElse (((alike_block h).within (Nat.le_succ K)).bind fun body hbody =>
      Alike.pure (Stmt.sound_all hbody)) <|
      h.assignment.any.bind fun e he => Alike.pure fun part hpart => by
        cases List.mem_singleton.mp hpart
        exact he
  exact hparams.bind fun _ hparams => (alike_symbol "=>" (by decide)).any.bind fun _ _ =>
    hbody.bind fun _ hbody => Alike.pure (Expr.sound_of hparams hbody)

/-- What may follow the left side of an assignment: an operator and a value. -/
def assigned (nested : Nested) (target : Expr) : Reader Expr := fun s =>
  match assignmentOperator s with
  | .ok (op, rest) =>
    if target.isTarget then
      (do return .assign op target (← nested.assignment) : Reader Expr) rest
    else .error ⟨s, false⟩
  | .error _ => .ok (target, s)

/-- What is assigned to something sound is sound. -/
theorem alike_assigned {target : Expr} (htarget : target.Sound) :
    Alike K 0 Expr.Sound (assigned N target) (assigned M target) := by
  have hvalue (op : Option Arithmetic) (hok : target.isTarget) : Alike K 0 Expr.Sound
      (do return .assign op target (← N.assignment))
      (do return .assign op target (← M.assignment)) :=
    h.assignment.any.bind fun value hvalue =>
      Alike.pure (operands_sound hok rfl htarget hvalue)
  -- whether an operator comes next decides what is read, and its error is no error of the reader
  constructor
  case same =>
    intro s hs
    unfold assigned
    cases hop : assignmentOperator s with
    | error e => rfl
    | ok r =>
      have hlen := (alike_assignmentOperator.reads s r.1 r.2 hs hop).2.1
      by_cases hok : target.isTarget
      · simp only [hok, if_true]
        exact (hvalue r.1 hok).same r.2 (by omega)
      · simp only [hok, Bool.false_eq_true, if_false]
  case reads =>
    intro s e rest hs hread
    unfold assigned at hread
    split at hread
    · rename_i op mid hop
      obtain ⟨hmid, hlen, _⟩ := alike_assignmentOperator.reads s op mid hs hop
      split at hread
      · rename_i hok
        obtain ⟨hrest, hlen', he⟩ := (hvalue op hok).reads mid e rest (by omega) hread
        exact ⟨hrest.trans hmid, by omega, he⟩
      · cases hread
    · cases hread
      exact ⟨List.suffix_refl _, Nat.le_refl _, htarget⟩
  case fails =>
    intro s e hs hread
    unfold assigned at hread
    split at hread
    · rename_i op mid hop
      obtain ⟨hmid, hlen, _⟩ := alike_assignmentOperator.reads s op mid hs hop
      split at hread
      · rename_i hok
        exact ((hvalue op hok).fails mid e (by omega) hread).trans hmid
      · cases hread
        exact List.suffix_refl _
    · cases hread

/-- An assignment, a condition or an arrow function. -/
theorem alike_assignment : Alike (K + 1) 1 Expr.Sound (assignment N) (assignment M) :=
  (alike_arrow h).lookForThen (fun _ he => Alike.pure he) <|
    (alike_conditional h).bind fun _ htarget => alike_assigned h htarget

/-- A whole expression, with commas or without. -/
theorem alike_expr : Alike (K + 1) 1 Expr.Sound (expr N) (expr M) :=
  alike_commaJoined (alike_assignment h) (Nat.succ_le_succ h.bound_left)
    (Nat.succ_le_succ h.bound_right)

/-! ## Statements -/

/-- A declared name may have an initializer. -/
theorem alike_declarator :
    Alike (K + 1) 1 (fun d => IsName d.name ∧ ∀ e ∈ d.init, e.Sound)
      (declarator N) (declarator M) :=
  alike_ident.bind fun _ hname =>
    -- the mark must not be the beginning of an arrow
    ((alike_operator "=" ['=', '>'] (by decide)).bind fun _ _ =>
      h.assignment.within (Nat.sub_le _ _)).optional.bind fun _ hinit =>
      Alike.pure ⟨hname, hinit⟩

/-- A declaration has a kind and at least one declarator, and its initializers are sound. -/
theorem alike_declaration :
    Alike (K + 1) 1 (fun d => d.WellFormed ∧
      ∀ part ∈ d.inner, Part.Everywhere Part.WellFormed part) (declaration N) (declaration M) := by
  refine alike_declarationKind.bind fun kind _ => ?_
  refine (((alike_symbol "," (by decide)).sepBy1
    ((alike_declarator h).shorter (Nat.le_succ K)) (Nat.le_succ_of_le h.bound_left)
    (Nat.le_succ_of_le h.bound_right)).any).bind fun declarators hdeclarators => Alike.pure ?_
  refine ⟨⟨hdeclarators.1, fun d hd => (hdeclarators.2 d hd).1⟩, fun part hpart => ?_⟩
  obtain ⟨e, he, rfl⟩ := List.mem_map.mp hpart
  obtain ⟨d, hd, hinit⟩ := List.mem_filterMap.mp he
  exact (hdeclarators.2 d hd).2 e hinit

end Production

end Reader

end Descramble
