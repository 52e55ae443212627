import Descramble.Proofs.Printer.Brace

/-!
# Functions are read back

Function expressions and arrow functions. An arrow function tries a block before an expression, so
its body must not be an expression whose text begins as a block: an empty object at its start would.

Main statements: `resumes_function`, `written_arrow`.
-/

namespace Descramble.Reader

variable {n depth : Nat} {calls isNumber : Bool} {s mid r r' : List Char} {e : Expr}
  {body : List Stmt} {params : List Name}

/-! ## Parameters and blocks -/

/-- A name can be an item of a list. -/
theorem ident_item {name : Name} (hname : IsName name) :
    ReadsItem n ident name.toList name where
  reads _ _ _ hr _ := ident_text hname hr
  solid _ hr := (Lead.name hname hr).solid

/-- Parameters in parentheses are read back. -/
theorem params_text (hparams : ∀ param ∈ params, IsName param)
    (hn : ((Printer.parameterList params).toList ++ r).length < n) (hr : skipGap r = .ok r') :
    Production.params (nested n) ((Printer.parameterList params).toList ++ r) =
      .ok (params, r') := by
  have htext : (Printer.parameterList params).toList ++ r =
      "(".toList ++ ((commaSeparated (params.map id)).toList ++ ')' :: r) := by
    unfold Printer.parameterList Printer.parenthesized
    simp only [String.toList_append, List.append_assoc, List.map_id]
    rfl
  rw [htext] at hn ⊢
  rw [List.length_append] at hn
  have hempty : Fails ident (')' :: r) := ident_fails (by decide) r
  obtain ⟨s, hs, hread⟩ := listed_text (f := id)
    (fun param hmem => ident_item (n := n) (hparams param hmem)) (by decide) (by omega) hempty
  refine (bind_of_ok (symbol_text "(" hs)).trans ((bind_of_ok hread).trans ?_)
  exact bind_of_ok (symbol_text ")" hr)

/-- A block begins with a brace. -/
theorem braced_cons (depth : Nat) (texts : List String) :
    ∃ cs, (Printer.braced depth texts).toList = '\x7b' :: cs := by
  unfold Printer.braced
  split
  · exact ⟨_, rfl⟩
  · simp only [String.toList_append, List.append_assoc]
    exact ⟨_, rfl⟩

/-- A block comes after the gap in front of it. -/
theorem skipGap_braced (depth : Nat) (texts : List String) (r : List Char) :
    skipGap (' ' :: ((Printer.braced depth texts).toList ++ r)) =
      .ok ((Printer.braced depth texts).toList ++ r) := by
  obtain ⟨cs, hcs⟩ := braced_cons depth texts
  rw [hcs]
  rfl

/-- The text of parameters, and a block after them. -/
def signatureText (depth : Nat) (params : List Name) (body : List Stmt) : String :=
  Printer.parameterList params ++ " " ++ Printer.braced depth (Printer.stmts (depth + 1) body)

/-- What a function has after its name is read in two parts. -/
theorem signature_text (depth : Nat) (hparams : ∀ param ∈ params, IsName param)
    (hbody : ∀ st ∈ body, StmtReadsBack n (depth + 1) st)
    (hn : ((signatureText depth params body).toList ++ r).length < n) (hr : skipGap r = .ok r') :
    ∃ mid, Production.params (nested n) ((signatureText depth params body).toList ++ r) =
        .ok (params, mid) ∧
      Production.block (nested n) mid = .ok (body, r') := by
  have htext : (signatureText depth params body).toList ++ r =
      (Printer.parameterList params).toList ++
        ' ' :: ((Printer.braced depth (Printer.stmts (depth + 1) body)).toList ++ r) := by
    unfold signatureText
    simp only [String.toList_append, List.append_assoc]
    rfl
  rw [htext] at hn ⊢
  refine ⟨_, params_text hparams hn (skipGap_braced _ _ _), ?_⟩
  rw [List.length_append, List.length_cons] at hn
  exact block_text hbody (by omega) hr

/-- Parameters begin with a parenthesis. -/
theorem signatureText_cons (depth : Nat) (params : List Name) (body : List Stmt) :
    ∃ cs, (signatureText depth params body).toList = '(' :: cs := by
  unfold signatureText Printer.parameterList
  rw [String.append_assoc, String.toList_append, toList_parenthesized]
  exact ⟨_, rfl⟩

/-- Parameters come at once, and end a word before them. -/
theorem follows_signature (depth : Nat) (params : List Name) (body : List Stmt) (r : List Char) :
    Follows ((signatureText depth params body).toList ++ r)
      ((signatureText depth params body).toList ++ r) := by
  obtain ⟨cs, hcs⟩ := signatureText_cons depth params body
  rw [hcs]
  exact ⟨rfl, fun c hc => by cases hc; decide⟩

/-- The text of a function that has a name. -/
theorem functionHead_some (depth : Nat) (name : Name) (definition : Function) :
    Printer.functionHead (some name) definition.params ++ Printer.functionBlock depth definition =
      "function " ++ name ++ signatureText depth definition.params definition.body := by
  cases definition
  have hword : "function " = "function" ++ " " := rfl
  rw [Printer.functionBlock, hword]
  simp only [Printer.functionHead, signatureText, String.append_assoc]

/-- The text of a function without a name. -/
theorem functionHead_none (depth : Nat) (definition : Function) :
    Printer.functionHead none definition.params ++ Printer.functionBlock depth definition =
      "function" ++ signatureText depth definition.params definition.body := by
  cases definition
  rw [Printer.functionBlock]
  simp only [Printer.functionHead, signatureText, String.append_assoc]
  rfl

/-! ## Function expressions -/

/-- A primary expression that begins with `function`. -/
theorem primary_function (r : List Char)
    (h : Production.functionExpression (nested n) ("function".toList ++ r) = .ok (e, r')) :
    Production.primary (nested n) ("function".toList ++ r) = .ok (e, r') :=
  (primary_of_word (by decide) _).trans <|
    (orElse_of_fails ⟨_, rfl⟩).trans <| (orElse_of_fails ⟨_, rfl⟩).trans <|
    (orElse_of_fails ⟨_, rfl⟩).trans <| (orElse_of_fails ⟨_, rfl⟩).trans <| orElse_of_ok h

/-- A function expression is read back, with a name or without. -/
theorem resumes_function {name : Option Name} {definition : Function}
    (hname : ∀ n ∈ name, IsName n) (hparams : ∀ param ∈ definition.params, IsName param)
    (hbody : ∀ st ∈ definition.body, StmtReadsBack n (depth + 1) st) :
    ResumesAccess n calls (Printer.expr depth (.function name definition)).toList
      (.function name definition) isNumber := by
  have hsignature := follows_signature depth definition.params definition.body
  cases name with
  | none =>
    rw [Printer.expr, functionHead_none]
    refine resumes_of_primary (fun r r' _ => ?_) fun r r' hn hr _ => ?_
    · rw [String.toList_append]
      exact ⟨_, rfl⟩
    · rw [String.toList_append, List.append_assoc] at hn ⊢
      rw [List.length_append] at hn
      obtain ⟨mid, hparams', hblock⟩ := signature_text (n := n) (r := r) depth hparams hbody
        (by omega) hr.gap
      refine primary_function _ ((bind_of_ok (keyword_text "function" (hsignature r))).trans ?_)
      -- without a name the parameters follow the word at once
      have hident : Fails ident ((signatureText depth definition.params definition.body).toList ++
          r) := by
        obtain ⟨cs, hcs⟩ := signatureText_cons depth definition.params definition.body
        rw [hcs]
        exact ident_fails (by decide) _
      refine (bind_of_ok (optional_of_fails hident)).trans ((bind_of_ok hparams').trans ?_)
      cases definition
      exact bind_of_ok hblock
  | some name =>
    rw [Printer.expr, functionHead_some]
    refine resumes_of_primary (fun r r' _ => ?_) fun r r' hn hr _ => ?_
    · simp only [String.toList_append]
      exact ⟨_, rfl⟩
    · have htext : ("function " ++ name ++
          signatureText depth definition.params definition.body).toList ++ r =
            "function".toList ++ ' ' :: (name.toList ++
              ((signatureText depth definition.params definition.body).toList ++ r)) := by
        simp only [String.toList_append, List.append_assoc]
        rfl
      rw [htext] at hn ⊢
      simp only [List.length_append, List.length_cons] at hn
      obtain ⟨mid, hparams', hblock⟩ := signature_text (n := n) (r := r) depth hparams hbody
        (by rw [List.length_append]; omega) hr.gap
      -- the name stands behind a blank and ends at the parenthesis
      have hsolid := ((ident_item (n := n) (hname name rfl)).solid _ (hsignature r).wordEnd).skipGap
      refine primary_function _
        ((bind_of_ok (keyword_text "function" (follows_blank hsolid))).trans ?_)
      refine (bind_of_ok (optional_of_ok (ident_text (hname name rfl) (hsignature r)))).trans ?_
      refine (bind_of_ok hparams').trans ?_
      cases definition
      exact bind_of_ok hblock

/-! ## Arrow functions -/

/-- The body of an arrow function, a block if it can be one. -/
def arrowBody (N : Nested) : Reader ArrowBody :=
  (do return .block (← Production.block N)) <|> (do return .expr (← N.assignment))

/-- A block can be the body of an arrow function. -/
theorem block_item (hbody : ∀ st ∈ body, StmtReadsBack n (depth + 1) st) :
    ReadsItem n (arrowBody (nested n)) (Printer.arrowBody depth (.block body)).toList
      (.block body) := by
  rw [Printer.arrowBody]
  constructor
  case reads =>
    intro r r' hn hr _
    exact orElse_of_ok (bind_of_ok (block_text hbody hn hr.gap))
  case solid =>
    intro r _
    obtain ⟨cs, hcs⟩ := braced_cons depth (Printer.stmts (depth + 1) body)
    rw [hcs]
    exact ⟨_, _, rfl, by decide⟩

/-- The text of an object literal in full. -/
theorem toList_object (depth : Nat) (key : PropertyKey) (value : Expr)
    (properties : List Property) :
    ∃ u, (Printer.expr depth (.object (⟨key, value⟩ :: properties))).toList =
      '\x7b' :: (key.toText.toList ++ ':' :: u) := by
  rw [Printer.expr, propertyTexts_eq_map, String.toList_append, String.toList_append,
    toList_commaSeparated, propertyText]
  simp only [String.toList_append, List.append_assoc]
  exact ⟨_, rfl⟩

/-- The text of an expression that is not taken for a block. -/
theorem block_fails_of_expr (hsound : e.Sound)
    (hfaithful : Part.Everywhere Part.Faithful (.expr (.arrow params (.expr e))))
    (hobject : e.isObject = false)
    (hn : ((Printer.atLeast 2 e.binding (Printer.expr depth e)).toList ++ r).length < n) :
    Fails (Production.block (nested n))
      ((Printer.atLeast 2 e.binding (Printer.expr depth e)).toList ++ r) := by
  have hother {c : Char} (hc : c ≠ '\x7b') (cs : List Char) :
      Fails (Production.block (nested n)) (c :: cs) := by
    have hbrace : Fails (symbol "\x7b") (c :: cs) := symbol_fails (if_neg hc.symm)
    exact hbrace.bind _
  -- in parentheses it starts no block; otherwise the question is what its text begins with
  by_cases hparentheses : e.binding < 2
  · unfold Printer.atLeast
    rw [if_pos hparentheses, toList_parenthesized]
    exact hother (by decide) _
  have hatLeast (depth : Nat) :
      Printer.atLeast 2 e.binding (Printer.expr depth e) = Printer.expr depth e :=
    if_neg hparentheses
  rw [hatLeast] at hn ⊢
  obtain ⟨kind, hkind, _⟩ := leads_expr depth e hsound [] fun _ h => by cases h
  obtain ⟨c, cs, hcs, _⟩ := hkind.head
  rw [List.append_nil] at hcs
  by_cases hc : c = '\x7b'
  · rw [hc] at hcs
    obtain ⟨properties, hproperties, htext⟩ := startsWithObject e hsound
      (hfaithful.inside (.head _)) hcs
    -- a body that begins with an object would be read as a block with a label, which there is not
    cases properties with
    | nil =>
      -- an empty object is what the tree must not begin with
      obtain ⟨u, hu⟩ := htext 0
      refine absurd ⟨u, ?_⟩ (hfaithful.here.resolve_left (by rw [hobject]; intro h; cases h))
      rw [Printer.arrowBody, hobject, if_neg Bool.false_ne_true, hatLeast, hu, Printer.expr,
        Printer.propertyTexts]
      rfl
    | cons property properties =>
      obtain ⟨key, value⟩ := property
      obtain ⟨u, hu⟩ := htext depth
      obtain ⟨v, hv⟩ := toList_object depth key value properties
      obtain ⟨hkey, hfinite⟩ := hproperties _ List.mem_cons_self
      rw [hu, hv] at hn ⊢
      simp only [List.cons_append, List.append_assoc] at hn ⊢
      exact block_fails hkey hfinite hn
  · rw [hcs]
    exact hother hc _

/-- An expression can be the body of an arrow function if its text does not begin as a block. -/
theorem expr_item (h : ReadsBack n depth e)
    (hfaithful : Part.Everywhere Part.Faithful (.expr (.arrow params (.expr e)))) :
    ReadsItem n (arrowBody (nested n)) (Printer.arrowBody depth (.expr e)).toList (.expr e) := by
  rw [Printer.arrowBody]
  -- an object as a body is put into parentheses, since a brace would open a block
  cases hobject : e.isObject with
  | true =>
    rw [if_pos rfl]
    constructor
    case reads =>
      intro r r' hn hr hstop
      have hblock : Fails (Production.block (nested n))
          ((Printer.parenthesized (Printer.expr depth e)).toList ++ r) := by
        rw [toList_parenthesized]
        exact Fails.bind ⟨_, rfl⟩ _
      have hwritten : Written n 2 (Printer.parenthesized (Printer.expr depth e)).toList e false :=
        .parenthesized h.leads h.written
      refine (orElse_of_fails (hblock.bind _)).trans ?_
      exact bind_of_ok (hwritten.assignment (Nat.le_refl 2) r r' hn hr hstop)
    case solid =>
      intro r _
      rw [toList_parenthesized]
      exact ⟨_, _, rfl, by decide⟩
  | false =>
    rw [if_neg Bool.false_ne_true]
    constructor
    case reads =>
      intro r r' hn hr hstop
      have hblock := block_fails_of_expr h.sound hfaithful hobject hn
      refine (orElse_of_fails (hblock.bind _)).trans ?_
      exact bind_of_ok (h.item.reads r r' hn hr hstop)
    case solid => exact h.item.solid

/-- The parameters of an arrow function, up to the arrow. -/
theorem arrowParams_text (hparams : ∀ param ∈ params, IsName param)
    (hn : ((arrowParams params).toList ++ ' ' :: s).length < n) (hs : skipGap s = .ok s) :
    ((do return [← ident]) <|> Production.params (nested n))
        ((arrowParams params).toList ++ ' ' :: s) = .ok (params, s) := by
  have hfollows := follows_blank hs
  unfold arrowParams at hn ⊢
  -- one parameter stands without parentheses
  split at hn
  · rename_i param
    exact orElse_of_ok (bind_of_ok (ident_text (hparams param List.mem_cons_self) hfollows))
  · have hident : Fails ident ((Printer.parameterList params).toList ++ ' ' :: s) := by
      unfold Printer.parameterList
      rw [toList_parenthesized]
      exact ident_fails (by decide) _
    exact (orElse_of_fails (hident.bind _)).trans (params_text hparams hn hfollows.gap)

/-- An arrow function is read back at every level up to that of assignments. -/
theorem written_arrow {body : ArrowBody} (hparams : ∀ param ∈ params, IsName param)
    (hbody : ReadsItem n (arrowBody (nested n)) (Printer.arrowBody depth body).toList body) :
    Written n 2 (Printer.expr depth (.arrow params body)).toList (.arrow params body)
      isNumber := by
  refine .of_assignment (by decide) fun r r' hn hr hstop => ?_
  have htext : (Printer.expr depth (.arrow params body)).toList ++ r =
      (arrowParams params).toList ++ ' ' :: ("=>".toList ++
        ' ' :: ((Printer.arrowBody depth body).toList ++ r)) := by
    rw [expr_arrow]
    simp only [String.toList_append, List.append_assoc]
    rfl
  rw [htext] at hn ⊢
  have hread := arrowParams_text hparams hn rfl
  have hgap := (follows_blank (hbody.solid r hr.wordEnd).skipGap).gap
  rw [assignment_eq hn]
  simp only [List.length_append, List.length_cons] at hn
  have harrow : Production.arrow (nested n) ((arrowParams params).toList ++ ' ' :: ("=>".toList ++
      ' ' :: ((Printer.arrowBody depth body).toList ++ r))) = .ok (.arrow params body, r') := by
    refine (bind_of_ok hread).trans ((bind_of_ok (symbol_text "=>" hgap)).trans ?_)
    exact bind_of_ok (p := arrowBody (nested n))
      (hbody.reads r r' (by rw [List.length_append]; omega) hr hstop)
  -- an arrow function is what is looked for first
  exact bind_of_ok (lookFor_of_ok harrow)

end Descramble.Reader
