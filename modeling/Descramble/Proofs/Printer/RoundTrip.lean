import Descramble.Proofs.Printer.Clause
import Descramble.Script.Equality
import Descramble.Script.Parse

/-!
# The text of a tree is read back as the tree

Every part of a well-formed tree is read from its text, by induction over the parts inside it, as
long as none of them is one whose text reads as something else. What is read from a text is
well-formed, so for trees that were parsed only the second condition is left.

Main statements: `reads_part`, `parse_toText`.
-/

namespace Descramble

namespace Reader

variable {n depth : Nat} {e : Expr}

/-- The text of a part is read as the part, at any depth. -/
def PartReadsBack (n : Nat) : Part → Prop
  | .expr e => ∀ depth, ReadsBack n depth e
  | .stmt st => ∀ depth, StmtReadsBack n depth st

/-- An expression that is read as an operand, where calls are allowed and where they are not. -/
theorem ReadsBack.of_access (hsound : e.Sound) (k : Nat) (hk : e.binding = k) (hge : 17 ≤ k)
    (h : ∀ calls, (calls = false → e.accessesCall = false) →
      ResumesAccess n calls (Printer.expr depth e).toList e e.isNumber) : ReadsBack n depth e where
  sound := hsound
  written := .of_access ((leads_expr depth e hsound).mono fun _ => by omega)
    (h true fun hfalse => by cases hfalse)
  constructed _ hno := h false fun _ => hno

/-- An expression that no access or call can follow without parentheses. -/
theorem ReadsBack.of_written (hsound : e.Sound) (k : Nat) (hk : e.binding = k) (hlt : k < 17)
    (h : Written n e.binding (Printer.expr depth e).toList e e.isNumber) :
    ReadsBack n depth e where
  sound := hsound
  written := h
  constructed hge := absurd hge (by omega)

/-- An expression is read from its text if every part inside it is. -/
theorem reads_back_expr (hsound : e.Sound) (hfaithful : Part.Everywhere Part.Faithful (.expr e))
    (ih : ∀ part ∈ e.inner, PartReadsBack n part) (depth : Nat) : ReadsBack n depth e := by
  have hexprs (items : List Expr) (hmem : ∀ e' ∈ items, .expr e' ∈ e.inner) :
      ∀ e' ∈ items, ReadsBack n depth e' :=
    fun e' he' => ih (.expr e') (hmem e' he') depth
  have hstmts (body : List Stmt) (hmem : ∀ st ∈ body, .stmt st ∈ e.inner) :
      ∀ st ∈ body, StmtReadsBack n (depth + 1) st :=
    fun st hst => ih (.stmt st) (hmem st hst) (depth + 1)
  -- the first two groups can be accessed and called as they are, the others in parentheses only
  cases e with
  | ident name => exact .of_access hsound 18 rfl (by decide) fun _ _ => resumes_ident hsound.here
  | literal value =>
    exact .of_access hsound 18 rfl (by decide) fun _ _ => resumes_literal hsound.here hfaithful.here
  | this => exact .of_access hsound 18 rfl (by decide) fun _ _ => resumes_this
  | array items =>
    have hitems := hexprs items fun e' he' => List.mem_map_of_mem he'
    exact .of_access hsound 18 rfl (by decide) fun _ _ => resumes_array hitems
  | object properties =>
    have hvalues (property : Property) (hmem : property ∈ properties) :
        ReadsBack n depth property.value :=
      ih (.expr property.value) (List.mem_map.mpr ⟨property, hmem, rfl⟩) depth
    exact .of_access hsound 18 rfl (by decide) fun _ _ => resumes_object
      (fun property hmem => ⟨hsound.here property hmem, hfaithful.here property hmem⟩) hvalues
  | function name definition =>
    have hbody := hstmts definition.body fun st hst => List.mem_map_of_mem hst
    exact .of_access hsound 18 rfl (by decide) fun _ _ =>
      resumes_function hsound.here.1 hsound.here.2 hbody
  | arrow params body =>
    refine .of_written hsound 2 rfl (by decide) (written_arrow hsound.here ?_)
    cases body with
    | expr e => exact expr_item (ih (.expr e) (.head _) depth) hfaithful
    | block body => exact block_item (hstmts body fun st hst => List.mem_map_of_mem hst)
  | call callee args =>
    have hargs := hexprs args fun e' he' => .tail _ (List.mem_map_of_mem he')
    refine .of_access hsound 17 rfl (by decide) fun calls hcalls => ?_
    -- where no call may be read, a call does not stand without parentheses
    cases calls with
    | true => exact resumes_call (ih (.expr callee) (.head _) depth) hargs hsound
    | false => cases hcalls rfl
  | construct callee args =>
    have hargs := hexprs args fun e' he' => .tail _ (List.mem_map_of_mem he')
    exact .of_access hsound 17 rfl (by decide) fun _ _ =>
      resumes_construct (ih (.expr callee) (.head _) depth) hargs hfaithful.here
  | member target name =>
    exact .of_access hsound 17 rfl (by decide) fun _ hcalls =>
      resumes_member (ih (.expr target) (.head _) depth) hsound hcalls
  | index target key =>
    exact .of_access hsound 17 rfl (by decide) fun _ hcalls =>
      resumes_index (ih (.expr target) (.head _) depth) (ih (.expr key) (.tail _ (.head _)) depth)
        hsound hcalls
  | assign op target value =>
    exact .of_written hsound 2 rfl (by decide) (written_assign op (ih (.expr target) (.head _) depth)
      hsound.here (ih (.expr value) (.tail _ (.head _)) depth))
  | logical op left right =>
    have hwritten : Written n op.binding _ (.logical op left right) false :=
      written_infix (.logical op) (ih (.expr left) (.head _) depth)
        (ih (.expr right) (.tail _ (.head _)) depth)
    refine .of_written hsound op.binding rfl ?_ ?_
    · cases op <;> decide
    · rw [Printer.expr]
      exact hwritten
  | binary op left right =>
    have hwritten : Written n op.binding _ (.binary op left right) false :=
      written_infix (.binary op) (ih (.expr left) (.head _) depth)
        (ih (.expr right) (.tail _ (.head _)) depth)
    refine .of_written hsound op.binding rfl ?_ ?_
    · exact Nat.lt_of_le_of_lt (Infix.binding_range (.binary op)).2 (by decide)
    · rw [Printer.expr]
      exact hwritten
  | unary op arg =>
    refine .of_written hsound 14 rfl (by decide) ?_
    rw [Printer.expr]
    exact written_unary op (ih (.expr arg) (.head _) depth)
  | update op before arg =>
    -- the operator after its operand binds tighter than the one before it
    cases before with
    | true =>
      refine .of_written hsound 14 rfl (by decide) ?_
      rw [Printer.expr]
      exact written_update_before op (ih (.expr arg) (.head _) depth)
    | false =>
      refine .of_written hsound 15 rfl (by decide) ?_
      rw [Printer.expr]
      exact written_update_after op (ih (.expr arg) (.head _) depth)
  | conditional test yes no =>
    exact .of_written hsound 3 rfl (by decide) (written_conditional (ih (.expr test) (.head _) depth)
      (ih (.expr yes) (.tail _ (.head _)) depth)
      (ih (.expr no) (.tail _ (.tail _ (.head _))) depth))
  | sequence items =>
    have hitems := hexprs items fun e' he' => List.mem_map_of_mem he'
    exact .of_written hsound 1 rfl (by decide) (written_sequence hitems hsound.here)

/-- A statement is read from its text if every part inside it is. -/
theorem reads_back_stmt {st : Stmt} (hwf : st.WellFormed)
    (ih : ∀ part ∈ st.inner, PartReadsBack n part) (depth : Nat) : StmtReadsBack n depth st := by
  have hexpr {e : Expr} (hmem : .expr e ∈ st.inner) : ReadsBack n depth e := ih (.expr e) hmem depth
  have hstmt {other : Stmt} (hmem : .stmt other ∈ st.inner) (depth : Nat) :
      StmtReadsBack n depth other :=
    ih (.stmt other) hmem depth
  have hbody {body : List Stmt} (hmem : ∀ other ∈ body, .stmt other ∈ st.inner) (depth : Nat) :
      ∀ other ∈ body, StmtReadsBack n depth other :=
    fun other hother => hstmt (hmem other hother) depth
  -- a case for each kind of statement, with the lemma about its text
  cases st with
  | expr e => exact reads_expr (hexpr (.head _))
  | declare d => exact reads_declare hwf fun e he => hexpr he
  | function name definition =>
    exact reads_function hwf.1 hwf.2 (hbody (fun other hother => List.mem_map_of_mem hother) _)
  | giveBack value =>
    refine reads_giveBack fun e he => hexpr ?_
    rw [Option.mem_def.mp he]
    exact .head _
  | ifElse test yes no =>
    cases no with
    | none => exact reads_if (hexpr (.head _)) (hstmt (.tail _ (.head _)) depth)
    | some no =>
      exact reads_ifElse (hexpr (.head _)) (hstmt (.tail _ (.head _)) depth)
        (hstmt (.tail _ (.tail _ (.head _))) depth) hwf
  | block body => exact reads_block (hbody (fun other hother => List.mem_map_of_mem hother) _)
  | forLoop start test step body =>
    -- all four places of the header and the body lie in the loop
    have hmem {part : Part} (h : part ∈ start.toList.flatMap ForStart.inner ∨
        part ∈ test.toList.map Part.expr ∨ part ∈ step.toList.map Part.expr ∨
          part = .stmt body) : part ∈ (Stmt.forLoop start test step body).inner := by
      simp only [Stmt.inner, List.mem_append, List.mem_singleton, or_assoc]
      exact h
    refine reads_for ?_ (fun e he => hexpr (hmem (.inl he)))
      (fun e he => hexpr (hmem (.inr (.inl ?_))))
      (fun e he => hexpr (hmem (.inr (.inr (.inl ?_)))))
      (hstmt (hmem (.inr (.inr (.inr rfl)))) depth)
    · rintro d rfl
      exact hwf
    · rw [Option.mem_def.mp he]
      exact .head _
    · rw [Option.mem_def.mp he]
      exact .head _
  | whileLoop test body =>
    exact reads_while (hexpr (.head _)) (hstmt (.tail _ (.head _)) depth)
  | switch subject cases =>
    have hclause {part : Part} {clause : SwitchCase} (hclause : clause ∈ cases)
        (hpart : part ∈ clause.inner) : part ∈ (Stmt.switch subject cases).inner :=
      .tail _ (List.mem_flatMap.mpr ⟨clause, hclause, hpart⟩)
    refine reads_switch (hexpr (.head _)) (fun clause hmem e he => ?_)
      fun clause hmem other hother => ?_
    · refine ih (.expr e) (hclause hmem (List.mem_append_left _ ?_)) _
      rw [Option.mem_def.mp he]
      exact .head _
    · exact hstmt (hclause hmem (List.mem_append_right _ (List.mem_map_of_mem hother))) _
  | attempt body handler finalizer =>
    have hmem {part : Part} (h : part ∈ body.map Part.stmt ∨
        part ∈ handler.toList.flatMap CatchClause.inner ∨
          part ∈ (finalizer.getD []).map Part.stmt) :
        part ∈ (Stmt.attempt body handler finalizer).inner := by
      simp only [Stmt.inner, List.mem_append, or_assoc]
      exact h
    refine reads_attempt hwf.1 hwf.2
      (hbody (fun other hother => hmem (.inl (List.mem_map_of_mem hother))) _)
      (fun clause hclause other hother => hstmt (hmem (.inr (.inl ?_))) _)
      (fun body' hbody' other hother => hstmt (hmem (.inr (.inr ?_))) _)
    · rw [Option.mem_def.mp hclause, Option.toList_some, List.flatMap_singleton]
      exact List.mem_map_of_mem hother
    · rw [Option.mem_def.mp hbody']
      exact List.mem_map_of_mem hother
  | raise value => exact reads_raise (hexpr (.head _))
  | breakOut => exact reads_breakOut
  | continueLoop => exact reads_continueLoop
  | empty => exact reads_empty

/-- Every part of a well-formed tree is read from its text. -/
theorem reads_part {part : Part} (hwf : Part.Everywhere Part.WellFormed part)
    (hfaithful : Part.Everywhere Part.Faithful part) : PartReadsBack n part := by
  -- by induction over the parts inside, which are well-formed and no exceptions either
  induction part using Part.induction with
  | step part ih =>
    have hinner (other : Part) (hmem : other ∈ part.inner) : PartReadsBack n other :=
      ih other hmem (hwf.inside hmem) (hfaithful.inside hmem)
    cases part with
    | expr e => exact reads_back_expr hwf hfaithful hinner
    | stmt st => exact reads_back_stmt hwf.here hinner

end Reader

/-! ## Whole texts -/

/-- What is made of a whole text, from what the reader takes after the first gap. -/
theorem readWhole_of_ok {α : Type} {reader : Nat → Reader α} {text : String} {mid : List Char}
    {a : α} (hgap : Reader.skipGap text.toList = .ok mid)
    (h : reader (text.toList.length + 1) mid = .ok (a, [])) : readWhole reader text = .ok a := by
  have hread : (do Reader.gap; reader (text.toList.length + 1) : Reader α) text.toList =
      .ok (a, []) :=
    (Reader.bind_of_ok (Reader.gap_text hgap)).trans h
  unfold readWhole
  dsimp only
  rw [hread]

/-- What a whole text was read as, the reader took after the first gap, and nothing was left. -/
theorem readWhole_eq_ok {α : Type} {reader : Nat → Reader α} {text : String} {a : α}
    (h : readWhole reader text = .ok a) :
    ∃ mid, mid.length < text.toList.length + 1 ∧
      reader (text.toList.length + 1) mid = .ok (a, []) := by
  unfold readWhole at h
  dsimp only at h
  split at h
  · rename_i hread
    obtain ⟨_, mid, hgap, hreader⟩ := Reader.bind_eq_ok hread
    have hlen := (Reader.alike_gap.reads _ _ mid (Nat.lt_succ_self _) hgap).2.1
    cases h
    exact ⟨mid, by omega, hreader⟩
  · cases h
  · cases h

/-- The statements of a program that was parsed are well-formed. -/
theorem Program.sound_of_parse {text : String} {p : Program} (h : Program.parse text = .ok p) :
    ∀ st ∈ p.body, st.Sound := by
  obtain ⟨mid, hmid, hread⟩ := readWhole_eq_ok h
  obtain ⟨body, rest, hmany, hpure⟩ := Reader.bind_eq_ok hread
  cases hpure
  exact ((Reader.self_alike.statement.many (Nat.le_refl _) (Nat.le_refl _)).reads mid body [] hmid
    hmany).2.2

/-- An expression that was parsed is well-formed. -/
theorem Expr.sound_of_parse {text : String} {e : Expr} (h : Expr.parse text = .ok e) :
    e.Sound := by
  obtain ⟨mid, hmid, hread⟩ := readWhole_eq_ok h
  exact ((Reader.Production.alike_innerExpr Reader.self_alike).reads mid e [] hmid hread).2.2

/-- A program is read back from its text. -/
theorem Program.parse_toText_of_sound {p : Program} (hsound : ∀ st ∈ p.body, st.Sound)
    (hfaithful : p.Faithful) : Program.parse p.toText = .ok p := by
  have hbody (st : Stmt) (hmem : st ∈ p.body) :
      Reader.StmtReadsBack (p.toText.toList.length + 1) 0 st :=
    Reader.reads_part (hsound st hmem) (hfaithful st hmem) 0
  have hlines : (Printer.indentedLines 0 (Printer.stmts 0 p.body)).toList ++ [] =
      p.toText.toList :=
    List.append_nil _
  have hbound := Reader.length_le_indentedLines 0 (Printer.stmts 0 p.body)
  rw [Reader.length_stmts] at hbound
  -- the last statement ends at the end of the text
  have hend : Reader.Fails (Reader.nested (p.toText.toList.length + 1)).statement [] :=
    Reader.statement_fails_at_end (Nat.succ_pos _) fun _ h => by cases h
  obtain ⟨s, hs, _, _, hmany⟩ := Reader.many_text 0 (p.toText.toList.length + 1) hbody
    (Nat.le_succ_of_le hbound) (by rw [hlines]; exact Nat.lt_succ_self _) rfl hend (by decide)
    (by decide)
  rw [hlines] at hs
  exact readWhole_of_ok hs (Reader.bind_of_ok hmany)

/-- An expression is read back from its text. -/
theorem Expr.parse_toText_of_sound {e : Expr} (hsound : e.Sound)
    (hfaithful : Part.Everywhere Part.Faithful (.expr e)) : Expr.parse e.toText = .ok e := by
  have he : Reader.ReadsBack (e.toText.toList.length + 1) 0 e :=
    Reader.reads_part hsound hfaithful 0
  obtain ⟨kind, hkind, _⟩ := he.leads [] fun _ h => by cases h
  have hgap := hkind.solid.skipGap
  have hread := he.written.whole [] []
    (by rw [List.append_nil]; exact Nat.lt_succ_self _) ⟨rfl, fun _ h => by cases h⟩
    (Reader.stops_nil.mono (Nat.zero_le 1))
  rw [List.append_nil] at hgap hread
  exact readWhole_of_ok hgap hread

/-- A program or an expression that was parsed is read back from its text, unless a part of it is
    one whose text reads as something else. -/
theorem parse_toText :
    (∀ (text : String) (p : Program), Program.parse text = .ok p → p.Faithful →
      Program.parse p.toText = .ok p) ∧
    ∀ (text : String) (e : Expr), Expr.parse text = .ok e →
      Part.Everywhere Part.Faithful (.expr e) → Expr.parse e.toText = .ok e :=
  ⟨fun _ _ h hfaithful => Program.parse_toText_of_sound (Program.sound_of_parse h) hfaithful,
    fun _ _ h hfaithful => Expr.parse_toText_of_sound (Expr.sound_of_parse h) hfaithful⟩

/-- An object that is constructed with an arrow function: neither is among the exceptions. -/
theorem parse_toText_construct :
    Program.parse (Program.toText ⟨[.expr (.construct (.member (.ident "a") "b")
        [.arrow [] (.expr (.ident "c"))])]⟩) =
      .ok ⟨[.expr (.construct (.member (.ident "a") "b") [.arrow [] (.expr (.ident "c"))])]⟩ := by
  -- of the parts, only the arrow function and the construction could be exceptions
  refine parse_toText.1 "new a.b(() => c);" _ (by decide +kernel) fun st hst => ?_
  cases List.mem_singleton.mp hst
  have hident (name : Name) : Part.Everywhere Part.Faithful (.expr (.ident name)) :=
    .intro trivial fun _ h => by cases h
  have hmember : Part.Everywhere Part.Faithful (.expr (.member (.ident "a") "b")) := by
    refine .intro trivial fun other hother => ?_
    cases List.mem_singleton.mp hother
    exact hident "a"
  have harrow : Part.Everywhere Part.Faithful (.expr (.arrow [] (.expr (.ident "c")))) := by
    refine .intro (.inr ?_) fun other hother => ?_
    · rw [Printer.arrowBody, Printer.expr]
      decide
    · cases List.mem_singleton.mp hother
      exact hident "c"
  refine .intro trivial fun other hother => ?_
  cases List.mem_singleton.mp hother
  refine .intro (.inr rfl) fun other hother => ?_
  rcases List.mem_cons.mp hother with rfl | hother
  · exact hmember
  · cases List.mem_singleton.mp hother
    exact harrow

end Descramble
