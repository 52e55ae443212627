import Descramble.Proofs.Transform.Addition
import Descramble.Proofs.Transform.Wrapper
import Descramble.Transform.Solution

/-!
# The reduced text

A reduced program is put together from parts of the script and from parts that read back from their
texts. So its text spells it, unless one of the retained parts is written in a way that reads as
something else.

Main statements: `Program.sound_of_reduce`, `Program.faithful_of_reduce`, `reduceText_spells` and
`Program.wellFormed_of_parse`.
-/

namespace Descramble

/-! ## The parts that are not in the script -/

/-- An assignment to a property is well-formed if the names are. -/
theorem ofAssignment_wellFormed {object name : Name} (hobject : IsName object)
    (hname : IsWord name) : Part.OfAssignment Part.WellFormed object name where
  stmt _ := trivial
  assign _ := rfl
  member := hname
  ident := hobject

/-- The stand-ins for the page are well-formed. -/
theorem pageStandIns_sound : ∀ s ∈ pageStandIns, s.Sound := by
  apply pageStandIns_everywhere (ofAssignment_wellFormed (by decide) (by decide))
  -- a stand-in declares one variable, whose name is a word that is not reserved
  · intro name hname value
    have hnames : ∀ name ∈ pageNames, IsName name := by decide
    refine ⟨nofun, fun x hx => ?_⟩
    rw [List.mem_singleton.mp hx]
    exact hnames name hname
  -- the keys of the records are words
  · intro fields hfields property hproperty
    obtain ⟨field, hfield, rfl⟩ := List.mem_map.mp hproperty
    exact hfields field hfield
  · exact fun _ => trivial
  · exact trivial

/-- An assignment to a property is read back as one. -/
theorem ofAssignment_faithful (object name : Name) :
    Part.OfAssignment Part.Faithful object name :=
  ⟨fun _ => trivial, fun _ => trivial, trivial, trivial⟩

/-- The stand-ins for the page are read back as they are. -/
theorem pageStandIns_faithful :
    ∀ s ∈ pageStandIns, Part.Everywhere Part.Faithful (.stmt s) := by
  apply pageStandIns_everywhere (ofAssignment_faithful "window" "location")
  · exact fun _ _ _ => trivial
  · intro fields _ property hproperty
    obtain ⟨field, _, rfl⟩ := List.mem_map.mp hproperty
    rfl
  · exact fun _ => trivial
  · exact trivial

/-! ## Reduced programs -/

/-- The statement that hands out a transform is well-formed if the candidate is. -/
theorem handOut_sound {c : Candidate} (h : c.Sound) : (handOut c).Sound :=
  (ofAssignment_wellFormed (by decide) c.transform.isName_name.1).everywhere
    (Candidate.wrapper_sound h)

/-- The wrapper of a module is well-formed where the one in the script is. -/
theorem Part.ofWrapper_wellFormed : Part.OfWrapper Part.WellFormed where
  stmt := id
  call := id
  member := id
  index := id
  function := id

/-- The same for being read back. -/
theorem Part.ofWrapper_faithful : Part.OfWrapper Part.Faithful where
  stmt := id
  call := id
  member := id
  index := id
  function := id

namespace Program

variable {p q : Program}

/-- The reduction of a well-formed script is well-formed. -/
theorem sound_of_reduce (hp : ∀ s ∈ p.body, s.Sound) (hq : p.reduce = .ok q) :
    ∀ s ∈ q.body, s.Sound := by
  apply everywhere_of_reduce Part.ofWrapper_wellFormed pageStandIns_sound hp _ hq
  -- a candidate is made of parts of a statement of the module
  intro m t s c hm hs hc
  have hsound : s.Sound := ModuleCall.everywhere_statements hm hp s hs
  exact handOut_sound (Candidate.sound_of_ofStatement? hsound hc)

/-- The reduction of a script whose text spells it is such a program again. -/
theorem faithful_of_reduce (hp : ∀ s ∈ p.body, s.Sound) (hfaithful : p.Faithful)
    (hq : p.reduce = .ok q) : q.Faithful := by
  apply everywhere_of_reduce Part.ofWrapper_faithful pageStandIns_faithful hfaithful _ hq
  intro m t s c hm hs hc
  have hsound : s.Sound := ModuleCall.everywhere_statements hm hp s hs
  -- a candidate passes what a statement of the module has in it, and its callee is a name
  have hname : IsName c.callee := (Candidate.sound_of_ofStatement? hsound hc).1
  have hleading := Candidate.everywhere_of_ofStatement?
    (ModuleCall.everywhere_statements hm hfaithful s hs) hc
  exact (ofAssignment_faithful resultName c.transform.name).everywhere
    (Candidate.wrapper_faithful hname hleading)

end Program

/-- A text is reduced as the program that it is read as. -/
theorem reduceText_of_parse {text : String} {p : Program} (h : Program.parse text = .ok p) :
    reduceText text = p.reduce.map Program.toText := by
  unfold reduceText
  rw [h]

/-- The reduced text of a script is read back as the reduced program and is run as that program,
    unless a part of the program is one whose text reads as something else. A script without such
    parts has no such program. -/
theorem reduceText_spells {text : String} {p q : Program} (hp : Program.parse text = .ok p)
    (hq : p.reduce = .ok q) :
    reduceText text = .ok q.toText ∧ (p.Faithful → q.Faithful) ∧
      (q.Faithful → Program.parse q.toText = .ok q ∧
        Solution.ofText q.toText = Solution.ofProgram q) := by
  have hsound := Program.sound_of_parse hp
  refine ⟨?_, fun h => Program.faithful_of_reduce hsound h hq, fun h => ?_⟩
  · rw [reduceText_of_parse hp, hq]
    rfl
  -- what is read back is the program, so it is also what is run
  · have hparse := Program.parse_toText_of_sound (Program.sound_of_reduce hsound hq) h
    refine ⟨hparse, ?_⟩
    unfold Solution.ofText
    rw [hparse]

/-! ## A text that is read as another program -/

/-- A module that assigns a value to `x`, with one candidate for each transform. -/
def assigningModule (value : Expr) : ModuleCall :=
  ⟨[], none, ⟨[],
    [.expr (.assign none (.ident "x") value),
      .expr (.assign none (.ident "a") (.array [.ident "b"])),
      .function "s" ⟨["x", "y", "z"],
        [.expr (.logical .and (.ident "x") (.sequence
          [.assign none (.ident "x") (.call (.ident "f") [.call (.ident "g") [.ident "x"]]),
            .call (.ident "h") []])),
          .expr (.ident "x")]⟩]⟩, .direct, []⟩

/-- The script of such a module. -/
def assigningScript (value : Expr) : Program :=
  ⟨(assigningModule value).rewrap (assigningModule value).definition.body⟩

/-- Its reduction. -/
def assigningReduction (value : Expr) : Program :=
  (assigningModule value).assemble ⟨.n, "b", []⟩ ⟨.sig, "f", []⟩

/-- Constructs what a method `g` of the result of a call constructs. -/
def constructedMethod : Expr :=
  .construct (.member (.call (.ident "f") []) "g") []

/-- Calls a method `g` of a constructed object. -/
def methodOfConstructed : Expr :=
  .call (.member (.construct (.ident "f") []) "g") []

/-- A script whose module constructs with a method. -/
theorem parse_constructedMethod : Program.parse
    "(function()\x7bx=new (f().g)();a=[b];function s(x,y,z)\x7bx&&(x=f(g(x)),h());x\x7d\x7d)();" =
      .ok (assigningScript constructedMethod) := by
  decide +kernel

/-- A script whose module calls a method of what it constructs. -/
theorem parse_methodOfConstructed : Program.parse
    "(function()\x7bx=new f().g();a=[b];function s(x,y,z)\x7bx&&(x=f(g(x)),h());x\x7d\x7d)();" =
      .ok (assigningScript methodOfConstructed) := by
  decide +kernel

/-- Both have a reduction that retains the expression. -/
theorem reduce_constructedMethod : (assigningScript constructedMethod).reduce =
    .ok (assigningReduction constructedMethod) := by
  rfl

/-- The reduction of the second script. -/
theorem reduce_methodOfConstructed : (assigningScript methodOfConstructed).reduce =
    .ok (assigningReduction methodOfConstructed) := by
  rfl

/-- The two reductions have one text. -/
theorem toText_constructedMethod : (assigningReduction constructedMethod).toText =
    (assigningReduction methodOfConstructed).toText := by
  decide +kernel

/-- Every part of the second script is read back as it is. -/
theorem faithful_methodOfConstructed : (assigningScript methodOfConstructed).Faithful := by
  -- each statement is checked down to its smallest parts
  have hchecks : ∀ s ∈ (assigningScript methodOfConstructed).body,
      Part.checks Part.Faithful 16 (.stmt s) = true := by
    decide +kernel
  exact fun s hs => Part.everywhere_of_checks (hchecks s hs)

/-- The reduced text of a script that retains such an expression is read back as the reduced
    program. -/
theorem reduceText_spells_methodOfConstructed :
    Program.parse
      "(function()\x7bx=new f().g();a=[b];function s(x,y,z)\x7bx&&(x=f(g(x)),h());x\x7d\x7d)();" =
        .ok (assigningScript methodOfConstructed) ∧
    (assigningScript methodOfConstructed).reduce = .ok (assigningReduction methodOfConstructed) ∧
    reduceText
      "(function()\x7bx=new f().g();a=[b];function s(x,y,z)\x7bx&&(x=f(g(x)),h());x\x7d\x7d)();" =
        .ok (assigningReduction methodOfConstructed).toText ∧
    (assigningReduction methodOfConstructed).Faithful ∧
    Program.parse (assigningReduction methodOfConstructed).toText =
      .ok (assigningReduction methodOfConstructed) := by
  obtain ⟨htext, hfaithful, hspells⟩ :=
    reduceText_spells parse_methodOfConstructed reduce_methodOfConstructed
  -- the second part carries the property over to the reduction, and the third reads it back
  have hreduction := hfaithful faithful_methodOfConstructed
  exact ⟨parse_methodOfConstructed, reduce_methodOfConstructed, htext, hreduction,
    (hspells hreduction).1⟩

/-- Not every reduced text is read back as the reduced program: two scripts with different
    reductions have the same reduced text, since the parentheses around the callee of `new` are left
    out. -/
theorem reduceText_not_spelling :
    ¬ ∀ text p q, Program.parse text = .ok p → p.reduce = .ok q →
      ∃ out, reduceText text = .ok out ∧ Program.parse out = .ok q := by
  intro hall
  obtain ⟨out, hout, hparse⟩ := hall _ _ _ parse_constructedMethod reduce_constructedMethod
  obtain ⟨out', hout', hparse'⟩ := hall _ _ _ parse_methodOfConstructed reduce_methodOfConstructed
  rw [reduceText_of_parse parse_constructedMethod, reduce_constructedMethod] at hout
  rw [reduceText_of_parse parse_methodOfConstructed, reduce_methodOfConstructed] at hout'
  -- both scripts have this text, which can be read as one program only
  have hsame : out = out' :=
    (Except.ok.inj hout).symm.trans (toText_constructedMethod.trans (Except.ok.inj hout'))
  rw [hsame, hparse'] at hparse
  exact absurd (Except.ok.inj hparse) (by decide +kernel)

/-! ## Well-formedness -/

/-- Whatever a text is read as is well-formed in every part, and so is what such a program is
    reduced to. -/
theorem Program.wellFormed_of_parse {text : String} {p : Program}
    (h : Program.parse text = .ok p) :
    (∀ s ∈ p.body, Part.Everywhere Part.WellFormed (.stmt s)) ∧
      ∀ q, p.reduce = .ok q → ∀ s ∈ q.body, Part.Everywhere Part.WellFormed (.stmt s) := by
  -- the reader gives well-formed trees only, and a reduction keeps them so
  have hsound : ∀ s ∈ p.body, s.Sound := Program.sound_of_parse h
  exact ⟨hsound, fun q hq => Program.sound_of_reduce hsound hq⟩

/-- An `else` after two `if`s, and one more. The first belongs to the inner `if`. -/
def nearestElse : Expr :=
  .function none ⟨[], [.ifElse (.ident "p")
    (.ifElse (.ident "q") (.giveBack none) (some .empty)) (some (.expr (.ident "r")))]⟩

/-- A script that retains such statements, for instance. -/
theorem Program.wellFormed_of_parse_nearestElse :
    Program.parse
      "(function()\x7bx=function()\x7bif(p)if(q)return;else;else r\x7d;a=[b];function s(x,y,z)\x7bx&&(x=f(g(x)),h());x\x7d\x7d)();" =
        .ok (assigningScript nearestElse) ∧
    (assigningScript nearestElse).reduce = .ok (assigningReduction nearestElse) ∧
    ∀ s ∈ (assigningReduction nearestElse).body, Part.Everywhere Part.WellFormed (.stmt s) := by
  have hparse : Program.parse
      "(function()\x7bx=function()\x7bif(p)if(q)return;else;else r\x7d;a=[b];function s(x,y,z)\x7bx&&(x=f(g(x)),h());x\x7d\x7d)();" =
        .ok (assigningScript nearestElse) := by
    decide +kernel
  have hreduce : (assigningScript nearestElse).reduce =
      .ok (assigningReduction nearestElse) := by
    rfl
  exact ⟨hparse, hreduce, (Program.wellFormed_of_parse hparse).2 _ hreduce⟩

end Descramble
