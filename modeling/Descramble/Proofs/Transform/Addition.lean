import Descramble.Proofs.Script.WellFormed
import Descramble.Proofs.Transform.Assembly
import Descramble.Proofs.Transform.Candidate

/-!
# What a reduction adds to a script

A reduced program consists of parts of the script, of the stand-ins for the page and of the two
statements that hand out its transforms. So what holds everywhere in the script and in what is added
holds everywhere in the reduction.

Main statements: `pageStandIns_everywhere` and `Program.everywhere_of_reduce`.
-/

namespace Descramble

variable {P : Part → Prop}

/-- Whether a property holds of the parts of every assignment to a property of a variable, apart
    from the value that is assigned. -/
structure Part.OfAssignment (P : Part → Prop) (object name : Name) : Prop where
  stmt (e : Expr) : P (.stmt (.expr e))
  assign (value : Expr) : P (.expr (.assign none (.member (.ident object) name) value))
  member : P (.expr (.member (.ident object) name))
  ident : P (.expr (.ident object))

/-- What holds of these parts and everywhere in the value holds everywhere in the assignment. -/
theorem Part.OfAssignment.everywhere {object name : Name} (h : Part.OfAssignment P object name)
    {value : Expr} (hvalue : Part.Everywhere P (.expr value)) :
    Part.Everywhere P (.stmt (.expr (.assign none (.member (.ident object) name) value))) := by
  -- from the inside out: the object, its property, and the assignment
  have hident : Part.Everywhere P (.expr (.ident object)) := .intro h.ident nofun
  have hmember : Part.Everywhere P (.expr (.member (.ident object) name)) := by
    refine .intro h.member fun part hpart => ?_
    rw [List.mem_singleton.mp hpart]
    exact hident
  refine .intro (h.stmt _) fun part hpart => ?_
  rw [List.mem_singleton.mp hpart]
  refine .intro (h.assign value) fun part hpart => ?_
  rcases List.mem_cons.mp hpart with rfl | hpart
  · exact hmember
  · rw [List.mem_singleton.mp hpart]
    exact hvalue

/-! ## The stand-ins -/

/-- The parts of an address have words as their names. -/
theorem Location.isWord_of_mem_fields {l : Location} {field : String × String}
    (h : field ∈ l.fields) : IsWord field.1 := by
  have hnames : ∀ name ∈ ["hash", "host", "hostname", "href", "origin", "password", "pathname",
      "port", "protocol", "search", "username"], IsWord name := by
    decide
  exact hnames field.1 (List.mem_map_of_mem h)

/-- The object that stands in for a page's location. -/
def locationRecord : Expr :=
  .record ((Location.ofUrl pageAddress).fields.map fun (name, value) => (name, Expr.text value))

/-- The variables that stand in for what a page provides. -/
def pageNames : List Name :=
  ["XMLHttpRequest", "window", "self", "document", "navigator"]

/-- The stand-ins one by one. -/
theorem pageStandIns_eq : pageStandIns =
    [.define "XMLHttpRequest" (.record [("prototype", .record [])]),
     .define "window" .this,
     .define "self" .this,
     .expr (.assign none (.member (.ident "window") "location") locationRecord),
     .define "document" (.record []),
     .define "navigator" (.record [])] :=
  rfl

/-- What holds of every kind of part that the stand-ins consist of holds everywhere in them. -/
theorem pageStandIns_everywhere (hassign : Part.OfAssignment P "window" "location")
    (hdefine : ∀ name ∈ pageNames, ∀ value, P (.stmt (.define name value)))
    (hrecord : ∀ fields : List (Name × Expr), (∀ field ∈ fields, IsWord field.1) →
      P (.expr (.record fields)))
    (htext : ∀ t, P (.expr (.text t))) (hthis : P (.expr .this)) :
    ∀ s ∈ pageStandIns, Part.Everywhere P (.stmt s) := by
  have hdefined : ∀ name ∈ pageNames, ∀ value, Part.Everywhere P (.expr value) →
      Part.Everywhere P (.stmt (.define name value)) := by
    intro name hname value hvalue
    refine .intro (hdefine name hname value) fun part hpart => ?_
    rw [List.mem_singleton.mp hpart]
    exact hvalue
  have hrecorded : ∀ fields : List (Name × Expr), (∀ field ∈ fields, IsWord field.1 ∧
      Part.Everywhere P (.expr field.2)) → Part.Everywhere P (.expr (.record fields)) := by
    intro fields hfields
    refine .intro (hrecord fields fun field h => (hfields field h).1) fun part hpart => ?_
    obtain ⟨property, hproperty, rfl⟩ := List.mem_map.mp hpart
    obtain ⟨field, hfield, rfl⟩ := List.mem_map.mp hproperty
    exact (hfields field hfield).2
  have hempty := hrecorded [] nofun
  have hprototype := hrecorded [("prototype", .record [])] (by
    intro field hfield
    rw [List.mem_singleton.mp hfield]
    exact ⟨by decide, hempty⟩)
  -- the values of the location are texts, however many there are
  have hlocation : Part.Everywhere P (.expr locationRecord) := by
    refine hrecorded _ fun field hfield => ?_
    obtain ⟨named, hnamed, rfl⟩ := List.mem_map.mp hfield
    exact ⟨Location.isWord_of_mem_fields hnamed, .intro (htext _) nofun⟩
  have hthis' : Part.Everywhere P (.expr .this) := .intro hthis nofun
  rw [pageStandIns_eq]
  simp only [List.mem_cons, List.not_mem_nil, or_false, forall_eq_or_imp, forall_eq]
  exact ⟨hdefined _ (by decide) _ hprototype, hdefined _ (by decide) _ hthis',
    hdefined _ (by decide) _ hthis', hassign.everywhere hlocation,
    hdefined _ (by decide) _ hempty, hdefined _ (by decide) _ hempty⟩

/-! ## Reduced programs -/

/-- What holds everywhere in a script and in what the reduction adds holds everywhere in its
    reduction. -/
theorem Program.everywhere_of_reduce {p q : Program} (hP : Part.OfWrapper P)
    (hstandIns : ∀ s ∈ pageStandIns, Part.Everywhere P (.stmt s))
    (hp : ∀ s ∈ p.body, Part.Everywhere P (.stmt s))
    (hhandOut : ∀ m t s c, ModuleCall.ofProgram? p = some m → s ∈ m.statements →
      Candidate.ofStatement? t s = some c → Part.Everywhere P (.stmt (handOut c)))
    (hq : p.reduce = .ok q) : ∀ s ∈ q.body, Part.Everywhere P (.stmt s) := by
  obtain ⟨m, n, sig, hm, hn, hsig, rfl⟩ := reduce_eq_ok_iff.mp hq
  obtain ⟨sn, hsn, hcn⟩ := exists_of_soleCandidate hn
  obtain ⟨ssig, hssig, hcsig⟩ := exists_of_soleCandidate hsig
  have hbody : ∀ s ∈ m.reducedBody n sig, Part.Everywhere P (.stmt s) := by
    -- what is retained was in the script, and the last two statements hand out
    intro s hs
    rcases List.mem_append.mp hs with hs | hs
    · exact ModuleCall.everywhere_statements hm hp s (List.mem_filter.mp hs).1
    · rcases List.mem_cons.mp hs with rfl | hs
      · exact hhandOut m .n sn n hm hsn hcn
      · rw [List.mem_singleton.mp hs]
        exact hhandOut m .sig ssig sig hm hssig hcsig
  -- the program consists of the stand-ins and the module around the reduced body
  intro s hs
  rcases List.mem_append.mp hs with hs | hs
  · exact hstandIns s hs
  · exact ModuleCall.everywhere_rewrap hm hp hP hbody s hs

end Descramble
