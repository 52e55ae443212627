import Descramble.Proofs.Evaluation.Entering
import Descramble.Proofs.Transform.Addition
import Descramble.Proofs.Transform.Forwarding
import Descramble.Proofs.Value.Property
import Descramble.Transform.Solution

/-!
# What a reduced program leaves behind

A reduced program hands out its transforms at the end of the module. Where no statement before that
leads out of the module, the program either fails or gets there; and then the record that the host
provides holds two functions, whatever the script has declared, assigned or called.

Main statement: `Program.delivers_of_reduce`.
-/

namespace Descramble

open Descramble.Action

/-! ## Handing out -/

namespace Candidate

variable {x : Candidate} {c : Context} {record : ObjectRef} {s : Store}

/-- The store after a transform has been handed out in a record. -/
def handedOut (x : Candidate) (c : Context) (record : ObjectRef) (s : Store) : Store :=
  (s.addObject (.function (x.forwarder c))).2.setOwn record x.transform.name
    (.object ⟨s.objects.size⟩)

section

variable (hlt : record.index < s.objects.size) (hlist : (s.object record).isList = false)

include hlt

/-- What is handed out is a function. -/
theorem callable?_handedOut :
    (x.handedOut c record s).callable? (.object ⟨s.objects.size⟩) = some (x.forwarder c) := by
  -- the function is new, so writing to the record leaves it alone
  have hne : (⟨s.objects.size⟩ : ObjectRef) ≠ record := by
    rintro rfl
    exact Nat.lt_irrefl _ hlt
  refine Store.callable?_eq_some_iff.mpr ⟨_, rfl, ?_⟩
  rw [handedOut, Store.object_setOwn_of_ne _ _ hne,
    show (s.addObject _).2.object ⟨s.objects.size⟩ = _ from s.object_addObject _]
  rfl

include hlist

/-- Handing out puts the function into the record, under the name of its transform. -/
theorem object_handedOut : (x.handedOut c record s).object record =
    (s.object record).insert x.transform.name (.object ⟨s.objects.size⟩) := by
  have hsame := Store.object_addObject_of_lt hlt (.function (x.forwarder c))
  have hlt' : record.index < (s.addObject (.function (x.forwarder c))).2.objects.size :=
    Nat.lt_of_lt_of_le hlt (by simp [Store.addObject])
  -- the record is no array, so its slot is written as any property
  rw [handedOut, Store.object_setOwn hlt' (Store.isListLength_of_not_list (by rw [hsame, hlist])),
    hsame]

/-- Handing out a transform asks for nothing. -/
theorem run_handOut (hlookup : s.lookup? c.scope resultName = some (.object record)) :
    run c (handOut x) s = .done (.ok .normal) (x.handedOut c record s) := by
  have hplace : evalPlace c (.member (.ident resultName) x.transform.name) s =
      .done (.ok (.property (.object record) x.transform.name)) s := by
    simp only [evalPlace, eval]
    rw [bind_of_done (getVariable_of_lookup? hlookup)]
    rfl
  have hset : setPlace c (.object ⟨s.objects.size⟩) (.property (.object record) x.transform.name)
      (s.addObject (.function (x.forwarder c))).2 = .done (.ok ()) (x.handedOut c record s) := by
    have hsame := Store.object_addObject_of_lt hlt (.function (x.forwarder c))
    exact setProperty_of_not_isListLength (Store.isListLength_of_not_list (by rw [hsame, hlist])) _
  simp only [handOut, run, eval]
  rw [Action.bind_assoc, bind_of_done hplace, Action.bind_assoc,
    bind_of_done (eval_wrapper x c s), Action.bind_assoc, bind_of_done hset]
  rfl

end

end Candidate

/-- A store in which a program can hand out its transforms in a record: the name of the result means
    the record everywhere. -/
structure Store.Offers (s : Store) (record : ObjectRef) : Prop where
  wellScoped : s.WellScoped resultName
  root : (s.scope .root).names.get? resultName = some (.object record)
  lt : record.index < s.objects.size
  isList : (s.object record).isList = false

/-- A store in which a record holds a function for every transform. -/
def Store.Delivers (s : Store) (record : ObjectRef) : Prop :=
  ∀ t : Transform, ∃ f, (s.object record).get? t.name = some f ∧ s.isFunction f = true

namespace Store.Offers

variable {s s' : Store} {record : ObjectRef} {c : Context}

/-- Whatever is done to a store that leaves the name alone, it goes on offering the record. -/
theorem of_leads (h : s.Offers record) (hleads : s.Leads resultName s') : s'.Offers record where
  wellScoped := hleads.wellScoped
  root := hleads.root_eq.trans h.root
  lt := Nat.lt_of_lt_of_le h.lt hleads.objects_le
  isList := by
    have hshape := hleads.shape_eq record h.lt
    rw [Bool.eq_false_iff, ne_eq, Object.isList_iff_shape, hshape, ← Object.isList_iff_shape,
      h.isList]
    exact Bool.false_ne_true

/-- Handing out asks for nothing where the record is offered. -/
theorem run_handOut (h : s.Offers record) (hc : c.scope.index < s.scopes.size) (x : Candidate) :
    Action.run c (handOut x) s = .done (.ok .normal) (x.handedOut c record s) :=
  Candidate.run_handOut h.lt h.isList (h.wellScoped.lookup?_eq h.root hc)

/-- Handing out leaves the name of the result alone. -/
theorem leads_handedOut (h : s.Offers record) (hc : c.scope.index < s.scopes.size) {x : Candidate}
    (hx : Part.Everywhere (Part.Spares resultName) (.stmt (handOut x))) :
    s.Leads resultName (x.handedOut c record s) := by
  have hkeeps := run_keeps hx hc s h.wellScoped (Nat.le_refl _)
  rw [h.run_handOut hc] at hkeeps
  exact hkeeps.1

/-- The two statements at the end of a module fill the record. -/
theorem delivers_of_handOuts (h : s.Offers record) (hc : c.scope.index < s.scopes.size)
    {n sig : Candidate} (hn : n.transform = .n) (hsig : sig.transform = .sig)
    (hspares : ∀ x ∈ [n, sig], Part.Everywhere (Part.Spares resultName) (.stmt (handOut x)))
    {d : Nat} {completion : Completion}
    (hends : (runAll c [handOut n, handOut sig] s).Ends d (.ok completion) s' d) :
    s'.Delivers record := by
  -- after the first statement the record is still offered, for the second
  have hfirst := h.leads_handedOut hc (hspares n (.head _))
  have hc' := Nat.lt_of_lt_of_le hc hfirst.scopes_le
  have hoffers := h.of_leads hfirst
  have hsecond := hoffers.leads_handedOut hc' (hspares sig (.tail _ (.head _)))
  -- neither statement asks for anything, so both are done one after the other
  have hrun : runAll c [handOut n, handOut sig] s =
      .done (.ok .normal) (sig.handedOut c record (n.handedOut c record s)) := by
    simp only [runAll]
    rw [bind_of_done (h.run_handOut hc n)]
    dsimp only
    rw [bind_of_done (hoffers.run_handOut hc' sig)]
    rfl
  rw [hrun] at hends
  obtain ⟨-, rfl⟩ := Step.Ends.done_iff.mp hends
  intro t
  -- the second assignment writes to another slot than the first
  cases t with
  | n =>
    refine ⟨.object ⟨s.objects.size⟩, ?_, ?_⟩
    · rw [Candidate.object_handedOut hoffers.lt hoffers.isList, hsig,
        Object.get?_insert_of_ne hoffers.isList _ (by decide),
        Candidate.object_handedOut h.lt h.isList, hn, Object.get?_insert_self h.isList]
    · rw [Store.isFunction, hsecond.callable?_eq (Candidate.callable?_handedOut h.lt)]
      rfl
  | sig =>
    refine ⟨.object ⟨(n.handedOut c record s).objects.size⟩, ?_, ?_⟩
    · rw [Candidate.object_handedOut hoffers.lt hoffers.isList, hsig,
        Object.get?_insert_self hoffers.isList]
    · rw [Store.isFunction, Candidate.callable?_handedOut hoffers.lt]
      rfl

end Store.Offers

/-! ## Reduced programs -/

/-- An assignment to a property introduces no name. -/
theorem ofAssignment_spares {name : Name} (object property : Name) :
    Part.OfAssignment (Part.Spares name) object property :=
  ⟨fun _ => List.not_mem_nil, fun _ => List.not_mem_nil, List.not_mem_nil, List.not_mem_nil⟩

/-- The wrapper around a module introduces no name. -/
theorem ofWrapper_spares {name : Name} : Part.OfWrapper (Part.Spares name) where
  stmt := id
  call := id
  member := id
  index := id
  function := id

/-- None of the stand-ins has the name of the result. -/
theorem pageStandIns_spares :
    ∀ s ∈ pageStandIns, Part.Everywhere (Part.Spares resultName) (.stmt s) := by
  apply pageStandIns_everywhere (ofAssignment_spares "window" "location")
  · intro name hname value hmem
    have hnames : resultName ∉ pageNames := by decide
    rw [List.mem_singleton.mp hmem] at hnames
    exact hnames hname
  · exact fun _ _ => List.not_mem_nil
  · exact fun _ => List.not_mem_nil
  · exact List.not_mem_nil

/-- The parameter of a wrapper is not the name of the result. -/
theorem handOut_spares {x : Candidate}
    (h : ∀ e ∈ x.leading, Part.Everywhere (Part.Spares resultName) (.expr e)) :
    Part.Everywhere (Part.Spares resultName) (.stmt (handOut x)) := by
  have hparam : resultName ∉ [x.transform.name] := by
    cases x.transform <;> decide
  exact (ofAssignment_spares resultName x.transform.name).everywhere
    (Candidate.everywhere_wrapper hparam (fun _ => List.not_mem_nil) List.not_mem_nil
      List.not_mem_nil h)

/-- The reduction of a script that spares the name of the result spares it. -/
theorem Program.spares_of_reduce {p q : Program} (hp : p.Spares resultName)
    (hq : p.reduce = .ok q) : q.Spares resultName := by
  apply Program.everywhere_of_reduce ofWrapper_spares pageStandIns_spares hp _ hq
  intro m t s c hm hs hc
  exact handOut_spares (Candidate.everywhere_of_ofStatement?
    (ModuleCall.everywhere_statements hm hp s hs) hc)

/-! ## Runs of reduced programs -/

namespace ModuleCall

variable {m : ModuleCall} {n sig : Candidate} {c : Context} {d : Nat} {s s' : Store}

/-- A module function that is called directly or by one of its methods is entered. -/
theorem enters_of_call {name : Name} (hargs : name ≠ "arguments")
    (hentry : m.entry = .direct ∨ m.entry = .member "call" ∨ m.entry = .member "apply")
    {definition : Function}
    (hspares : Part.Everywhere (Part.Spares name)
      (.expr (.call (m.entry.callee (.function m.name definition)) m.args)))
    (hs : s.WellScoped name) (hc : c.scope.index < s.scopes.size) {v : Value}
    (h : (eval c (.call (m.entry.callee (.function m.name definition)) m.args) s).Ends d
      (.ok v) s' d) : Enters name s definition s' := by
  have hes : ∀ e ∈ m.args, Part.Everywhere (Part.Spares name) (.expr e) :=
    fun e he => hspares.inside (.tail _ (List.mem_map_of_mem he))
  have hf := Entry.everywhere_of_callee (hspares.inside (.head _))
  have hnames : name ∉ m.name.toList ++ definition.params := hf.here
  rw [List.mem_append, not_or, Option.mem_toList] at hnames
  have hdef : definition.Spares name := ⟨hnames.2, fun _ => hf.inside⟩
  obtain hentry | hentry | hentry := hentry
  · rw [hentry] at h
    exact enters_of_direct hargs hs hc hnames.1 hdef hes h
  · rw [hentry] at h
    exact enters_of_method hargs hs hc hnames.1 hdef hes (.inl rfl) h
  · rw [hentry] at h
    exact enters_of_method hargs hs hc hnames.1 hdef hes (.inr rfl) h

/-- The stand-ins and the statement before the module lead nowhere else. -/
theorem jumpsAll_before (hleading : Stmt.jumpsAll m.leading = []) :
    Stmt.jumpsAll (pageStandIns ++ m.leading) = [] := by
  rw [Stmt.jumpsAll_eq_nil_iff] at hleading ⊢
  intro s hs
  -- the stand-ins are definitions and assignments
  rcases List.mem_append.mp hs with hs | hs
  · have hstandIns : Stmt.jumpsAll pageStandIns = [] := rfl
    exact Stmt.jumpsAll_eq_nil_iff.mp hstandIns s hs
  · exact hleading s hs

/-- What is retained of a module leads nowhere else if nothing in it does. -/
theorem jumpsAll_retained (hbody : Stmt.jumpsAll m.definition.body = []) :
    Stmt.jumpsAll (m.statements.filter Stmt.isRetained) = [] := by
  rw [Stmt.jumpsAll_eq_nil_iff] at hbody ⊢
  intro s hs
  refine hbody s ?_
  rw [← m.skipped_append_statements]
  exact List.mem_append_right _ (List.mem_filter.mp hs).1

/-- A run of a reduced program that comes to its end has filled the record. -/
theorem delivers_of_ends {record : ObjectRef} (hs : s.Offers record)
    (hentry : m.entry = .direct ∨ m.entry = .member "call" ∨ m.entry = .member "apply")
    (hleading : Stmt.jumpsAll m.leading = []) (hbody : Stmt.jumpsAll m.definition.body = [])
    (hn : n.transform = .n) (hsig : sig.transform = .sig)
    (hspares : (m.assemble n sig).Spares resultName) (hc : c.scope.index < s.scopes.size)
    {completion : Completion}
    (h : (runBody c (m.assemble n sig).body s).Ends d (.ok completion) s' d) :
    s'.Delivers record := by
  have hargs : resultName ≠ "arguments" := by decide
  have hprogram : (m.assemble n sig).body = (pageStandIns ++ m.leading) ++
      [.expr (.call (m.entry.callee (.function m.name ⟨m.definition.params, m.reducedBody n sig⟩))
        m.args)] := by
    rw [assemble, rewrap_eq, List.append_assoc]
  rw [Program.Spares, hprogram] at hspares
  rw [hprogram] at h
  -- what is before the module, then its call
  obtain ⟨atCall, hbefore, h⟩ :=
    ends_runBody_append hargs hs.wellScoped hc hspares (jumpsAll_before hleading) h
  obtain ⟨_, _, hrun, hlast⟩ := Step.Ends.of_bind h
  obtain ⟨v, _, hcall, hdone⟩ := Step.Ends.of_bind hrun
  obtain ⟨hnormal, rfl⟩ := Step.Ends.done_iff.mp hdone
  cases hnormal
  obtain ⟨-, rfl⟩ := Step.Ends.done_iff.mp hlast
  have hcallSpares := (hspares _ (List.mem_append_right _ (.head _))).inside (.head _)
  obtain ⟨d', c', start, completion', hstart, hc', hends⟩ := enters_of_call hargs hentry hcallSpares
    hbefore.wellScoped (Nat.lt_of_lt_of_le hc hbefore.scopes_le) hcall
  -- what is retained of the module, then the two statements at its end
  have hinside : ∀ st ∈ m.reducedBody n sig,
      Part.Everywhere (Part.Spares resultName) (.stmt st) :=
    fun st hst => (Entry.everywhere_of_callee (hcallSpares.inside (.head _))).inside
      (List.mem_map_of_mem hst)
  obtain ⟨atEnd, hretained, hends⟩ :=
    ends_runBody_append hargs hstart.wellScoped hc' hinside (jumpsAll_retained hbody) hends
  refine ((hs.of_leads (hbefore.trans hstart)).of_leads hretained).delivers_of_handOuts
    (Nat.lt_of_lt_of_le hc' hretained.scopes_le) hn hsig (fun x hx => ?_) hends
  exact hinside _ (List.mem_append_right _ (List.mem_map_of_mem (f := handOut) hx))

end ModuleCall

/-! ## Solutions -/

namespace Solution

/-- The record that a fresh run finds under the name of the result. -/
def record : ObjectRef :=
  (Store.initial.addObject emptyRecord).1

/-- The store that a program runs in. -/
def freshStore : Store :=
  (Store.initial.addObject emptyRecord).2.provide resultName (.object record)

/-- A fresh store offers the record. -/
theorem offers_freshStore : freshStore.Offers record := by
  have hinitial : Store.initial.WellScoped resultName := Store.wellScoped_initial
  -- the record is the only object that is added
  have hadd := hinitial.leads_addObject (o := emptyRecord) nofun
  exact {
    wellScoped := hadd.wellScoped.bind_root _
    root := Store.get?_bind_self hadd.wellScoped.root_lt _
    lt := by
      simp [freshStore, record, Store.provide, Store.bind, Store.modifyScope, Store.addObject]
    isList := by
      show ((Store.initial.addObject emptyRecord).2.object record).isList = false
      rw [record, Store.object_addObject]
      rfl }

/-- A slot with a function in it is read without a change of the store. -/
theorem slot_of_get? {s : Store} {ref : ObjectRef} {t : Transform} {f : Value}
    (hget : (s.object ref).get? t.name = some f) (hf : s.isFunction f = true) :
    slot s (.object ref) t = (.ok (some f), s) := by
  have hread : Action.getProperty (.object ref) t.name s = .done (.ok f) s := by
    show Action.getOfObject ref t.name s = _
    unfold Action.getOfObject
    rw [Action.read_bind, hget]
    rfl
  have hperform : s.getProperty (.object ref) t.name = (.ok f, s) := by
    unfold Store.getProperty Store.evaluate
    rw [Action.perform_of_done (Action.bind_of_done hread _)]
    rfl
  unfold slot
  rw [hperform]
  cases f with
  | object target => simp only [hf, if_true]
  | _ => cases hf

/-- Where a program has filled the record, it has a solution with what is there. -/
theorem ofProgram_of_delivers {q : Program} {s : Store} (hrun : freshStore.run q = (.ok (), s))
    (h : s.Delivers record) :
    ∃ solution, ofProgram q = .ok solution ∧ solution.store = s ∧
      ∀ t, ∃ f, solution.get? t = some f ∧ (s.object record).get? t.name = some f ∧
        s.isFunction f = true := by
  obtain ⟨n, hn, hnf⟩ := h .n
  obtain ⟨sig, hsig, hsigf⟩ := h .sig
  refine ⟨⟨s, some n, some sig⟩, ?_, rfl, fun t => ?_⟩
  · have hrun' : ((Store.initial.addObject emptyRecord).2.provide resultName
        (.object (Store.initial.addObject emptyRecord).1)).run q = (.ok (), s) := hrun
    have hslot : slot s (.object (Store.initial.addObject emptyRecord).1) .n = (.ok (some n), s) :=
      slot_of_get? hn hnf
    have hslot' : slot s (.object (Store.initial.addObject emptyRecord).1) .sig =
        (.ok (some sig), s) :=
      slot_of_get? hsig hsigf
    simp only [ofProgram, hrun', hslot, hslot']
    rfl
  · cases t with
    | n => exact ⟨n, rfl, hn, hnf⟩
    | sig => exact ⟨sig, rfl, hsig, hsigf⟩

end Solution

/-- A program that runs without a fault ends in a completion. -/
theorem Store.ends_of_run {s s' : Store} {p : Program} (h : s.run p = (.ok (), s')) :
    ∃ completion, (runBody ⟨.root, .object .global⟩ p.body s).Ends 0 (.ok completion)
      s' 0 := by
  obtain ⟨hresult, rfl⟩ := Prod.mk.inj h
  cases houtcome : ((runBody ⟨.root, .object .global⟩ p.body).perform s).result with
  | error fault =>
    rw [houtcome] at hresult
    cases hresult
  | ok completion => exact ⟨completion, ends_of_perform houtcome⟩

/-- A reduced program that runs without a fault has handed out both transforms, provided that the
    script leaves the name of the result alone, that its module function is called directly or by
    `call` or `apply`, and that no statement leads out of the module or of what is before it: the
    record holds two functions, and they are the solution. -/
theorem Program.delivers_of_reduce {p q : Program} {m : ModuleCall} {s : Store}
    (hm : ModuleCall.ofProgram? p = some m) (hq : p.reduce = .ok q) (hname : p.Spares resultName)
    (hentry : m.entry = .direct ∨ m.entry = .member "call" ∨ m.entry = .member "apply")
    (hleading : Stmt.jumpsAll m.leading = []) (hbody : Stmt.jumpsAll m.definition.body = [])
    (hrun : Solution.freshStore.run q = (.ok (), s)) :
    ∃ solution, Solution.ofProgram q = .ok solution ∧ solution.store = s ∧
      ∀ t : Transform, ∃ f, solution.get? t = some f ∧
        (s.object Solution.record).get? t.name = some f ∧ s.isFunction f = true := by
  have hspares := Program.spares_of_reduce hname hq
  obtain ⟨n, sig, hn, hsig, rfl⟩ := (Program.reduce_eq_ok_iff_of_module hm).mp hq
  obtain ⟨_, _, hn⟩ := exists_of_soleCandidate hn
  obtain ⟨_, _, hsig⟩ := exists_of_soleCandidate hsig
  obtain ⟨completion, hends⟩ := Store.ends_of_run hrun
  have hfresh := Solution.offers_freshStore
  apply Solution.ofProgram_of_delivers hrun
  exact ModuleCall.delivers_of_ends hfresh hentry hleading hbody
    (Candidate.transform_of_ofStatement? hn) (Candidate.transform_of_ofStatement? hsig) hspares
    hfresh.wellScoped.root_lt hends

/-- A module with two transforms that is called by `call`. -/
def calledModule : ModuleCall :=
  ⟨[], none, ⟨[],
    [.declare ⟨.functionScoped, [⟨"k", some (.array [.ident "b"])⟩]⟩,
      .function "b" ⟨["t"], [.giveBack (some (.ident "t"))]⟩,
      .function "s" ⟨["x", "y", "z"],
        [.expr (.logical .and (.ident "x") (.sequence
          [.assign none (.ident "x") (.call (.ident "b") [.call (.ident "g") [.ident "x"]]),
            .call (.ident "h") []])),
          .giveBack (some (.ident "x"))]⟩]⟩, .member "call", [.this]⟩

/-- Its script. -/
def calledScript : Program :=
  ⟨calledModule.rewrap calledModule.definition.body⟩

/-- Its reduction. -/
def calledReduction : Program :=
  calledModule.assemble ⟨.n, "b", []⟩ ⟨.sig, "b", []⟩

/-- The script does not introduce the name of the result. -/
theorem calledScript_spares : calledScript.Spares resultName := by
  have hall : ∀ s ∈ calledScript.body,
      Part.checks (Part.Spares resultName) 12 (.stmt s) = true := by
    decide
  exact fun s hs => Part.everywhere_of_checks (hall s hs)

/-- Its reduction runs to the end. -/
theorem exists_run_calledReduction :
    ∃ s, Solution.freshStore.run calledReduction = (.ok (), s) := by
  have hok : (Solution.freshStore.run calledReduction).1.isOk = true := by
    decide +kernel
  cases hrun : Solution.freshStore.run calledReduction with
  | mk result s =>
    rw [hrun] at hok
    cases result with
    | error fault => cases hok
    | ok _ => exact ⟨s, rfl⟩

/-- The solution of such a script has both transforms. -/
theorem Program.delivers_of_reduce_called :
    ModuleCall.ofProgram? calledScript = some calledModule ∧
    calledScript.reduce = .ok calledReduction ∧
    ∃ solution, Solution.ofProgram calledReduction = .ok solution ∧
      ∀ t : Transform, ∃ f, solution.get? t = some f := by
  have hm : ModuleCall.ofProgram? calledScript = some calledModule := rfl
  have hq : calledScript.reduce = .ok calledReduction := rfl
  obtain ⟨s, hrun⟩ := exists_run_calledReduction
  obtain ⟨solution, hsolution, -, hslots⟩ := Program.delivers_of_reduce hm hq calledScript_spares
    (.inr (.inl rfl)) rfl rfl hrun
  refine ⟨hm, hq, solution, hsolution, fun t => ?_⟩
  obtain ⟨f, hf, -⟩ := hslots t
  exact ⟨f, hf⟩

end Descramble
