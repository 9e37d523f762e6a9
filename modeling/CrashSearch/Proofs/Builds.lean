import CrashSearch.Proofs.Gathering

/-!
# Requests for called classes

A request names a class with its call sites. If all calls can be resolved the class is built and
kept, with the graphs that the calls can run, and its call sites gain the branches of these graphs
and of the inner methods found in them that are not handled yet. If some call cannot be resolved
nothing is built.

## Main definitions

* `ClassRequest`: a class with its call sites.
* `Registry.accepts`, `Registry.graphsOf`, `Registry.innerOf`: what a request leads to.
* `Registry.Serves`: what requests do to a registry.

## Main statements

* `Registry.build_ok`, `Registry.build_error`: when a class is built, and from what.
* `Registry.request_ok`, `Registry.request_error`: what a request for a new class does.
-/

namespace CrashSearch

/-- A request for a class with its call sites. -/
structure ClassRequest where
  className : String
  sites : List CallSite

namespace ClassRequest

/-- The methods that are called. -/
def methods (q : ClassRequest) : List String := q.sites.map (·.target.methodName)

end ClassRequest

namespace Registry

variable {r r' r'' : Registry} {q : ClassRequest} {done done' : List ClassRequest}

/-- A class as the receiver of calls. -/
def scopeOf (r : Registry) (className : String) : Scope :=
  .ofClass r.hierarchy r.program r.session className

/-- All calls of a request can be resolved. -/
def accepts (r : Registry) (q : ClassRequest) : Bool :=
  (r.scopeOf q.className).resolvesAll q.methods

/-- The graphs that the calls of a request can run. -/
def graphsOf (r : Registry) (q : ClassRequest) : Set FlowGraph :=
  ⋃ m ∈ q.methods, (r.scopeOf q.className).reached m

/-- The inner methods found in the graphs of a request. -/
def innerOf (r : Registry) (q : ClassRequest) : Set (String × String) :=
  (r.scopeOf q.className).detected (r.graphsOf q)

/-- The branches of all call sites of all classes. -/
def branchSet (r : Registry) : Set Branch :=
  {b | ∃ name c, r.get? name = some c ∧ b ∈ c.allBranches}

theorem graphsOf_eq : r.graphsOf q =
    ⋃ site ∈ q.sites, (r.scopeOf q.className).reached site.target.methodName := by
  simp [graphsOf, ClassRequest.methods]

theorem reach_of_accepts (ha : r.accepts q = true) : ∀ site ∈ q.sites,
    ∃ found, (r.scopeOf q.className).reach site.target.methodName = .ok found :=
  fun _ hs => Scope.resolvesAll_iff.1 ha _ (List.mem_map_of_mem hs)

/-- The class of a request before any call is resolved. -/
def prepared (r : Registry) (q : ClassRequest) : Callee :=
  q.sites.foldl Callee.addCallSite (.ofScope (r.scopeOf q.className))

theorem build_eq : r.build q.className q.sites =
    match (r.prepared q).involveCalled with
    | (_, .error e) => .error e
    | (c, .ok ()) => collectAll c r.handled q.sites := rfl

section Prepared

variable {m : String} {site : CallSite}

theorem exists_prepared_eq (r : Registry) (q : ClassRequest) : ∃ keyed called, r.prepared q =
      { Callee.ofScope (r.scopeOf q.className) with sites := keyed, calledMethods := called } ∧
    (∀ site ∈ q.sites, site.instruction ∈ keyed.keys) ∧ ∀ m, m ∈ called ↔ m ∈ q.methods := by
  obtain ⟨keyed, called, he, hk, hm⟩ :=
    Callee.exists_foldl_addCallSite q.sites (.ofScope (r.scopeOf q.className))
  refine ⟨keyed, called, he, ?_, ?_⟩
  · exact fun site hs => (hk _).2 (.inr ⟨site, hs, rfl⟩)
  · simp [hm, Callee.ofScope, ClassRequest.methods]

@[simp] theorem scope_prepared : (r.prepared q).scope = r.scopeOf q.className := by
  obtain ⟨keyed, called, he, -⟩ := exists_prepared_eq r q
  rw [he]
  rfl

theorem mem_calledMethods_prepared : m ∈ (r.prepared q).calledMethods ↔ m ∈ q.methods := by
  obtain ⟨keyed, called, he, -, hm⟩ := exists_prepared_eq r q
  rw [he]
  exact hm m

theorem mem_keys_prepared (hs : site ∈ q.sites) :
    site.instruction ∈ (r.prepared q).sites.keys := by
  obtain ⟨keyed, called, he, hk, -⟩ := exists_prepared_eq r q
  rw [he]
  exact hk site hs

theorem involvedSet_prepared : (r.prepared q).involvedSet = ∅ := by
  obtain ⟨keyed, called, he, -⟩ := exists_prepared_eq r q
  simp [he, Callee.involvedSet, Callee.ofScope]

theorem allBranches_prepared : (r.prepared q).allBranches = ∅ := by
  obtain ⟨keyed, called, he, -⟩ := exists_prepared_eq r q
  simp [he, Callee.allBranches, Callee.mem_branchSet, Callee.branchesOf, Callee.ofScope]

end Prepared

theorem has_of_mem_graphsOf {g : FlowGraph} (hg : g ∈ r.graphsOf q) : r.program.Has g := by
  obtain ⟨m, -, hg⟩ := Set.mem_iUnion₂.1 hg
  exact Scope.has_of_mem_reached hg

/-- The first pass makes the graphs of all calls involved. -/
theorem involveCalled_prepared (ha : r.accepts q = true) : ∃ involved,
    (r.prepared q).involveCalled = ({ r.prepared q with involved := involved }, .ok ()) ∧
      Callee.involvedSet { r.prepared q with involved := involved } = r.graphsOf q := by
  have hcanonical : (r.prepared q).Canonical := by simp [Callee.Canonical, involvedSet_prepared]
  have hreach : ∀ m ∈ (r.prepared q).calledMethods,
      ∃ found, (r.prepared q).scope.reach m = .ok found := by
    intro m hm
    rw [scope_prepared]
    exact Scope.resolvesAll_iff.1 ha m (mem_calledMethods_prepared.1 hm)
  obtain ⟨involved, hresolve, hinvolved⟩ := Callee.resolveAll_ok _ hcanonical hreach
  refine ⟨involved, hresolve, hinvolved.trans ?_⟩
  rw [involvedSet_prepared, Set.empty_union]
  simp only [mem_calledMethods_prepared, scope_prepared]
  rfl

/-- A build whose calls can be resolved succeeds. -/
theorem build_ok (hh : r.hierarchy.DotFree) (hp : r.program.DotFree) (ha : r.accepts q = true) :
    ∃ c handled, r.build q.className q.sites = .ok (c, handled) ∧
      c.involvedSet = r.graphsOf q ∧
      r.program.Adds ∅ r.handled.toSet (r.graphsOf q) (r.innerOf q) c.allBranches
        handled.toSet := by
  obtain ⟨involved, hresolve, hinvolved⟩ := involveCalled_prepared ha
  have hcanonical : Callee.Canonical { r.prepared q with involved := involved } := by
    intro g hg
    rw [hinvolved] at hg
    exact scope_prepared ▸ has_of_mem_graphsOf hg
  -- The second pass resolves the calls once more, so it finds the same graphs and cannot fail.
  obtain ⟨c, handled, he, h⟩ := Callee.gathered_collectAll
    (c := { r.prepared q with involved := involved }) (scope_prepared ▸ hh) (scope_prepared ▸ hp)
    hcanonical (fun _ hs => mem_keys_prepared hs) (scope_prepared ▸ reach_of_accepts ha) r.handled
  have hgraphs : (⋃ site ∈ q.sites, (r.prepared q).scope.reached site.target.methodName) =
      r.graphsOf q := by
    rw [graphsOf_eq, scope_prepared]
  rw [hgraphs] at h
  refine ⟨c, handled, ?_, ?_, ?_⟩
  · rw [build_eq, hresolve]
    exact he
  · rw [h.involved_eq, hinvolved, Set.union_self]
  · have hadds := h.adds
    rw [show Callee.allBranches { r.prepared q with involved := involved } = ∅ from
      allBranches_prepared] at hadds
    simp only [scope_prepared] at hadds
    exact hadds

theorem build_error (ha : r.accepts q = false) :
    ∃ e, r.build q.className q.sites = .error e := by
  obtain ⟨m, hm, e, he⟩ : ∃ m ∈ q.methods, ∃ e, (r.scopeOf q.className).reach m = .error e := by
    by_contra hall
    refine Bool.false_ne_true (ha.symm.trans (Scope.resolvesAll_iff.2 fun m hm => ?_))
    cases hr : (r.scopeOf q.className).reach m with
    | error e => exact absurd ⟨m, hm, e, hr⟩ hall
    | ok found => exact ⟨found, rfl⟩
  rw [← scope_prepared] at he
  obtain ⟨c, e', hresolve⟩ := Callee.resolveAll_error (mem_calledMethods_prepared.2 hm) he
  rw [build_eq, Callee.involveCalled, hresolve]
  exact ⟨e', rfl⟩

/-! ## What a request adds -/

/-- What requests that succeed do to a registry. -/
structure Serves (r r' : Registry) (done : List ClassRequest) : Prop where
  same : r' = { r with callees := r'.callees, handled := r'.handled }
  built : ∀ name graphs, (r'.get? name).map Callee.involvedSet = some graphs ↔
    (r.get? name).map Callee.involvedSet = some graphs ∨
      ∃ q ∈ done, q.className = name ∧ r.graphsOf q = graphs
  adds : r.program.Adds r.branchSet r.handled.toSet (⋃ q ∈ done, r.graphsOf q)
    (⋃ q ∈ done, r.innerOf q) r'.branchSet r'.handled.toSet

theorem dotFree_innerOf (hh : r.hierarchy.DotFree) (hp : r.program.DotFree) :
    DotFreeMethods (⋃ q ∈ done, r.innerOf q) := by
  intro x hx
  obtain ⟨q, -, hx⟩ := Set.mem_iUnion₂.1 hx
  exact Scope.dotFree_detected hh hp _ x hx

namespace Serves

theorem refl : r.Serves r [] where
  same := rfl
  built := by simp
  adds := by simpa using Program.Adds.refl

theorem graphsOf_eq (h : r.Serves r' done) (q : ClassRequest) : r'.graphsOf q = r.graphsOf q := by
  rw [h.same]
  rfl

theorem innerOf_eq (h : r.Serves r' done) (q : ClassRequest) : r'.innerOf q = r.innerOf q := by
  rw [h.same]
  rfl

theorem accepts_eq (h : r.Serves r' done) (q : ClassRequest) : r'.accepts q = r.accepts q := by
  rw [h.same]
  rfl

theorem trans (hh : r.hierarchy.DotFree) (hp : r.program.DotFree) (h : r.Serves r' done)
    (h' : r'.Serves r'' done') : r.Serves r'' (done ++ done') where
  same := by rw [h'.same, h.same]
  built name graphs := by
    rw [h'.built, h.built, or_assoc]
    simp only [h.graphsOf_eq, List.mem_append, or_and_right, exists_or]
  adds := by
    have hprogram : r'.program = r.program := by rw [h.same]
    have hadds := h'.adds
    simp only [hprogram, h.graphsOf_eq, h.innerOf_eq] at hadds
    simpa [Set.iUnion_or, Set.iUnion_union_distrib] using
      h.adds.trans hadds (dotFree_innerOf hh hp) (dotFree_innerOf hh hp)

theorem get?_eq_none (h : r.Serves r' done) {name : String} (hn : r.get? name = none)
    (hd : ∀ q ∈ done, q.className ≠ name) : r'.get? name = none := by
  cases hc : r'.get? name with
  | none => rfl
  | some c =>
    have hbuilt := (h.built name c.involvedSet).1 (by rw [hc]; rfl)
    rcases hbuilt with hold | ⟨q, hq, hname, -⟩
    · rw [hn] at hold
      cases hold
    · exact absurd hname (hd q hq)

end Serves

theorem get?_insert {name className : String} {c : Callee} {handled : OrderedSet String} :
    get? { r with callees := r.callees.insert className c, handled := handled } name =
      if name = className then some c else r.get? name := Assoc.get?_insert

theorem branchSet_insert {className : String} {c : Callee} {handled : OrderedSet String}
    (hn : r.get? className = none) :
    branchSet { r with callees := r.callees.insert className c, handled := handled } =
      r.branchSet ∪ c.allBranches := by
  ext b
  constructor
  · rintro ⟨name, c', hc', hb⟩
    rw [get?_insert] at hc'
    split at hc'
    · cases hc'
      exact .inr hb
    · exact .inl ⟨name, c', hc', hb⟩
  · rintro (⟨name, c', hc', hb⟩ | hb)
    · have hne : name ≠ className := by
        rintro rfl
        cases hn.symm.trans hc'
      exact ⟨name, c', by rw [get?_insert, if_neg hne, hc'], hb⟩
    · exact ⟨className, c, by rw [get?_insert, if_pos rfl], hb⟩

theorem request_ok (hh : r.hierarchy.DotFree) (hp : r.program.DotFree)
    (hn : r.get? q.className = none) (ha : r.accepts q = true) :
    ∃ r' c, r.request q.className q.sites = .ok (r', c) ∧ r.Serves r' [q] := by
  obtain ⟨c, handled, he, hinvolved, hadds⟩ := build_ok hh hp ha
  refine ⟨{ r with callees := r.callees.insert q.className c, handled := handled }, c, ?_, ?_⟩
  · rw [request, hn, he]
    rfl
  constructor
  · rfl
  · intro name graphs
    rw [get?_insert]
    split
    · rename_i hname
      simp [hname, hn, hinvolved]
    · rename_i hname
      simp [Ne.symm hname]
  · simpa [branchSet_insert hn] using hadds.union_left r.branchSet

theorem request_error (hn : r.get? q.className = none) (ha : r.accepts q = false) :
    ∃ e, r.request q.className q.sites = .error e := by
  obtain ⟨e, he⟩ := build_error ha
  refine ⟨e, ?_⟩
  rw [request, hn, he]
  rfl

/-! ## Two classes with one inner class -/

open Callee

theorem sub_reach : (nestingScope "Sub").reach "run" = .ok [outerRun] := by
  have hs : nestingClasses.superclasses "Sub" = ["Outer"] := by
    rw [Hierarchy.superclasses, Hierarchy.chain_eq_cons (s := "Outer") rfl (by decide),
      Hierarchy.chain_eq_nil rfl]
  have hline : (nestingScope "Sub").lineage = ["Sub", "Outer"].map nestingClasses.callGraph := by
    rw [← hs]
    rfl
  exact reach_run (by rw [Scope.declaring?, hline]; decide)

theorem ghost_reach : (nestingScope "Ghost").reach "run" =
    .error (.methodNotInHierarchy "Ghost" "run") := by
  have hs : nestingClasses.superclasses "Ghost" = [] := Hierarchy.chain_eq_nil rfl _
  have hline : (nestingScope "Ghost").lineage = ["Ghost"].map nestingClasses.callGraph := by
    rw [← hs]
    rfl
  refine Scope.collects_iff.1 (.missing ?_)
  rw [Scope.lookup, Scope.declaring?, hline]
  rfl

def nestingRegistry : Registry := .new nestingClasses nestingProgram .default

def outerRequest : ClassRequest := ⟨"Outer", [runSite]⟩

/-- A request that fails: the class is not known. -/
def ghostRequest : ClassRequest := ⟨"Ghost", [⟨⟨"Client", "main", 1⟩, ⟨"Ghost", "run", []⟩⟩]⟩

def subRequest (first second : UInt32) : ClassRequest :=
  ⟨"Sub", [⟨⟨"Client", "main", first⟩, ⟨"Sub", "run", []⟩⟩,
    ⟨⟨"Client", "main", second⟩, ⟨"Sub", "run", []⟩⟩]⟩

theorem accepts_outerRequest : nestingRegistry.accepts outerRequest = true := by
  refine Scope.resolvesAll_iff.2 fun m hm => ?_
  obtain rfl := List.mem_singleton.1 hm
  exact ⟨_, outer_reach⟩

theorem accepts_ghostRequest : nestingRegistry.accepts ghostRequest = false := by
  refine Bool.eq_false_iff.2 fun h => ?_
  obtain ⟨found, hr⟩ := Scope.resolvesAll_iff.1 h "run" List.mem_cons_self
  cases ghost_reach.symm.trans hr

theorem accepts_subRequest {first second : UInt32} :
    nestingRegistry.accepts (subRequest first second) = true := by
  refine Scope.resolvesAll_iff.2 fun m hm => ?_
  obtain rfl : m = "run" := by simpa [subRequest, ClassRequest.methods] using hm
  exact ⟨_, sub_reach⟩

theorem graphsOf_outerRequest : nestingRegistry.graphsOf outerRequest = {outerRun} := by
  have hr : (nestingRegistry.scopeOf "Outer").reached "run" = {g | g ∈ [outerRun]} :=
    Scope.reached_of_reach outer_reach
  simp [graphsOf, outerRequest, runSite, ClassRequest.methods, hr]

theorem graphsOf_subRequest {first second : UInt32} :
    nestingRegistry.graphsOf (subRequest first second) = {outerRun} := by
  have hr : (nestingRegistry.scopeOf "Sub").reached "run" = {g | g ∈ [outerRun]} :=
    Scope.reached_of_reach sub_reach
  simp [graphsOf, subRequest, ClassRequest.methods, hr]

theorem innerOf_outerRequest : nestingRegistry.innerOf outerRequest =
    {("Outer$In", "go"), ("Outer$In", "lost"), ("Outer$In", "step")} := by
  rw [innerOf, graphsOf_outerRequest]
  exact detected_outerRun "Outer"

theorem innerOf_subRequest {first second : UInt32} :
    nestingRegistry.innerOf (subRequest first second) =
      {("Outer$In", "go"), ("Outer$In", "lost"), ("Outer$In", "step")} := by
  rw [innerOf, graphsOf_subRequest]
  exact detected_outerRun "Sub"

end Registry

end CrashSearch
