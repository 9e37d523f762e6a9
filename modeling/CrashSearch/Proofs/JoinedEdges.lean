import CrashSearch.Proofs.CallEdges

/-!
# The edges of joined graphs

A joined graph has three kinds of edges: those of its graphs, one from each call to the entry of the
graph that runs there, and one from each return of that graph to where the call goes on. The last
kind leads from one method into another, so it stays inside the joined graph only because the graph
that runs at a call is one of those joined.

## Main definitions

* `FlowGraph.EdgesInside`: the edges of a graph join its own instructions.
* `RunsAt`: the graph that runs at a call.

## Main statements

* `JoinedGraph.callee?_eq_some_iff`: the graph that a joined graph wires a call to.
* `JoinedGraph.mem_ids`: the identities of the nodes.
* `JoinedGraph.edges_exact`: the edges of each kind, and that their ends are nodes.
-/

namespace CrashSearch

/-- The edges of a graph join its own instructions. -/
def FlowGraph.EdgesInside (g : FlowGraph) : Prop :=
  ∀ e ∈ g.edges, e.1 ∈ g.instructions.map (·.index) ∧ e.2 ∈ g.instructions.map (·.index)

/-- The graph that runs at a call: the one that the table directs the call to, or else the one
among `graphs` that the call names. -/
def RunsAt (graphs : List FlowGraph) (dispatch : Dispatch) (target : CallTarget) (d : FlowGraph) :
    Prop :=
  dispatch.get? target.key = some d ∨
    dispatch.get? target.key = none ∧ d ∈ graphs ∧ d.key = target.key

variable {graphs : List FlowGraph} {dispatch : Dispatch} {a b : InstructionId}

/-! ## The edges of one graph -/

namespace FlowGraph

variable {g callee : FlowGraph} {index : UInt32} {id : InstructionId}

theorem mem_returnInstructions : id ∈ g.returnInstructions ↔
    ∃ i ∈ g.instructions, i.opcode = .return ∧ id = g.idOf i.index := by
  simp [returnInstructions, and_assoc, eq_comm]

theorem mem_successors {next : UInt32} : next ∈ g.successors index ↔ (index, next) ∈ g.edges := by
  simp [successors]

theorem mem_intraEdges : ⟨a, b, .intra⟩ ∈ g.intraEdges ↔
    ∃ e ∈ g.edges, a = g.idOf e.1 ∧ b = g.idOf e.2 := by
  simp [intraEdges, eq_comm]

/-- A graph with a return has an entry, so the returns of the graph that runs are never lost. -/
theorem exists_entry?_of_return (h : id ∈ callee.returnInstructions) :
    ∃ entry, callee.entry? = some entry := by
  obtain ⟨i, hi, -⟩ := mem_returnInstructions.1 h
  exact exists_entry?_iff.2 (List.ne_nil_of_mem hi)

theorem return_mem_callEdges : ⟨a, b, .return⟩ ∈ g.callEdges callee index ↔
    a ∈ callee.returnInstructions ∧ ∃ next ∈ g.successors index, b = g.idOf next := by
  unfold callEdges
  cases hentry : callee.entry? with
  | none =>
    have hnone : a ∉ callee.returnInstructions := by
      intro ha
      obtain ⟨entry, h⟩ := exists_entry?_of_return ha
      cases hentry.symm.trans h
    simp [hnone]
  | some entry => simp [eq_comm]

theorem intra_notMem_callEdges : ⟨a, b, .intra⟩ ∉ g.callEdges callee index := by
  unfold callEdges
  cases callee.entry? <;> simp

theorem return_notMem_intraEdges : ⟨a, b, .return⟩ ∉ g.intraEdges := by
  simp [intraEdges]

end FlowGraph

/-! ## The edges of a joined graph -/

namespace JoinedGraph

theorem callee?_eq_some_iff (hkeys : (graphs.map FlowGraph.key).Nodup) {target : CallTarget}
    {d : FlowGraph} :
    callee? graphs dispatch target = some d ↔ RunsAt graphs dispatch target d := by
  unfold callee? RunsAt CallTarget.key
  cases dispatch.get? (target.className, target.methodName) with
  | some f => simp
  | none => simp [graphOf?_eq_some_iff hkeys]

theorem mem_outerEdges {g : FlowGraph} {e : Edge} : e ∈ outerEdges graphs dispatch g ↔
    ∃ i ∈ g.instructions, ∃ target d, i.opcode = .invoke target ∧
      callee? graphs dispatch target = some d ∧ e ∈ g.callEdges d i.index := by
  rw [outerEdges, List.mem_flatMap]
  constructor
  · rintro ⟨call, hcall, he⟩
    obtain ⟨i, hi, hop, hid⟩ := FlowGraph.mem_callSites.1 hcall
    cases hd : callee? graphs dispatch call.target with
    | none => simp [hd] at he
    | some d =>
      rw [hd, hid] at he
      exact ⟨i, hi, call.target, d, hop, hd, he⟩
  · rintro ⟨i, hi, target, d, hop, hd, he⟩
    refine ⟨⟨g.idOf i.index, target⟩, FlowGraph.mem_callSites.2 ⟨i, hi, hop, rfl⟩, ?_⟩
    rw [hd]
    exact he

/-- A joined graph has the edges of its graphs, one for each. -/
theorem filter_intra_edges : (join graphs dispatch).edges.filter (·.kind = .intra) =
    graphs.flatMap FlowGraph.intraEdges := by
  have hintra (g : FlowGraph) : g.intraEdges.filter (·.kind = .intra) = g.intraEdges := by
    refine List.filter_eq_self.2 fun e he => ?_
    obtain ⟨_, _, rfl⟩ := List.mem_map.1 he
    rfl
  have houter (g : FlowGraph) :
      (outerEdges graphs dispatch g).filter (·.kind = .intra) = [] := by
    refine List.filter_eq_nil_iff.2 fun ⟨_, _, kind⟩ he hkind => ?_
    obtain rfl : kind = .intra := of_decide_eq_true hkind
    obtain ⟨_, _, _, _, _, _, he⟩ := mem_outerEdges.1 he
    exact FlowGraph.intra_notMem_callEdges he
  simp [join, List.filter_flatMap, hintra, houter]

theorem intra_mem_edges : ⟨a, b, .intra⟩ ∈ (join graphs dispatch).edges ↔
    ∃ g ∈ graphs, ∃ e ∈ g.edges, a = g.idOf e.1 ∧ b = g.idOf e.2 := by
  have hmem : ⟨a, b, .intra⟩ ∈ (join graphs dispatch).edges.filter (·.kind = .intra) ↔
      ⟨a, b, .intra⟩ ∈ (join graphs dispatch).edges := by
    simp
  rw [← hmem, filter_intra_edges]
  simp [FlowGraph.mem_intraEdges]

theorem call_mem_edges (hkeys : (graphs.map FlowGraph.key).Nodup) :
    ⟨a, b, .call⟩ ∈ (join graphs dispatch).edges ↔
      ∃ g ∈ graphs, ∃ i ∈ g.instructions, ∃ target d, i.opcode = .invoke target ∧
        RunsAt graphs dispatch target d ∧ a = g.idOf i.index ∧ d.entry? = some b := by
  have hintra : ∀ g : FlowGraph, (⟨a, b, .call⟩ : Edge) ∉ g.intraEdges := by
    simp [FlowGraph.intraEdges]
  simp [join, hintra, mem_outerEdges, callee?_eq_some_iff hkeys, mem_callEdges]

theorem return_mem_edges (hkeys : (graphs.map FlowGraph.key).Nodup) :
    ⟨a, b, .return⟩ ∈ (join graphs dispatch).edges ↔
      ∃ g ∈ graphs, ∃ i ∈ g.instructions, ∃ target d, i.opcode = .invoke target ∧
        RunsAt graphs dispatch target d ∧ a ∈ d.returnInstructions ∧
          ∃ next ∈ g.successors i.index, b = g.idOf next := by
  simp [join, FlowGraph.return_notMem_intraEdges, mem_outerEdges, callee?_eq_some_iff hkeys,
    FlowGraph.return_mem_callEdges]

/-! ## The ends of edges -/

theorem mem_ids : a ∈ (join graphs dispatch).nodes.map (·.id) ↔
    ∃ g ∈ graphs, ∃ i ∈ g.instructions, a = g.idOf i.index := by
  simp [join, FlowGraph.node, eq_comm, and_assoc]

theorem idOf_mem_ids {g : FlowGraph} (hg : g ∈ graphs) {index : UInt32}
    (hi : index ∈ g.instructions.map (·.index)) :
    g.idOf index ∈ (join graphs dispatch).nodes.map (·.id) := by
  obtain ⟨i, hmem, rfl⟩ := List.mem_map.1 hi
  exact mem_ids.2 ⟨g, hg, i, hmem, rfl⟩

theorem entry_mem_ids {g : FlowGraph} (hg : g ∈ graphs) (ha : g.entry? = some a) :
    a ∈ (join graphs dispatch).nodes.map (·.id) := by
  obtain ⟨i, hi, rfl⟩ := Option.map_eq_some_iff.1 ha
  exact mem_ids.2 ⟨g, hg, i, List.mem_of_mem_head? hi, rfl⟩

theorem return_mem_ids {g : FlowGraph} (hg : g ∈ graphs) (ha : a ∈ g.returnInstructions) :
    a ∈ (join graphs dispatch).nodes.map (·.id) := by
  obtain ⟨i, hi, -, rfl⟩ := FlowGraph.mem_returnInstructions.1 ha
  exact mem_ids.2 ⟨g, hg, i, hi, rfl⟩

theorem RunsAt.mem {target : CallTarget} {d : FlowGraph} (h : RunsAt graphs dispatch target d)
    (hdispatch : ∀ key g, dispatch.get? key = some g → g ∈ graphs) : d ∈ graphs :=
  h.elim (hdispatch _ d) (·.2.1)

theorem ends_mem_ids (hkeys : (graphs.map FlowGraph.key).Nodup)
    (hinside : ∀ g ∈ graphs, g.EdgesInside)
    (hdispatch : ∀ key g, dispatch.get? key = some g → g ∈ graphs) {e : Edge}
    (he : e ∈ (join graphs dispatch).edges) :
    e.source ∈ (join graphs dispatch).nodes.map (·.id) ∧
      e.target ∈ (join graphs dispatch).nodes.map (·.id) := by
  obtain ⟨source, target, kind⟩ := e
  cases kind with
  | intra =>
    obtain ⟨g, hg, edge, hedge, rfl, rfl⟩ := intra_mem_edges.1 he
    obtain ⟨hsource, htarget⟩ := hinside g hg edge hedge
    exact ⟨idOf_mem_ids hg hsource, idOf_mem_ids hg htarget⟩
  | call =>
    obtain ⟨g, hg, i, hi, _, d, -, hd, rfl, hentry⟩ := (call_mem_edges hkeys).1 he
    exact ⟨idOf_mem_ids hg (List.mem_map_of_mem hi), entry_mem_ids (RunsAt.mem hd hdispatch) hentry⟩
  | «return» =>
    obtain ⟨g, hg, i, -, _, d, -, hd, hexit, next, hnext, rfl⟩ := (return_mem_edges hkeys).1 he
    -- The exit belongs to the graph that runs, the next instruction to the calling one.
    have hedge := hinside g hg _ (FlowGraph.mem_successors.1 hnext)
    exact ⟨return_mem_ids (RunsAt.mem hd hdispatch) hexit, idOf_mem_ids hg hedge.2⟩

/-! ## All edges -/

/-- The edges of a joined graph. Those inside a method are the edges of its graph. A call leads to
the entry of the graph that runs there, if there is one and it has an entry. From every return of
such a graph an edge leads to each successor of the call. There are no other edges, and both ends of
an edge are nodes. -/
theorem edges_exact (graphs : List FlowGraph) (dispatch : Dispatch)
    (hkeys : (graphs.map FlowGraph.key).Nodup) (hinside : ∀ g ∈ graphs, g.EdgesInside)
    (hdispatch : ∀ key g, dispatch.get? key = some g → g ∈ graphs) :
    let joined := join graphs dispatch
    joined.edges.filter (·.kind = .intra) =
        graphs.flatMap (fun g => g.edges.map fun e => ⟨g.idOf e.1, g.idOf e.2, .intra⟩) ∧
      (∀ a b, ⟨a, b, .call⟩ ∈ joined.edges ↔ ∃ f ∈ graphs, ∃ i ∈ f.instructions, ∃ target g,
        i.opcode = .invoke target ∧ RunsAt graphs dispatch target g ∧
          a = f.idOf i.index ∧ g.entry? = some b) ∧
      (∀ a b, ⟨a, b, .return⟩ ∈ joined.edges ↔ ∃ f ∈ graphs, ∃ i ∈ f.instructions, ∃ target g,
        i.opcode = .invoke target ∧ RunsAt graphs dispatch target g ∧
          (∃ entry, g.entry? = some entry ∧ ⟨f.idOf i.index, entry, .call⟩ ∈ joined.edges) ∧
          (∃ exit ∈ g.instructions, exit.opcode = .return ∧ a = g.idOf exit.index) ∧
          ∃ next, (i.index, next) ∈ f.edges ∧ b = f.idOf next) ∧
      ∀ e ∈ joined.edges, e.source ∈ joined.nodes.map (·.id) ∧
        e.target ∈ joined.nodes.map (·.id) := by
  intro joined
  refine ⟨filter_intra_edges, fun a b => call_mem_edges hkeys, fun a b => ?_,
    fun e he => ends_mem_ids hkeys hinside hdispatch he⟩
  rw [return_mem_edges hkeys]
  refine exists_congr fun f => and_congr_right fun hf => exists_congr fun i =>
    and_congr_right fun hi => exists_congr fun target => exists_congr fun g =>
    and_congr_right fun hop => and_congr_right fun hruns => ?_
  simp only [FlowGraph.mem_returnInstructions, FlowGraph.mem_successors, iff_and_self]
  rintro ⟨hexit, -⟩
  -- The method returns, so it has an entry, to which the call leads.
  obtain ⟨entry, hentry⟩ :=
    FlowGraph.exists_entry?_of_return (FlowGraph.mem_returnInstructions.2 hexit)
  exact ⟨entry, hentry, (call_mem_edges hkeys).2 ⟨f, hf, i, hi, target, g, hop, hruns, rfl, hentry⟩⟩

/-- The methods of two classes of which one takes over the helper of the other. -/
def helped : List FlowGraph := [runGraph, helperGraph "Base", helperGraph "Derived"]

/-- Calls of the helper run the version of the other class. -/
def redirected : Dispatch := Assoc.empty.insert ("Base", "helper") (helperGraph "Derived")

/-- The call leads to the helper of the derived class and comes back from there. -/
theorem helped_edges_exact :
    (helped.map FlowGraph.key).Nodup ∧ (∀ g ∈ helped, g.EdgesInside) ∧
      (∀ key g, redirected.get? key = some g → g ∈ helped) ∧
      ⟨⟨"Base", "run", 0⟩, ⟨"Derived", "helper", 0⟩, .call⟩ ∈ (join helped redirected).edges ∧
      ⟨⟨"Derived", "helper", 0⟩, ⟨"Base", "run", 1⟩, .return⟩ ∈ (join helped redirected).edges ∧
      ⟨⟨"Base", "run", 0⟩, ⟨"Base", "helper", 0⟩, .call⟩ ∉ (join helped redirected).edges := by
  have hkeys : (helped.map FlowGraph.key).Nodup := by decide
  have hinside : ∀ g ∈ helped, g.EdgesInside := by
    simp [helped, FlowGraph.EdgesInside, runGraph, helperGraph, FlowGraph.make,
      FlowGraph.fallThrough]
  have hdispatch : ∀ key g, redirected.get? key = some g → g ∈ helped := by
    intro key g hg
    rw [redirected, Assoc.get?_insert] at hg
    split at hg
    · cases hg
      decide
    · cases hg
  obtain ⟨-, hcall, hreturn, -⟩ := edges_exact helped redirected hkeys hinside hdispatch
  have hinvoke : (⟨0, none, .invoke ⟨"Base", "helper", []⟩⟩ : Instruction) ∈
      runGraph.instructions := List.mem_cons_self
  have hruns : RunsAt helped redirected ⟨"Base", "helper", []⟩ (helperGraph "Derived") := .inl rfl
  have hedge : ⟨⟨"Base", "run", 0⟩, ⟨"Derived", "helper", 0⟩, .call⟩ ∈
      (join helped redirected).edges :=
    (hcall _ _).2 ⟨runGraph, by decide, _, hinvoke, _, _, rfl, hruns, rfl, rfl⟩
  have hback : ⟨⟨"Derived", "helper", 0⟩, ⟨"Base", "run", 1⟩, .return⟩ ∈
      (join helped redirected).edges :=
    (hreturn _ _).2 ⟨runGraph, by decide, _, hinvoke, _, _, rfl, hruns, ⟨_, rfl, hedge⟩,
      ⟨⟨0, none, .return⟩, by decide, rfl, rfl⟩, 1, by decide, rfl⟩
  exact ⟨hkeys, hinside, hdispatch, hedge, hback, by decide⟩

end JoinedGraph

end CrashSearch
