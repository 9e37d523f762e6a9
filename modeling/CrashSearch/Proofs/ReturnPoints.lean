import CrashSearch.Proofs.JoinedEdges

/-!
# The returns of joined graphs

A node has one kind, and the first instruction of a method is its entry whatever it does. So a
joined graph knows the returns of a method but for one that stands first, while the edges of calls
leave from all of them.

## Main definitions

* `FlowGraph.laterReturns`: the returns of a method behind its first instruction.
* `FlowGraph.BeginsWithReturn`: the first instruction of a method is a return.

## Main statements

* `FlowGraph.laterReturns_eq_iff`: the methods all of whose returns are later ones.
* `JoinedGraph.returnPoints_exact`: the returns that a joined graph answers for a method.
-/

namespace CrashSearch

namespace FlowGraph

/-- The returns behind the first instruction. -/
def laterReturns (g : FlowGraph) : List InstructionId :=
  (g.instructions.tail.filter (·.opcode = .return)).map (g.idOf ·.index)

/-- Control leaves the method as soon as it enters it. -/
def BeginsWithReturn (g : FlowGraph) : Prop :=
  ∃ first ∈ g.instructions.head?, first.opcode = .return

variable {g : FlowGraph} {i : Instruction} {id : InstructionId}

theorem kind_node_eq_return_iff : (g.node i).kind = .return ↔
    some (g.idOf i.index) ≠ g.entry? ∧ i.opcode = .return := by
  unfold node
  split
  · simp_all
  · cases hop : i.opcode <;> simp_all [NodeKind.ofOpcode]

/-- The nodes of a method that are returns. -/
theorem filter_return_nodes (hindexes : (g.instructions.map (·.index)).Nodup) :
    ((g.instructions.map g.node).filter (·.kind = .return)).map (·.id) = g.laterReturns := by
  unfold laterReturns
  cases hi : g.instructions with
  | nil => rfl
  | cons first rest =>
    obtain ⟨hfirst, -⟩ := List.nodup_cons.1 (hi ▸ hindexes : ((first :: rest).map _).Nodup)
    have hentry : g.entry? = some (g.idOf first.index) := by simp [ entry?, hi]
    have hnot : (g.node first).kind ≠ .return := fun h =>
      (kind_node_eq_return_iff.1 h).1 hentry.symm
    have hrest : rest.filter ((·.kind = .return) ∘ g.node) = rest.filter (·.opcode = .return) := by
      refine List.filter_congr fun i hi => ?_
      have hne : i.index ≠ first.index := fun h => hfirst (h ▸ List.mem_map_of_mem hi)
      simp [kind_node_eq_return_iff, hentry, idOf_inj, hne]
    rw [List.map_cons, List.filter_cons_of_neg (by simpa using hnot), List.filter_map, hrest,
      List.map_map, List.tail_cons]
    rfl

theorem mem_laterReturns (hindexes : (g.instructions.map (·.index)).Nodup) :
    id ∈ g.laterReturns ↔ id ∈ g.returnInstructions ∧ g.entry? ≠ some id := by
  unfold laterReturns returnInstructions
  cases hi : g.instructions with
  | nil => simp
  | cons first rest =>
    obtain ⟨hfirst, -⟩ := List.nodup_cons.1 (hi ▸ hindexes : ((first :: rest).map _).Nodup)
    have hentry : g.entry? = some (g.idOf first.index) := by simp [ entry?, hi]
    simp only [List.tail_cons, List.mem_map, List.mem_filter, decide_eq_true_eq, List.mem_cons,
      hentry, Option.some.injEq, ne_eq]
    constructor
    · rintro ⟨i, ⟨hi, hop⟩, rfl⟩
      refine ⟨⟨i, ⟨.inr hi, hop⟩, rfl⟩, fun h => hfirst ?_⟩
      rw [(idOf_inj.1 h).2]
      exact List.mem_map_of_mem hi
    · rintro ⟨⟨i, ⟨rfl | hi, hop⟩, rfl⟩, hne⟩
      · exact absurd rfl hne
      · exact ⟨i, ⟨hi, hop⟩, rfl⟩

/-- Leaving out the first instruction makes a difference only if it is a return. -/
theorem laterReturns_eq_iff : g.laterReturns = g.returnInstructions ↔ ¬ g.BeginsWithReturn := by
  unfold laterReturns returnInstructions BeginsWithReturn
  cases g.instructions with
  | nil => simp
  | cons first rest =>
    by_cases hop : first.opcode = .return <;> simp [hop]

end FlowGraph

namespace JoinedGraph

variable {graphs : List FlowGraph} {dispatch : Dispatch} {g : FlowGraph}
  {className methodName : String}

/-- The nodes of a method are those of the graphs with its name. -/
theorem returnPoints_join : (join graphs dispatch).returnPoints className methodName =
    (graphs.filter (·.key = (className, methodName))).flatMap fun g =>
      ((g.instructions.map g.node).filter (·.kind = .return)).map (·.id) := by
  rw [returnPoints, join]
  induction graphs with
  | nil => rfl
  | cons g graphs ih =>
    rw [List.flatMap_cons, List.filter_append, List.map_append, ih, List.filter_cons]
    by_cases hkey : g.key = (className, methodName)
    · obtain ⟨rfl, rfl⟩ := Prod.mk.inj hkey
      rw [if_pos (decide_eq_true hkey), List.flatMap_cons]
      refine congrArg (· ++ _) (congrArg _ (List.filter_congr fun n hn => ?_))
      obtain ⟨i, -, rfl⟩ := List.mem_map.1 hn
      simp [FlowGraph.node, FlowGraph.idOf]
    · rw [if_neg (by simpa using hkey), List.append_left_eq_self, List.map_eq_nil_iff,
        List.filter_eq_nil_iff]
      intro n hn h
      obtain ⟨i, -, rfl⟩ := List.mem_map.1 hn
      obtain ⟨-, hclass, hmethod⟩ := of_decide_eq_true h
      exact hkey (Prod.ext hclass hmethod)

theorem returnPoints_of_notMem (h : (className, methodName) ∉ graphs.map FlowGraph.key) :
    (join graphs dispatch).returnPoints className methodName = [] := by
  have hnone : graphs.filter (·.key = (className, methodName)) = [] := by
    refine List.filter_eq_nil_iff.2 fun g hg hkey => h ?_
    exact List.mem_map.2 ⟨g, hg, of_decide_eq_true hkey⟩
  rw [returnPoints_join, hnone, List.flatMap_nil]

/-- No two graphs have the name of one method. -/
theorem filter_key_eq_singleton (hkeys : (graphs.map FlowGraph.key).Nodup) (hg : g ∈ graphs) :
    graphs.filter (·.key = g.key) = [g] := by
  induction graphs with
  | nil => simp at hg
  | cons f graphs ih =>
    obtain ⟨hf, hkeys⟩ := List.nodup_cons.1 hkeys
    rcases List.mem_cons.1 hg with rfl | hg
    · have hnone : graphs.filter (·.key = g.key) = [] := by
        refine List.filter_eq_nil_iff.2 fun h hh hkey => hf ?_
        exact List.mem_map.2 ⟨h, hh, of_decide_eq_true hkey⟩
      rw [List.filter_cons_of_pos (by simp), hnone]
    · have hne : f.key ≠ g.key := fun hkey => hf (hkey ▸ List.mem_map_of_mem hg)
      rw [List.filter_cons_of_neg (by simpa using hne), ih hkeys hg]

theorem returnPoints_of_mem (hkeys : (graphs.map FlowGraph.key).Nodup) (hg : g ∈ graphs)
    (hindexes : (g.instructions.map (·.index)).Nodup) :
    (join graphs dispatch).returnPoints g.className g.methodName = g.laterReturns := by
  have hone : graphs.filter (·.key = (g.className, g.methodName)) = [g] :=
    filter_key_eq_singleton hkeys hg
  rw [returnPoints_join, hone, List.flatMap_singleton, FlowGraph.filter_return_nodes hindexes]

/-- The returns that a joined graph answers for a method are those of its graph behind the first
instruction, in their order. So they are all returns just if the method does not begin with one. A
method without a graph has none. The edges of calls leave from all returns, and the source of such
an edge is among the answers unless it is the entry of its method. -/
theorem returnPoints_exact (graphs : List FlowGraph) (dispatch : Dispatch)
    (hkeys : (graphs.map FlowGraph.key).Nodup)
    (hindexes : ∀ g ∈ graphs, (g.instructions.map (·.index)).Nodup)
    (hdispatch : ∀ key g, dispatch.get? key = some g → g ∈ graphs) :
    let joined := join graphs dispatch
    (∀ g ∈ graphs, joined.returnPoints g.className g.methodName = g.laterReturns ∧
      (joined.returnPoints g.className g.methodName = g.returnInstructions ↔
        ¬ g.BeginsWithReturn)) ∧
      (∀ className methodName, (className, methodName) ∉ graphs.map FlowGraph.key →
        joined.returnPoints className methodName = []) ∧
      ∀ a b, ⟨a, b, .return⟩ ∈ joined.edges → ∃ g ∈ graphs, a ∈ g.returnInstructions ∧
        (a ∈ joined.returnPoints a.className a.methodName ↔ g.entry? ≠ some a) := by
  intro joined
  have hmem : ∀ g ∈ graphs, joined.returnPoints g.className g.methodName = g.laterReturns :=
    fun g hg => returnPoints_of_mem hkeys hg (hindexes g hg)
  refine ⟨fun g hg => ⟨hmem g hg, ?_⟩, fun c m h => returnPoints_of_notMem h, fun a b he => ?_⟩
  · rw [hmem g hg]
    exact FlowGraph.laterReturns_eq_iff
  · obtain ⟨_, _, _, _, _, g, _, hruns, ha, _⟩ := (return_mem_edges hkeys).1 he
    have hg : g ∈ graphs := RunsAt.mem hruns hdispatch
    refine ⟨g, hg, ha, ?_⟩
    have hanswer : joined.returnPoints a.className a.methodName = g.laterReturns := by
      obtain ⟨i, -, -, rfl⟩ := FlowGraph.mem_returnInstructions.1 ha
      exact hmem g hg
    rw [hanswer, FlowGraph.mem_laterReturns (hindexes g hg)]
    exact and_iff_right ha

/-- A helper that returns early or late. -/
def checkingHelper : FlowGraph :=
  .withJumps "Base" "helper"
    [⟨0, none, .branch⟩, ⟨1, none, .return⟩, ⟨2, none, .plain⟩, ⟨3, none, .return⟩] [(0, 2)]

/-- Both of its returns are answered, and both lead back to where the call goes on. -/
theorem checkingHelper_returnPoints :
    ([runGraph, checkingHelper].map FlowGraph.key).Nodup ∧
      (∀ g ∈ [runGraph, checkingHelper], (g.instructions.map (·.index)).Nodup) ∧
      (∀ key g, (Assoc.empty : Dispatch).get? key = some g → g ∈ [runGraph, checkingHelper]) ∧
      (join [runGraph, checkingHelper] .empty).returnPoints "Base" "helper" =
        [⟨"Base", "helper", 1⟩, ⟨"Base", "helper", 3⟩] ∧
      (⟨⟨"Base", "helper", 3⟩, ⟨"Base", "run", 1⟩, .return⟩ : Edge) ∈
        (join [runGraph, checkingHelper] .empty).edges := by
  have hkeys : ([runGraph, checkingHelper].map FlowGraph.key).Nodup := by decide
  have hindexes : ∀ g ∈ [runGraph, checkingHelper], (g.instructions.map (·.index)).Nodup := by
    decide
  have hdispatch : ∀ key g, (Assoc.empty : Dispatch).get? key = some g →
      g ∈ [runGraph, checkingHelper] := by
    intro key g hg
    cases hg
  obtain ⟨hanswers, -, -⟩ := returnPoints_exact [runGraph, checkingHelper] .empty hkeys hindexes
    hdispatch
  exact ⟨hkeys, hindexes, hdispatch, (hanswers checkingHelper (by decide)).1, by decide⟩

/-- A helper that only returns: the edge of the call leaves from its return, and still the joined
graph answers none. -/
theorem helper_returnPoints_missed :
    ([runGraph, helperGraph "Base"].map FlowGraph.key).Nodup ∧
      (∀ g ∈ [runGraph, helperGraph "Base"], (g.instructions.map (·.index)).Nodup) ∧
      (∀ key g, (Assoc.empty : Dispatch).get? key = some g → g ∈ [runGraph, helperGraph "Base"]) ∧
      (helperGraph "Base").returnInstructions = [⟨"Base", "helper", 0⟩] ∧
      (⟨⟨"Base", "helper", 0⟩, ⟨"Base", "run", 1⟩, .return⟩ : Edge) ∈
        (join [runGraph, helperGraph "Base"] .empty).edges ∧
      (join [runGraph, helperGraph "Base"] .empty).returnPoints "Base" "helper" = [] := by
  refine ⟨by decide, by decide, ?_, by decide, by decide, by decide⟩
  intro key g hg
  cases hg

end JoinedGraph

end CrashSearch
