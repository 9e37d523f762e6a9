import CrashSearch.Proofs.ClassGraphs
import Mathlib.Data.List.Induction
import Mathlib.Data.List.Nodup

/-!
# Call graphs and the changes that made them

A call graph starts without methods, and then methods are declared and calls are added. Whatever
the order of these changes and however often they are made, each method has one node, no callee is
listed twice, and whatever is called is declared. What the graph answers depends only on which
changes were made.

## Main definitions

* `CallGraph.Change`, `CallGraph.ofChanges`: declarations and calls, and the graph they make.
* `CallGraph.WellFormed`: what every change keeps.
* `CallGraph.Holds`: a well-formed graph that answers some changes and nothing else.

## Main statements

* `CallGraph.WellFormed.change`: every change keeps a graph well-formed.
* `CallGraph.declares_ofChanges`, `CallGraph.mem_children_ofChanges`: what a graph answers.
* `CallGraph.changes_held`: every graph holds its changes, in particular that of a known class.
-/

namespace CrashSearch

namespace CallGraph

/-- A change of a call graph. -/
inductive Change
  | declare (method : String)
  | call (caller callee : String)
  deriving DecidableEq

/-- The graph after a change. -/
def change (g : CallGraph) : Change → CallGraph
  | .declare m => g.addMethod m
  | .call caller callee => g.addEdge caller callee

/-- The graph of a class after some changes. -/
def ofChanges (className : String) (changes : List Change) : CallGraph :=
  changes.foldl change (.empty className)

/-- Each method has one node that lists no callee twice, and whatever is called is declared. -/
structure WellFormed (g : CallGraph) : Prop where
  distinct : g.methods.Nodup
  callees : ∀ n ∈ g.nodes, n.callees.Nodup
  declared : ∀ n ∈ g.nodes, ∀ y ∈ n.callees, g.declares y = true

/-- A well-formed graph with the methods that some changes name and the calls that they add. -/
structure Holds (g : CallGraph) (changes : List Change) : Prop extends g.WellFormed where
  declares_iff : ∀ x, g.declares x = true ↔
    .declare x ∈ changes ∨ ∃ y, .call x y ∈ changes ∨ .call y x ∈ changes
  mem_children_iff : ∀ x y, y ∈ g.children x ↔ .call x y ∈ changes

variable {g : CallGraph} {n : CallNode} {m x y caller callee className : String}
  {changes : List Change}

/-! ## Well-formed graphs -/

theorem methods_addMethod :
    (g.addMethod m).methods = if m ∈ g.methods then g.methods else g.methods ++ [m] := by
  unfold addMethod
  simp only [declares_iff]
  split
  · rfl
  · simp [methods]

theorem mem_nodes_addMethod (hn : n ∈ (g.addMethod m).nodes) : n ∈ g.nodes ∨ n = ⟨m, []⟩ := by
  unfold addMethod at hn
  split at hn
  · exact .inl hn
  · simpa using hn

theorem mem_updateFirst {f : CallNode → CallNode} {nodes : List CallNode}
    (hn : n ∈ updateFirst m f nodes) : n ∈ nodes ∨ ∃ n' ∈ nodes, n = f n' := by
  induction nodes with
  | nil => exact .inl hn
  | cons first rest ih =>
    unfold updateFirst at hn
    split at hn
    · rcases List.mem_cons.1 hn with rfl | hn
      · exact .inr ⟨first, List.mem_cons_self, rfl⟩
      · exact .inl (List.mem_cons_of_mem _ hn)
    · grind

theorem CallNode.nodup_callees_addCallee (hn : n.callees.Nodup) :
    (CallNode.addCallee n callee).callees.Nodup := by
  unfold CallNode.addCallee
  split
  · exact hn
  · rename_i hnew
    simpa using List.Nodup.concat hnew hn

theorem wellFormed_empty : (empty className).WellFormed where
  distinct := .nil
  callees := by simp [empty]
  declared := by simp [empty]

namespace WellFormed

theorem addMethod (h : g.WellFormed) (m : String) : (g.addMethod m).WellFormed where
  distinct := by
    rw [methods_addMethod]
    split
    · exact h.distinct
    · rename_i hnew
      simpa using List.Nodup.concat hnew h.distinct
  callees := by
    intro n hn
    rcases mem_nodes_addMethod hn with hn | rfl
    · exact h.callees n hn
    · exact .nil
  declared := by
    intro n hn y hy
    rcases mem_nodes_addMethod hn with hn | rfl
    · exact declares_addMethod.2 (.inl (h.declared n hn y hy))
    · cases hy

/-- Both methods are declared before the callee joins a node, so it is declared when it does. -/
theorem addEdge (h : g.WellFormed) (caller callee : String) :
    (g.addEdge caller callee).WellFormed := by
  have hboth := (h.addMethod callee).addMethod caller
  have hnode (n : CallNode) (hn : n ∈ (g.addEdge caller callee).nodes) :
      ∃ n' ∈ ((g.addMethod callee).addMethod caller).nodes,
        n = n' ∨ n = CallNode.addCallee n' callee := by
    rcases mem_updateFirst hn with hn | ⟨n', hn', rfl⟩
    · exact ⟨n, hn, .inl rfl⟩
    · exact ⟨n', hn', .inr rfl⟩
  refine ⟨?distinct, ?callees, ?declared⟩
  case distinct =>
    rw [methods_addEdge]
    exact hboth.distinct
  case callees =>
    intro n hn
    obtain ⟨n', hn', rfl | rfl⟩ := hnode n hn
    · exact hboth.callees n hn'
    · exact CallNode.nodup_callees_addCallee (hboth.callees n' hn')
  case declared =>
    intro n hn y hy
    rw [CallGraph.declares_iff, methods_addEdge, ← CallGraph.declares_iff]
    obtain ⟨n', hn', rfl | rfl⟩ := hnode n hn
    · exact hboth.declared n hn' y hy
    · rcases CallNode.mem_callees_addCallee.1 hy with hy | rfl
      · exact hboth.declared n' hn' y hy
      · simp [declares_addMethod]

theorem change (h : g.WellFormed) (c : Change) : (g.change c).WellFormed := by
  cases c with
  | declare m => exact h.addMethod m
  | call caller callee => exact h.addEdge caller callee

end WellFormed

theorem wellFormed_ofChanges : (ofChanges className changes).WellFormed :=
  List.foldlRecOn changes CallGraph.change wellFormed_empty fun _ h c _ => h.change c

/-! ## What a graph answers -/

theorem ofChanges_concat {c : Change} :
    ofChanges className (changes ++ [c]) = (ofChanges className changes).change c := by
  simp [ofChanges]

theorem declares_ofChanges : (ofChanges className changes).declares x = true ↔
    .declare x ∈ changes ∨ ∃ y, .call x y ∈ changes ∨ .call y x ∈ changes := by
  induction changes using List.reverseRecOn with
  | nil => simp [ofChanges, empty, declares, node?]
  | append_singleton changes c ih =>
    rw [ofChanges_concat]
    cases c with
    | declare m =>
      rw [change, declares_addMethod, ih]
      grind
    | call caller callee =>
      rw [change, declares_addEdge, ih]
      grind

theorem mem_children_ofChanges :
    y ∈ (ofChanges className changes).children x ↔ .call x y ∈ changes := by
  induction changes using List.reverseRecOn with
  | nil => simp [ofChanges, empty, children, node?]
  | append_singleton changes c ih =>
    rw [ofChanges_concat]
    cases c with
    | declare m =>
      rw [change, mem_children_addMethod, ih]
      simp
    | call caller callee =>
      rw [change, mem_children_addEdge, ih]
      simp

theorem holds_ofChanges : (ofChanges className changes).Holds changes where
  toWellFormed := wellFormed_ofChanges
  declares_iff _ := declares_ofChanges
  mem_children_iff _ _ := mem_children_ofChanges

end CallGraph

/-- The changes from which the call graph of a class is made. -/
def ClassInfo.changes (c : ClassInfo) : List CallGraph.Change :=
  c.methods.map .declare ++ c.calls.map fun call => .call call.1 call.2

theorem ClassInfo.callGraph_eq (c : ClassInfo) (className : String) :
    c.callGraph className = .ofChanges className c.changes := by
  simp only [CallGraph.ofChanges, changes, List.foldl_append, List.foldl_map]
  rfl

/-- The changes from which the call graph of a class is made; none if it is not known. -/
def Hierarchy.changes (h : Hierarchy) (name : String) : List CallGraph.Change :=
  match h.find? name with
  | some c => c.changes
  | none => []

theorem Hierarchy.holds_callGraph {h : Hierarchy} {name : String} :
    (h.callGraph name).Holds (h.changes name) := by
  unfold callGraph changes
  cases h.find? name with
  | some c =>
    change (c.callGraph name).Holds c.changes
    rw [c.callGraph_eq]
    exact CallGraph.holds_ofChanges
  | none => exact @CallGraph.holds_ofChanges name []

namespace CallGraph

/-- A graph holds the changes that made it. So graphs made by the same changes, in any order and
any number, declare the same methods with the same callees. The call graph of a class holds its
methods and its calls. -/
theorem changes_held :
    (∀ className changes, (ofChanges className changes).Holds changes) ∧
    (∀ className changes className' changes', (∀ c : Change, c ∈ changes ↔ c ∈ changes') →
      ∀ x, (ofChanges className changes).declares x = (ofChanges className' changes').declares x ∧
        ∀ y, y ∈ (ofChanges className changes).children x ↔
          y ∈ (ofChanges className' changes').children x) ∧
    ∀ (h : Hierarchy) (name : String), (h.callGraph name).Holds (h.changes name) := by
  refine ⟨fun _ _ => holds_ofChanges, fun className changes className' changes' hsame x => ⟨?_, ?_⟩,
    fun _ _ => Hierarchy.holds_callGraph⟩
  · rw [Bool.eq_iff_iff, declares_ofChanges, declares_ofChanges]
    simp only [hsame]
  · intro y
    rw [mem_children_ofChanges, mem_children_ofChanges, hsame]

/-- A parser that declares its check and then calls it twice. -/
def declaredFirst : List Change :=
  [.declare "check", .call "parse" "check", .call "parse" "check"]

/-- A parser that declares its check when it has called it. -/
def calledFirst : List Change := [.call "parse" "check", .declare "check"]

theorem parser_changes_held :
    (∀ c, c ∈ declaredFirst ↔ c ∈ calledFirst) ∧
      ∀ x, (ofChanges "Parser" declaredFirst).declares x =
          (ofChanges "Parser" calledFirst).declares x ∧
        ∀ y, y ∈ (ofChanges "Parser" declaredFirst).children x ↔
          y ∈ (ofChanges "Parser" calledFirst).children x := by
  have hsame (c : Change) : c ∈ declaredFirst ↔ c ∈ calledFirst := by
    grind [declaredFirst, calledFirst]
  exact ⟨hsame, changes_held.2.1 "Parser" declaredFirst "Parser" calledFirst hsame⟩

end CallGraph

end CrashSearch
