import CrashSearch.Classes.Hierarchy
import Mathlib.Logic.Relation

/-!
# Call graphs of known classes

Adding a call declares both of its methods, so whatever a method calls is declared in the same
class. The call graph of a class bears the name by which it was asked for.

## Main definitions

* `CallGraph.Closed`: every method that is called is declared.
* `CallGraph.Reaches`: a method leads to another by calls inside the class.

## Main statements

* `Hierarchy.className_callGraph`: the call graph of a class bears its name.
* `Hierarchy.closed_callGraph`: it is closed.
-/

namespace CrashSearch

namespace CallGraph

variable {g : CallGraph} {m x : String}

/-- Every method that is called is declared. -/
def Closed (g : CallGraph) : Prop := ∀ x y, y ∈ g.children x → g.declares y = true

/-- `y` is `x` or is reached from it by calls inside the class. -/
def Reaches (g : CallGraph) : String → String → Prop :=
  Relation.ReflTransGen fun x y => y ∈ g.children x

@[simp] theorem className_addMethod : (g.addMethod m).className = g.className := by
  unfold addMethod
  split <;> rfl

@[simp] theorem className_addEdge {caller callee : String} :
    (g.addEdge caller callee).className = g.className := by
  change ((g.addMethod callee).addMethod caller).className = g.className
  rw [className_addMethod, className_addMethod]

theorem declares_addMethod : (g.addMethod m).declares x = true ↔ g.declares x = true ∨ x = m := by
  unfold declares
  rw [node?_addMethod]
  split
  · rename_i h
    simp [h]
  · rename_i h
    simp [h]

theorem map_method_updateFirst {f : CallNode → CallNode} (hf : ∀ n, (f n).method = n.method)
    {nodes : List CallNode} : (updateFirst m f nodes).map (·.method) = nodes.map (·.method) := by
  induction nodes with
  | nil => rfl
  | cons n rest ih =>
    unfold updateFirst
    split
    · simp [hf]
    · simp [ih]

theorem methods_addEdge {caller callee : String} : (g.addEdge caller callee).methods =
    ((g.addMethod callee).addMethod caller).methods :=
  map_method_updateFirst fun _ => CallNode.method_addCallee

theorem declares_addEdge {caller callee : String} :
    (g.addEdge caller callee).declares x = true ↔
      g.declares x = true ∨ x = callee ∨ x = caller := by
  rw [declares_iff, methods_addEdge, ← declares_iff, declares_addMethod, declares_addMethod,
    or_assoc]

theorem closed_empty {className : String} : (empty className).Closed := by
  intro x y hy
  simp [empty, children, node?] at hy

theorem Closed.addMethod (h : g.Closed) (m : String) : (g.addMethod m).Closed := by
  intro x y hy
  exact declares_addMethod.2 (.inl (h x y (mem_children_addMethod.1 hy)))

theorem Closed.addEdge (h : g.Closed) (caller callee : String) :
    (g.addEdge caller callee).Closed := by
  intro x y hy
  refine declares_addEdge.2 ?_
  rcases mem_children_addEdge.1 hy with hy | ⟨-, rfl⟩
  · exact .inl (h x y hy)
  · exact .inr (.inl rfl)

theorem Closed.declares_of_reaches (h : g.Closed) (hm : g.declares m = true)
    (hx : g.Reaches m x) : g.declares x = true := by
  rcases hx.cases_tail with rfl | ⟨y, -, hcall⟩
  · exact hm
  · exact h y x hcall

end CallGraph

/-- What holds of the graph without methods and is kept by declaring methods and adding calls
holds of the call graph of a class. -/
theorem ClassInfo.callGraph_induction {P : CallGraph → Prop} {c : ClassInfo} {className : String}
    (hempty : P (.empty className)) (hmethod : ∀ g m, P g → P (g.addMethod m))
    (hcall : ∀ g caller callee, P g → P (g.addEdge caller callee)) :
    P (c.callGraph className) := by
  have hmethods : P (c.methods.foldl CallGraph.addMethod (.empty className)) :=
    List.foldlRecOn c.methods _ hempty fun g hg m _ => hmethod g m hg
  exact List.foldlRecOn c.calls _ hmethods fun g hg call _ => hcall g call.1 call.2 hg

theorem ClassInfo.className_callGraph {c : ClassInfo} {className : String} :
    (c.callGraph className).className = className :=
  callGraph_induction (P := fun g => g.className = className) rfl
    (fun _ _ h => CallGraph.className_addMethod.trans h)
    (fun _ _ _ h => CallGraph.className_addEdge.trans h)

theorem ClassInfo.closed_callGraph {c : ClassInfo} {className : String} :
    (c.callGraph className).Closed :=
  callGraph_induction CallGraph.closed_empty (fun _ m h => h.addMethod m)
    (fun _ caller callee h => h.addEdge caller callee)

/-- The declared methods are those of the class and the two ends of each of its calls. -/
theorem ClassInfo.declares_callGraph {c : ClassInfo} {className m : String} :
    (c.callGraph className).declares m = true ↔
      m ∈ c.methods ∨ ∃ call ∈ c.calls, m = call.1 ∨ m = call.2 := by
  have hmethods : ∀ (l : List String) (g : CallGraph),
      (l.foldl CallGraph.addMethod g).declares m = true ↔ g.declares m = true ∨ m ∈ l := by
    intro l
    induction l with
    | nil => simp
    | cons x l ih =>
      intro g
      rw [List.foldl_cons, ih, CallGraph.declares_addMethod, List.mem_cons, or_assoc]
  have hcalls : ∀ (l : List (String × String)) (g : CallGraph),
      (l.foldl (fun g call => g.addEdge call.1 call.2) g).declares m = true ↔
        g.declares m = true ∨ ∃ call ∈ l, m = call.1 ∨ m = call.2 := by
    intro l
    induction l with
    | nil => simp
    | cons call l ih =>
      intro g
      rw [List.foldl_cons, ih, CallGraph.declares_addEdge, or_assoc, @or_comm (m = call.2)]
      simp
  have hempty : (CallGraph.empty className).declares m = false := rfl
  simp [callGraph, hcalls, hmethods, hempty]

namespace Hierarchy

variable {h : Hierarchy} {name : String}

theorem closed_callGraph : (h.callGraph name).Closed := by
  unfold callGraph
  split
  · exact ClassInfo.closed_callGraph
  · exact CallGraph.closed_empty

@[simp] theorem className_callGraph : (h.callGraph name).className = name := by
  unfold callGraph
  split
  · exact ClassInfo.className_callGraph
  · rfl

end Hierarchy

end CrashSearch
