/-!
# Call graphs of classes

Which methods of a class call which others of the same class.

## Main definitions

* `CallGraph`: the methods of a class, each with the methods it calls.
* `CallGraph.addMethod`, `CallGraph.addEdge`: declare a method and a call.
* `CallGraph.declares`, `CallGraph.children`: what the graph answers.

## Main statements

* `CallGraph.declares_of_mem_children`: only declared methods call others.
* `CallGraph.mem_children_addEdge`: the calls after one was added.
-/

namespace CrashSearch

/-- A method and the methods of its class that it calls. -/
structure CallNode where
  method : String
  callees : List String
  deriving DecidableEq

/-- The calls inside one class. -/
structure CallGraph where
  className : String
  nodes : List CallNode
  deriving DecidableEq

namespace CallGraph

/-- The graph of a class without methods. -/
def empty (className : String) : CallGraph := ⟨className, []⟩

/-- The node of a method. -/
def node? (g : CallGraph) (method : String) : Option CallNode :=
  g.nodes.find? (·.method = method)

/-- Whether the class declares a method. -/
def declares (g : CallGraph) (method : String) : Bool := (g.node? method).isSome

/-- The methods that a method calls; none if it is not declared. -/
def children (g : CallGraph) (method : String) : List String :=
  match g.node? method with
  | some n => n.callees
  | none => []

/-- The declared methods. -/
def methods (g : CallGraph) : List String := g.nodes.map (·.method)

/-- Declares a method, unless it is declared. -/
def addMethod (g : CallGraph) (method : String) : CallGraph :=
  if g.declares method then g else { g with nodes := g.nodes ++ [⟨method, []⟩] }

/-- Adds a callee to a node, unless it is there. -/
def CallNode.addCallee (n : CallNode) (callee : String) : CallNode :=
  if callee ∈ n.callees then n else { n with callees := n.callees ++ [callee] }

/-- Changes the first node of a method. -/
def updateFirst (method : String) (f : CallNode → CallNode) : List CallNode → List CallNode
  | [] => []
  | n :: rest => if n.method = method then f n :: rest else n :: updateFirst method f rest

/-- Adds a call; both methods become declared, the called one first. -/
def addEdge (g : CallGraph) (caller callee : String) : CallGraph :=
  let declared := (g.addMethod callee).addMethod caller
  { declared with nodes := updateFirst caller (CallNode.addCallee · callee) declared.nodes }

theorem declares_iff {g : CallGraph} {m : String} : g.declares m ↔ m ∈ g.methods := by
  simp [declares, node?, methods]

theorem declares_of_mem_children {g : CallGraph} {m x : String} (h : x ∈ g.children m) :
    g.declares m := by
  unfold children at h
  unfold declares
  split at h
  · rename_i n hn; simp [hn]
  · simp at h

theorem node?_addMethod {g : CallGraph} {m x : String} :
    (g.addMethod m).node? x = if x = m then some ((g.node? m).getD ⟨m, []⟩) else g.node? x := by
  unfold addMethod
  split
  · rename_i h
    obtain ⟨n, hn⟩ := Option.isSome_iff_exists.1 h
    split
    · rename_i hx
      rw [hx, hn, Option.getD_some]
    · rfl
  · rename_i h
    have hn : g.node? m = none := by simpa [declares] using h
    unfold node? at *
    by_cases hx : x = m
    · simp [List.find?_append, hx, hn]
    · simp [List.find?_append, hx, Ne.symm hx]

theorem mem_children_addMethod {g : CallGraph} {m x y : String} :
    y ∈ (g.addMethod m).children x ↔ y ∈ g.children x := by
  unfold children
  rw [node?_addMethod]
  by_cases hx : x = m
  · subst hx
    cases hn : g.node? x <;> simp
  · simp [hx]

theorem find?_updateFirst {f : CallNode → CallNode} (hf : ∀ n, (f n).method = n.method)
    {m x : String} {nodes : List CallNode} :
    (updateFirst m f nodes).find? (·.method = x) =
      if x = m then (nodes.find? (·.method = x)).map f else nodes.find? (·.method = x) := by
  induction nodes with
  | nil => simp [updateFirst]
  | cons n rest ih =>
    unfold updateFirst
    by_cases hm : n.method = m
    · subst hm
      by_cases hx : n.method = x
      · simp [hf, hx]
      · simp [hf, hx, Ne.symm hx]
    · by_cases hx : n.method = x
      · subst hx
        simp [hm]
      · simp [hm, hx, ih]

theorem CallNode.method_addCallee {n : CallNode} {x : String} :
    (CallNode.addCallee n x).method = n.method := by
  unfold addCallee
  split <;> rfl

theorem CallNode.mem_callees_addCallee {n : CallNode} {x y : String} :
    y ∈ (CallNode.addCallee n x).callees ↔ y ∈ n.callees ∨ y = x := by
  unfold addCallee
  split
  · rename_i h
    exact ⟨.inl, fun hy => hy.elim id fun hy => hy ▸ h⟩
  · simp

theorem mem_children_addEdge {g : CallGraph} {caller callee x y : String} :
    y ∈ (g.addEdge caller callee).children x ↔
      y ∈ g.children x ∨ x = caller ∧ y = callee := by
  have hdeclared : y ∈ ((g.addMethod callee).addMethod caller).children x ↔ y ∈ g.children x :=
    mem_children_addMethod.trans mem_children_addMethod
  rw [← hdeclared]
  have hnode := @find?_updateFirst (CallNode.addCallee · callee)
    (fun _ => CallNode.method_addCallee) caller x ((g.addMethod callee).addMethod caller).nodes
  change (g.addEdge caller callee).node? x = _ at hnode
  unfold children
  rw [hnode]
  by_cases hx : x = caller
  · subst hx
    have hsome : ((g.addMethod callee).addMethod x).node? x =
        some (((g.addMethod callee).node? x).getD ⟨x, []⟩) := by
      rw [node?_addMethod, if_pos rfl]
    unfold node? at hsome
    simp [hsome, CallNode.mem_callees_addCallee, node?]
  · simp [hx, node?]

end CallGraph

end CrashSearch
