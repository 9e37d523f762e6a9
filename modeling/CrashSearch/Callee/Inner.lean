import CrashSearch.Callee.Scope
import CrashSearch.Ordered.Set

/-!
# Inner classes

Calls that leave a method for an inner class of its class. An interface stands for all inner
classes that implement it. Of an inner class all methods count that the called one leads to in
the call graph of that class.

## Main definitions

* `InnerMethods`: methods by inner class.
* `CallGraph.spread`: the methods that some methods lead to.
* `Scope.innerMethods`: the inner methods that a method calls.

## Main statements

* `CallGraph.children_eq_nil`: an undeclared method calls none.
-/

namespace CrashSearch

theorem CallGraph.children_eq_nil {g : CallGraph} {m : String} (h : m ∉ g.methods) :
    g.children m = [] := by
  cases hc : g.children m with
  | nil => rfl
  | cons x xs =>
    exact absurd (declares_iff.1 (declares_of_mem_children (x := x) (by simp [hc]))) h

/-- How many methods of a class are not among those `found`. -/
def CallGraph.unfound (g : CallGraph) (found : OrderedSet String) : Nat :=
  (g.methods.filter (· ∉ found)).length

theorem CallGraph.unfound_insert_lt {g : CallGraph} {found : OrderedSet String} {m : String}
    (hm : m ∈ g.methods) (hn : m ∉ found) : g.unfound (found.insert m) < g.unfound found := by
  unfold unfound
  have heq : g.methods.filter (· ∉ found.insert m) =
      (g.methods.filter (· ∉ found)).filter (· ≠ m) := by
    rw [List.filter_filter]
    congr 1
    funext x
    simp [not_or]
  rw [heq]
  refine List.length_filter_lt_length_iff_exists.2 ⟨m, ?_, by simp⟩
  simp [hm, hn]

theorem CallGraph.unfound_insert_of_not_mem {g : CallGraph} {found : OrderedSet String}
    {m : String} (hm : m ∉ g.methods) : g.unfound (found.insert m) = g.unfound found := by
  unfold unfound
  congr 1
  apply List.filter_congr
  intro x hx
  have : x ≠ m := fun h => hm (h ▸ hx)
  simp [this]

/-- Either a declared method is found, or nothing joins the queue. -/
theorem CallGraph.unfound_step {g : CallGraph} {found : OrderedSet String} {m : String}
    (rest : List String) (hn : m ∉ found) :
    Prod.Lex (· < ·) (· < ·)
      (g.unfound (found.insert m), (rest ++ (g.children m).filter (· ∉ found.insert m)).length)
      (g.unfound found, (m :: rest).length) := by
  by_cases hm : m ∈ g.methods
  · exact .left _ _ (unfound_insert_lt hm hn)
  · rw [unfound_insert_of_not_mem hm, children_eq_nil hm]
    exact .right _ (by simp)

/-- Adds the methods of a queue to those found, and behind them what they call, in the order of
their distance. -/
def CallGraph.spread (g : CallGraph) (found : OrderedSet String) (queue : List String) :
    OrderedSet String :=
  match queue with
  | [] => found
  | m :: rest =>
    if hn : m ∈ found then g.spread found rest
    else
      have := unfound_step (g := g) rest hn
      g.spread (found.insert m) (rest ++ (g.children m).filter (· ∉ found.insert m))
termination_by (g.unfound found, queue.length)
decreasing_by
  · exact .right _ (by simp)
  · exact this

theorem CallGraph.spread_nil {g : CallGraph} {found : OrderedSet String} :
    g.spread found [] = found := by
  rw [spread]

theorem CallGraph.spread_cons {g : CallGraph} {found : OrderedSet String} {m : String}
    {rest : List String} : g.spread found (m :: rest) = if m ∈ found then g.spread found rest
      else g.spread (found.insert m) (rest ++ (g.children m).filter (· ∉ found.insert m)) := by
  rw [spread]
  rfl

/-- For each inner class the methods that count. -/
abbrev InnerMethods := Assoc String (OrderedSet String)

namespace InnerMethods

/-- The methods of one class. -/
def methods (m : InnerMethods) (className : String) : OrderedSet String :=
  (m.get? className).getD .empty

/-- The methods of either collection. -/
def merge (a b : InnerMethods) : InnerMethods :=
  b.entries.foldl (fun m (c, s) => m.insert c ((methods m c).union s)) a

/-- All classes with their methods, in order of both. -/
def pairs (m : InnerMethods) : List (String × String) :=
  (m.entries.mergeSort (·.1 ≤ ·.1)).flatMap fun (c, s) => s.toList.map (c, ·)

end InnerMethods

namespace Scope

/-- Adds the methods that a call of `method` on an inner class leads to, if the class has it. -/
def addInner (s : Scope) (found : InnerMethods) (className method : String) : InnerMethods :=
  match s.program.graph? className method with
  | none => found
  | some _ =>
    found.insert className
      ((s.hierarchy.callGraph className).spread (found.methods className) [method])

/-- Whether a class implements an interface; what instrumentation added does not count. -/
def implements (s : Scope) (className interface : String) : Bool :=
  (s.hierarchy.interfacesOf className).any fun i =>
    !s.session.isInstrumentation i && i = interface

/-- Whether a class is an inner class of another. -/
def isInner (outer className : String) : Bool :=
  Text.startsWith className.toList (outer.toList ++ ['$'])

/-- The classes that can run a call on an inner class: those that implement it if it is an
interface, and else the class itself. -/
def receivers (s : Scope) (outer className : String) : List String :=
  if s.hierarchy.isInterface className then
    s.hierarchy.loaded.filter fun c => isInner outer c && s.implements c className
  else [className]

/-- Adds the methods that one call of a method of `outer` leads to. -/
def addCall (s : Scope) (outer : String) (found : InnerMethods) (call : CallSite) : InnerMethods :=
  let target := call.target
  if !isInner outer target.className then found
  else if target.methodName ∈ found.methods target.className then found
  else
    (s.receivers outer target.className).foldl
      (fun found c => s.addInner found c target.methodName) found

/-- The inner methods that a method calls. -/
def innerMethods (s : Scope) (g : FlowGraph) : InnerMethods :=
  g.callSites.foldl (s.addCall g.className) .empty

end Scope

end CrashSearch
