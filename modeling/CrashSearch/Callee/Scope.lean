import CrashSearch.Classes.Hierarchy
import CrashSearch.Error
import CrashSearch.Program
import CrashSearch.Session

/-!
# Resolving calls

A call on a class runs the version of the method that the nearest class above it declares, and
so do the calls that this method makes on its own object.

## Main definitions

* `Scope`: a class with the call graphs of its lineage.
* `Scope.declaring?`, `Scope.lookup`: the nearest declaration of a method, and its graph.
* `Scope.reach`: the graphs of all methods that a call can run.

## Main statements

* `Scope.lookup_names`: the graph found belongs to the declaring class and the method.
-/

namespace CrashSearch

/-- A class as the receiver of calls. -/
structure Scope where
  className : String
  /-- The call graph of the class and those of its superclasses, nearest first. -/
  lineage : List CallGraph
  hierarchy : Hierarchy
  program : Program
  session : Session

namespace Scope

/-- A class of a hierarchy as the receiver of calls. -/
def ofClass (hierarchy : Hierarchy) (program : Program) (session : Session)
    (className : String) : Scope where
  className := className
  lineage := (className :: hierarchy.superclasses className).map hierarchy.callGraph
  hierarchy := hierarchy
  program := program
  session := session

/-- The superclasses, nearest first. -/
def superclasses (s : Scope) : List String := (s.lineage.drop 1).map (·.className)

/-- The nearest class that declares a method, as its call graph. -/
def declaring? (s : Scope) (method : String) : Option CallGraph :=
  s.lineage.find? (·.declares method)

/-- The call graph in which a method is declared, and the graph of the method. -/
def lookup (s : Scope) (method : String) : Except Error (CallGraph × FlowGraph) :=
  match s.declaring? method with
  | none => .error (.methodNotInHierarchy s.className method)
  | some calls =>
    match s.program.graph? calls.className method with
    | none => .error (.methodNotInHierarchy calls.className method)
    | some graph => .ok (calls, graph)

/-- Every method of the lineage with the class that declares it. -/
def declarations (s : Scope) : List (String × String) :=
  s.lineage.flatMap fun calls => calls.methods.map (calls.className, ·)

/-- How many declarations have no graph among those `found`. -/
def unfound (s : Scope) (found : List FlowGraph) : Nat :=
  (s.declarations.filter (· ∉ found.map FlowGraph.key)).length

theorem lookup_names {s : Scope} {m : String} {calls : CallGraph} {g : FlowGraph}
    (h : s.lookup m = .ok (calls, g)) :
    s.declaring? m = some calls ∧ g.className = calls.className ∧ g.methodName = m := by
  unfold lookup at h
  split at h
  · cases h
  · rename_i c hc
    split at h
    · cases h
    · rename_i f hf
      cases h
      have := List.find?_some hf
      simp only [decide_eq_true_eq] at this
      exact ⟨hc, this⟩

theorem mem_declarations {s : Scope} {m : String} {calls : CallGraph}
    (h : s.declaring? m = some calls) : (calls.className, m) ∈ s.declarations := by
  unfold declaring? at h
  have hd : calls.declares m := List.find?_some (p := fun g : CallGraph => g.declares m) h
  exact List.mem_flatMap.2 ⟨calls, List.mem_of_find?_eq_some h,
    List.mem_map_of_mem (CallGraph.declares_iff.1 hd)⟩

theorem unfound_lt {s : Scope} {found : List FlowGraph} {g : FlowGraph}
    (hd : g.key ∈ s.declarations) (hn : found.any (·.sameMethod g) = false) :
    s.unfound (found ++ [g]) < s.unfound found := by
  have hnew : g.key ∉ found.map FlowGraph.key := by
    intro hm
    obtain ⟨x, hx, he⟩ := List.mem_map.1 hm
    exact List.any_eq_false.1 hn x hx (FlowGraph.sameMethod_iff.2 he)
  unfold unfound
  have heq : s.declarations.filter (· ∉ (found ++ [g]).map FlowGraph.key) =
      (s.declarations.filter (· ∉ found.map FlowGraph.key)).filter (· ≠ g.key) := by
    rw [List.filter_filter]
    congr 1
    funext k
    simp [not_or, and_comm]
  rw [heq]
  refine List.length_filter_lt_length_iff_exists.2 ⟨_, List.mem_filter.2 ⟨hd, ?_⟩, by simp⟩
  simpa using hnew

/-- Visits the methods that are `pending`, first one first, and before the rest the methods that
a newly found one calls. Each method is found once, which ends cycles of calls. -/
def visit (s : Scope) (found : List FlowGraph) (pending : List String) :
    Except Error (List FlowGraph) :=
  match pending with
  | [] => .ok found
  | m :: rest =>
    match hl : s.lookup m with
    | .error e => .error e
    | .ok (calls, g) =>
      if hn : found.any (·.sameMethod g) then s.visit found rest
      else
        have : s.unfound (found ++ [g]) < s.unfound found := by
          obtain ⟨hc, hg, hm⟩ := lookup_names hl
          have hk : g.key = (calls.className, m) := by simp [FlowGraph.key, hg, hm]
          exact unfound_lt (hk ▸ mem_declarations hc) (Bool.eq_false_iff.2 hn)
        s.visit (found ++ [g]) (calls.children m ++ rest)
termination_by (s.unfound found, pending.length)

/-- The graphs of the methods that a call can run, the called one first. -/
def reach (s : Scope) (method : String) : Except Error (List FlowGraph) := s.visit [] [method]

end Scope

end CrashSearch
