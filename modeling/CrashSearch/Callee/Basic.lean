import CrashSearch.Callee.Inner
import CrashSearch.Flow.Joined

/-!
# Called classes

A class under call collects its call sites, the graphs that calls on it can run, and for each
call site the branches that can be exercised through it.

## Main definitions

* `Callee`: a class with what was collected.
* `Callee.addCallSite`, `Callee.resolve`, `Callee.involveCalled`, `Callee.collect`: its operations.
* `Callee.joined`: the involved graphs as one.
-/

namespace CrashSearch

/-- A class with its call sites, the graphs involved in calls on it, and the branches that its
call sites can exercise. -/
structure Callee where
  scope : Scope
  /-- The call sites with the types of their arguments. -/
  sites : Assoc InstructionId (List String)
  calledMethods : List String
  branches : Assoc InstructionId (List Branch)
  involved : List FlowGraph

namespace Callee

/-- A class on which no call is known. -/
def ofScope (s : Scope) : Callee := ⟨s, .empty, [], .empty, []⟩

@[simp] theorem scope_ofScope {s : Scope} : (ofScope s).scope = s := rfl

/-- Records a call of a method of the class. -/
def addCallSite (c : Callee) (site : CallSite) : Callee :=
  let method := site.target.methodName
  { c with
    sites := c.sites.insert site.instruction site.target.argTypes
    calledMethods := if method ∈ c.calledMethods then c.calledMethods
      else c.calledMethods ++ [method] }

/-- The call sites inside a method, in order. -/
def sitesIn (c : Callee) (method : String) : List (InstructionId × List String) :=
  (c.sites.entries.filter (·.1.methodName = method)).mergeSort fun a b =>
    (InstructionId.compare a.1 b.1).isLE

/-- Adds a graph, unless one of its method is there. -/
def involve (graphs : List FlowGraph) (g : FlowGraph) : List FlowGraph :=
  if graphs.any (·.sameMethod g) then graphs else graphs ++ [g]

/-- The graphs that a call of a method can run, which from now on are involved. -/
def resolve (c : Callee) (method : String) : Except Error (Callee × List FlowGraph) := do
  let found ← c.scope.reach method
  return ({ c with involved := found.foldl involve c.involved }, found)

/-- Resolves some methods one after the other, up to the first that fails. -/
def resolveAll (c : Callee) : List String → Callee × Except Error Unit
  | [] => (c, .ok ())
  | m :: rest =>
    match c.resolve m with
    | .ok (c, _) => c.resolveAll rest
    | .error e => (c, .error e)

/-- Resolves every called method. -/
def involveCalled (c : Callee) : Callee × Except Error Unit := c.resolveAll c.calledMethods

/-- The involved graph of a method. -/
def involved? (c : Callee) (method : String) : Option FlowGraph :=
  c.involved.find? (·.methodName = method)

/-- The branches of a call site. -/
def branchesOf (c : Callee) (site : InstructionId) : List Branch :=
  (c.branches.get? site).getD []

/-- Adds branches to a call site, each once. -/
def addBranches (c : Callee) (site : InstructionId) (branches : List Branch) : Callee :=
  { c with
    branches :=
      c.branches.insert site (branches.foldl (fun l b => l.insert b) (c.branchesOf site)) }

/-- The branches of a method. -/
def graphBranches (p : Program) (g : FlowGraph) : List Branch :=
  g.branchInstructions.flatMap fun i =>
    match p.branchKind i with
    | .normal b => [b]
    | .switch cases => cases
    | .unknown => []

/-- The name under which an inner method is known to be handled. -/
def innerKey (className method : String) : String := className ++ "." ++ method

/-- Handles inner methods for a call site: those not handled before add their branches to it. -/
def handleInner (site : InstructionId) :
    Callee × OrderedSet String → List (String × String) → Callee × OrderedSet String
  | (c, handled), [] => (c, handled)
  | (c, handled), (className, method) :: rest =>
    let key := innerKey className method
    if key ∈ handled then handleInner site (c, handled) rest
    else
      let branches := match c.scope.program.graph? className method with
        | some g => graphBranches c.scope.program g
        | none => []
      handleInner site (c.addBranches site branches, handled.insert key) rest

/-- Adds to a call site the branches of one graph and of the inner methods it calls. -/
def collectGraph (site : InstructionId) (state : Callee × OrderedSet String × InnerMethods)
    (g : FlowGraph) : Callee × OrderedSet String × InnerMethods :=
  let (c, handled, discovered) := state
  let inner := c.scope.innerMethods g
  let (c, handled) := handleInner site (c, handled) inner.pairs
  (c.addBranches site (graphBranches c.scope.program g), handled, discovered.merge inner)

/-- Adds to a call site the branches that it can exercise: those of every graph that the called
method can run, and those of the inner methods these call and that were not `handled` before.
The answer holds all inner methods. -/
def collect (c : Callee) (site : CallSite) (handled : OrderedSet String) :
    Except Error (Callee × OrderedSet String × InnerMethods) := do
  let (c, found) ← c.resolve site.target.methodName
  return found.foldl (collectGraph site.instruction) (c, handled, .empty)

/-- The graph that runs at a call on the lineage, if a class other than the named one declares the
method and its graph is involved. -/
def redirect? (c : Callee) (target : CallTarget) : Option FlowGraph :=
  if c.scope.lineage.any (·.className = target.className) then
    match c.scope.declaring? target.methodName with
    | none => none
    | some calls =>
      if calls.className = target.className then none
      else c.involved.find? fun g =>
        g.className = calls.className ∧ g.methodName = target.methodName
  else none

/-- Where the calls of the involved graphs are directed. -/
def dispatch (c : Callee) : Dispatch :=
  (c.involved.flatMap (·.callSites)).foldl (fun table call =>
    match c.redirect? call.target with
    | some g => table.insert (call.target.className, call.target.methodName) g
    | none => table) .empty

/-- The involved graphs as one. -/
def joined (c : Callee) : JoinedGraph := .join c.involved c.dispatch

end Callee

end CrashSearch
