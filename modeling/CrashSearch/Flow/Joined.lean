import CrashSearch.Flow.Basic
import CrashSearch.Ordered.Assoc

/-!
# Joined graphs

The graphs of several methods joined into one: a call leads to the entry of the called method,
and its returns lead back to where the call goes on.

## Main definitions

* `JoinedGraph`: nodes and edges.
* `JoinedGraph.join`: joins graphs, with some calls directed to another method than they name.
* `JoinedGraph.returnPoints`, `JoinedGraph.leaving`: parts of a joined graph.
-/

namespace CrashSearch

/-- What an instruction is in a joined graph. -/
inductive NodeKind where
  /-- The first instruction of its method. -/
  | entry
  | plain
  | branch
  | call
  | return
  deriving DecidableEq

/-- An instruction in a joined graph. -/
structure Node where
  id : InstructionId
  label : String
  kind : NodeKind
  line : Option UInt32
  deriving DecidableEq

/-- Why one instruction may follow another. -/
inductive EdgeKind where
  /-- In the same method. -/
  | intra
  /-- From a call to the entry of the called method. -/
  | call
  /-- From a return to where the call goes on. -/
  | return
  deriving DecidableEq

/-- An edge of a joined graph. -/
structure Edge where
  source : InstructionId
  target : InstructionId
  kind : EdgeKind
  deriving DecidableEq

/-- The graph of several methods. -/
structure JoinedGraph where
  nodes : List Node
  edges : List Edge
  deriving DecidableEq

/-- For a class and a method that calls name, the graph of the method that runs instead. -/
abbrev Dispatch := Assoc (String × String) FlowGraph

/-- The kind of a node that is not an entry. -/
def NodeKind.ofOpcode : Opcode → NodeKind
  | .plain => plain
  | .branch => branch
  | .switch => branch
  | .invoke _ => call
  | .return => .return

namespace FlowGraph

/-- An instruction of a method as a node. -/
def node (g : FlowGraph) (i : Instruction) : Node where
  id := g.idOf i.index
  label := g.methodName ++ "#" ++ toString i.index.toNat
  kind := if some (g.idOf i.index) = g.entry? then .entry else .ofOpcode i.opcode
  line := i.line

/-- The edges inside a method. -/
def intraEdges (g : FlowGraph) : List Edge :=
  g.edges.map fun (a, b) => ⟨g.idOf a, g.idOf b, .intra⟩

/-- The edges of a call of `callee` at the instruction `index`: one to its entry, and from each of
its returns one to each successor of the call. A method without instructions has none. -/
def callEdges (g callee : FlowGraph) (index : UInt32) : List Edge :=
  match callee.entry? with
  | none => []
  | some entry =>
    ⟨g.idOf index, entry, .call⟩ ::
      callee.returnInstructions.flatMap fun exit =>
        (g.successors index).map fun next => ⟨exit, g.idOf next, .return⟩

end FlowGraph

namespace JoinedGraph

/-- The graph of a method; of several graphs of one method the last counts. -/
def graphOf? (graphs : List FlowGraph) (className methodName : String) : Option FlowGraph :=
  graphs.reverse.find? fun g => g.className = className ∧ g.methodName = methodName

/-- The graph of the method that runs at a call. -/
def callee? (graphs : List FlowGraph) (dispatch : Dispatch) (target : CallTarget) :
    Option FlowGraph :=
  match dispatch.get? (target.className, target.methodName) with
  | some g => some g
  | none => graphOf? graphs target.className target.methodName

/-- The edges that leave a method by its calls. -/
def outerEdges (graphs : List FlowGraph) (dispatch : Dispatch) (g : FlowGraph) : List Edge :=
  g.callSites.flatMap fun call =>
    match callee? graphs dispatch call.target with
    | none => []
    | some callee => g.callEdges callee call.instruction.index

/-- Joins the graphs of several methods. -/
def join (graphs : List FlowGraph) (dispatch : Dispatch) : JoinedGraph where
  nodes := graphs.flatMap fun g => g.instructions.map g.node
  edges := graphs.flatMap fun g => g.intraEdges ++ outerEdges graphs dispatch g

/-- Joins the graphs of several methods; each call runs the method that it names. -/
def ofGraphs (graphs : List FlowGraph) : JoinedGraph := join graphs .empty

/-- The returns of a method. -/
def returnPoints (g : JoinedGraph) (className methodName : String) : List InstructionId :=
  (g.nodes.filter fun n =>
    n.kind = .return ∧ n.id.className = className ∧ n.id.methodName = methodName).map (·.id)

/-- The edges that leave an instruction. -/
def leaving (g : JoinedGraph) (id : InstructionId) : List Edge :=
  g.edges.filter (·.source = id)

end JoinedGraph

end CrashSearch
