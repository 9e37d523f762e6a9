import CrashSearch.Flow.Joined

/-!
# Drawing joined graphs

A joined graph in the DOT language: one cluster for each method, in the order of their names,
and then the edges.

## Main definitions

* `Dot.escape`: a label inside quotes.
* `Dot.clusters`: the nodes of each method.
* `JoinedGraph.dot`: the drawing.
-/

namespace CrashSearch

namespace Dot

/-- A label as it stands inside quotes. -/
def escape (label : String) : String :=
  String.ofList <| label.toList.flatMap fun c =>
    if c = '\\' then ['\\', '\\']
    else if c = '"' then ['\\', '"']
    else if c = '\n' then ['\\', 'n']
    else [c]

/-- A text in quotes. -/
def quoted (s : String) : String := "\"" ++ s ++ "\""

/-- The shape and the colour of a node. -/
def style : NodeKind → String × String
  | .entry => ("box", "#a6e3a1")
  | .plain => ("box", "#89b4fa")
  | .branch => ("diamond", "#f9e2af")
  | .call => ("hexagon", "#cba6f7")
  | .return => ("box", "#f38ba8")

/-- The name of the method that a node belongs to. -/
def methodText (n : Node) : String := n.id.className ++ "." ++ n.id.methodName

/-- The source line as a second line of a label. -/
def lineText : Option UInt32 → String
  | none => ""
  | some line => "\\nline " ++ toString line.toNat

/-- The line that declares a node. -/
def nodeLine (n : Node) : String :=
  "        " ++ quoted n.id.label ++ " [label=" ++ quoted (escape n.label ++ lineText n.line) ++
    ", shape=" ++ (style n.kind).1 ++ ", style=filled, fillcolor=" ++ quoted (style n.kind).2 ++
    "];"

/-- The names of the methods in ascending order. -/
def methods (g : JoinedGraph) : List String :=
  ((g.nodes.map methodText).mergeSort (· ≤ ·)).eraseDups

/-- The names of the methods in order, each with its nodes. -/
def clusters (g : JoinedGraph) : List (String × List Node) :=
  (methods g).map fun m => (m, g.nodes.filter (methodText · = m))

/-- The lines of a cluster with its number. -/
def clusterLines (cluster : (String × List Node) × Nat) : List String :=
  ["    subgraph cluster_" ++ toString cluster.2 ++ " \x7b",
    "        label=" ++ quoted (escape cluster.1.1) ++ ";"] ++
  cluster.1.2.map nodeLine ++ ["    \x7d"]

/-- How an edge is drawn. -/
def edgeStyle : EdgeKind → String
  | .intra => "solid"
  | .call => "bold"
  | .return => "dashed"

/-- The line of an edge. -/
def edgeLine (e : Edge) : String :=
  "    " ++ quoted e.source.label ++ " -> " ++ quoted e.target.label ++
    " [style=" ++ edgeStyle e.kind ++ "];"

/-- What stands before the clusters. -/
def header : List String :=
  ["digraph InterProcedural \x7b",
    "    rankdir=TB;",
    "    node [fontname=\"Helvetica\", fontsize=11];",
    "    edge [fontname=\"Helvetica\", fontsize=9];",
    ""]

/-- The lines of a drawing. -/
def lines (g : JoinedGraph) : List String :=
  header ++ (clusters g).zipIdx.flatMap clusterLines ++ [""] ++ g.edges.map edgeLine ++ ["\x7d"]

end Dot

/-- The graph in the DOT language. -/
def JoinedGraph.dot (g : JoinedGraph) : String := "\n".intercalate (Dot.lines g)

end CrashSearch
