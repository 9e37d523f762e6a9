import CrashSearch.Ordered.Distinct
import CrashSearch.Proofs.DrawnTexts
import CrashSearch.Proofs.LineOwners

/-!
# The clusters of a drawing

A drawing groups the nodes of a graph by their methods. As long as no name has to be escaped, its
lines tell by how they begin what they are, so what the drawing holds can be read off its text:
which clusters there are, which nodes each of them declares, and which edges follow.

## Main definitions

* `Dot.part`: what a line of a drawing is.
* `Dot.DrawsEdge`: the line of an edge of each kind.
* `Dot.Clustered`: what the text of a drawing holds, with these methods.

## Main statements

* `Dot.declarations_perm`: the clusters declare each node, as often as it is there.
* `Dot.methodText_eq_of_nodeLine_eq`: a declaration tells which method its node is of.
* `JoinedGraph.existsUnique_clustered`: the text of a drawing holds what it should.
-/

namespace CrashSearch

namespace Dot

open Text (startsWith)

/-- What a line of a drawing is. -/
inductive Part where
  /-- The first line of a cluster. -/
  | opening
  /-- The name of a method. -/
  | title
  | declaration
  | edge
  | other
  deriving DecidableEq

/-- How a line begins tells what it is. -/
def part (line : List Char) : Part :=
  if startsWith line "    \"".toList then .edge
  else if startsWith line "    s".toList then .opening
  else if startsWith line "        \"".toList then .declaration
  else if startsWith line "        l".toList then .title
  else .other

theorem part_append {a : List Char} (h : 9 ≤ a.length) (b : List Char) :
    part (a ++ b) = part a := by
  have hshort {p : List Char} (hp : p.length ≤ 9) := Text.startsWith_append (Nat.le_trans hp h) b
  unfold part
  rw [hshort (by decide), hshort (by decide), hshort (by decide), hshort (by decide)]

theorem part_openingLine (k : Nat) : part (openingLine k).toList = .opening := by
  rw [toList_openingLine, part_append (by decide)]
  decide

theorem part_methodLine (m : String) : part (methodLine m).toList = .title := by
  rw [toList_methodLine, part_append (by decide)]
  decide

theorem part_nodeLine (n : Node) : part (nodeLine n).toList = .declaration := by
  rw [toList_nodeLine, List.append_cons, part_append (by decide)]
  decide

theorem part_edgeLine (e : Edge) : part (edgeLine e).toList = .edge := by
  rw [toList_edgeLine, List.append_cons]
  refine if_pos ?_
  rw [Text.startsWith_append (by decide)]
  decide

/-- The line draws the edge between the identifiers of its ends: solid inside a method, bold for a
call and dashed for a return. -/
inductive DrawsEdge : Edge → String → Prop
  | intra (source target : InstructionId) : DrawsEdge ⟨source, target, .intra⟩
      ("    \"" ++ source.label ++ "\" -> \"" ++ target.label ++ "\" [style=solid];")
  | call (source target : InstructionId) : DrawsEdge ⟨source, target, .call⟩
      ("    \"" ++ source.label ++ "\" -> \"" ++ target.label ++ "\" [style=bold];")
  | return (source target : InstructionId) : DrawsEdge ⟨source, target, .return⟩
      ("    \"" ++ source.label ++ "\" -> \"" ++ target.label ++ "\" [style=dashed];")

theorem edgeLine_eq (e : Edge) : edgeLine e =
    "    \"" ++ e.source.label ++ "\" -> \"" ++ e.target.label ++ "\" [style=" ++
      edgeStyle e.kind ++ "];" := by
  simp [edgeLine, quoted, ← String.toList_inj]

theorem drawsEdge_edgeLine (e : Edge) : DrawsEdge e (edgeLine e) := by
  rw [edgeLine_eq]
  rcases e with ⟨source, target, kind⟩
  cases kind with
  | intra => simpa [edgeStyle, String.append_assoc] using DrawsEdge.intra source target
  | call => simpa [edgeStyle, String.append_assoc] using DrawsEdge.call source target
  | «return» => simpa [edgeStyle, String.append_assoc] using DrawsEdge.return source target

/-! ## Clusters -/

variable {g : JoinedGraph}

/-- The lines that declare the nodes of a method, in the order of the graph. -/
def declarations (g : JoinedGraph) (m : String) : List String :=
  (g.nodes.filter (methodText · = m)).map nodeLine

/-- The lines of the cluster of a method with its number. -/
def methodCluster (g : JoinedGraph) (m : String × Nat) : List String :=
  [openingLine m.2, methodLine m.1] ++ declarations g m.1 ++ ["    \x7d"]

theorem lines_eq : lines g = header ++ (methods g).zipIdx.flatMap (methodCluster g) ++ [""] ++
    g.edges.map edgeLine ++ ["\x7d"] := by
  rw [lines, clusters, List.zipIdx_map, List.flatMap_map]
  rfl

theorem pairwise_methods : (methods g).Pairwise (· < ·) := by
  have hsorted : (methods g).Pairwise (· ≤ ·) :=
    (pairwise_mergeSort_names _).sublist (eraseDups_sublist _)
  have hdistinct : (methods g).Nodup := nodup_eraseDups _
  refine hsorted.imp₂ (fun a b hle hne => ?_) hdistinct
  exact String.not_le.1 fun hge => hne (String.le_antisymm hle hge)

/-- Nothing gets lost or doubled if a list is grouped by distinct keys. -/
theorem flatMap_filter_perm {α : Type} (key : α → String) {keys : List String}
    (hkeys : keys.Nodup) {l : List α} (hl : ∀ a ∈ l, key a ∈ keys) :
    (keys.flatMap fun k => l.filter (key · = k)).Perm l := by
  induction keys generalizing l with
  | nil =>
    have hnil : l = [] := List.eq_nil_iff_forall_not_mem.2 (by simpa using hl)
    rw [hnil, List.flatMap_nil]
  | cons k keys ih =>
    obtain ⟨hk, hkeys⟩ := List.nodup_cons.1 hkeys
    have hrest : (keys.flatMap fun k' => l.filter (key · = k')) =
        keys.flatMap fun k' => (l.filter (key · ≠ k)).filter (key · = k') := by
      refine List.flatMap_congr fun k' hk' => ?_
      rw [List.filter_filter]
      exact List.filter_congr (by grind)
    rw [List.flatMap_cons, hrest]
    refine (List.Perm.append_left _ (ih hkeys (by grind))).trans ?_
    simpa using List.filter_append_perm (key · = k) l

/-- There is one list only that has each method once and in order. -/
theorem methods_eq {l : List String} (hl : l.Pairwise (· < ·))
    (hmem : ∀ m, m ∈ l ↔ ∃ n ∈ g.nodes, methodText n = m) : methods g = l := by
  have hdistinct : l.Nodup := by
    refine hl.imp fun hlt => ?_
    rintro rfl
    exact String.lt_irrefl _ hlt
  have hperm : (methods g).Perm l := (List.perm_ext_iff_of_nodup (nodup_eraseDups _) hdistinct).2
    fun m => mem_methods_iff.trans (hmem m).symm
  refine hperm.eq_of_pairwise (fun a b _ _ hab hba => ?_) pairwise_methods hl
  exact absurd (String.lt_trans hab hba) (String.lt_irrefl a)

/-- The clusters declare every node of the graph, and none more often than it is there. -/
theorem declarations_perm : ((methods g).flatMap (declarations g)).Perm (g.nodes.map nodeLine) := by
  have hperm := flatMap_filter_perm methodText (nodup_eraseDups _ : (methods g).Nodup)
    (l := g.nodes) fun n hn => mem_methods_iff.2 ⟨n, hn, rfl⟩
  have hmap := hperm.map nodeLine
  rwa [List.map_flatMap] at hmap

/-! ## Lines of one kind -/

theorem filter_part {p q : Part} {l : List String} (h : ∀ line ∈ l, part line.toList = q) :
    l.filter (part ·.toList = p) = if q = p then l else [] := by
  split
  · exact List.filter_eq_self.2 (by simp_all)
  · exact List.filter_eq_nil_iff.2 (by simp_all)

/-- What is left of the lines of a cluster if only those of one kind stay. -/
theorem filter_methodCluster (p : Part) (m : String × Nat) :
    (methodCluster g m).filter (part ·.toList = p) =
      match p with
      | .opening => [openingLine m.2]
      | .title => [methodLine m.1]
      | .declaration => declarations g m.1
      | .edge => []
      | .other => ["    \x7d"] := by
  have hdeclarations : ∀ line ∈ declarations g m.1, part line.toList = .declaration := by
    rintro _ hline
    obtain ⟨n, -, rfl⟩ := List.mem_map.1 hline
    exact part_nodeLine n
  have hclosing : ∀ line ∈ ["    \x7d"], part line.toList = .other := by decide
  rw [methodCluster, List.filter_append, List.filter_append, filter_part hdeclarations,
    filter_part hclosing]
  cases p <;> simp [part_openingLine, part_methodLine]

theorem filter_lines {p : Part} (hp : p ≠ .other) : (lines g).filter (part ·.toList = p) =
    ((methods g).zipIdx.flatMap fun m => (methodCluster g m).filter (part ·.toList = p)) ++
      if .edge = p then g.edges.map edgeLine else [] := by
  have hedges : ∀ line ∈ g.edges.map edgeLine, part line.toList = .edge := by
    intro _ hline
    obtain ⟨e, -, rfl⟩ := List.mem_map.1 hline
    exact part_edgeLine e
  have hheader : ∀ line ∈ header, part line.toList = .other := by decide
  have hempty : ∀ line ∈ [""], part line.toList = .other := by decide
  have hclosing : ∀ line ∈ ["\x7d"], part line.toList = .other := by decide
  rw [lines_eq]
  simp only [List.filter_append, filter_part hedges, filter_part hheader, filter_part hempty,
    filter_part hclosing, if_neg hp.symm, List.filter_flatMap, List.nil_append, List.append_nil]

theorem filter_lines_of_cluster {p : Part} (hother : p ≠ .other) (hedge : p ≠ .edge) :
    (lines g).filter (part ·.toList = p) =
      (methods g).zipIdx.flatMap fun m => (methodCluster g m).filter (part ·.toList = p) := by
  rw [filter_lines hother, if_neg hedge.symm, List.append_nil]

theorem filter_lines_opening : (lines g).filter (part ·.toList = .opening) =
    (List.range (methods g).length).map openingLine := by
  rw [filter_lines_of_cluster (by decide) (by decide), List.range_eq_range',
    ← List.zipIdx_map_snd 0 (methods g), List.map_map, List.map_eq_flatMap]
  simp only [filter_methodCluster]
  rfl

theorem filter_lines_title : (lines g).filter (part ·.toList = .title) =
    (methods g).map methodLine := by
  rw [filter_lines_of_cluster (by decide) (by decide)]
  conv_rhs => rw [← List.zipIdx_map_fst 0 (methods g), List.map_map, List.map_eq_flatMap]
  simp only [filter_methodCluster]
  rfl

theorem filter_lines_declaration : (lines g).filter (part ·.toList = .declaration) =
    (methods g).flatMap (declarations g) := by
  rw [filter_lines_of_cluster (by decide) (by decide)]
  conv_rhs => rw [← List.zipIdx_map_fst 0 (methods g), List.flatMap_map]
  simp only [filter_methodCluster]

theorem filter_lines_edge : (lines g).filter (part ·.toList = .edge) = g.edges.map edgeLine := by
  rw [filter_lines (by decide)]
  simp [filter_methodCluster]

/-! ## Declarations -/

/-- Where an identifier is read back from its line, the line tells which method it is of. -/
theorem methodText_eq_of_nodeLine_eq {n n' : Node} (hn : n.id.Bare) (hn' : n'.id.Bare)
    (h : nodeLine n = nodeLine n') : methodText n = methodText n' := by
  have hlabel : n.id.label.toList = n'.id.label.toList := by
    have htexts := (quotes_nodeLine_iff.2 hn).texts?_eq
    rw [h, (quotes_nodeLine_iff.2 hn').texts?_eq] at htexts
    exact (List.cons_eq_cons.1 (Option.some.inj htexts)).1.symm
  have hcut (n : Node) : Text.cutLast '#' n.id.label.toList =
      some ((methodText n).toList, (toString n.id.index.toNat).toList) := by
    have htext : n.id.label.toList =
        (methodText n).toList ++ '#' :: (toString n.id.index.toNat).toList := by
      simp [InstructionId.label, methodText]
    rw [htext, Text.cutLast_append _ (notMem_digits rfl _)]
  have hcuts := hcut n
  rw [hlabel, hcut n', Option.some_inj, Prod.mk.injEq, String.toList_inj] at hcuts
  exact hcuts.1.symm

/-! ## The whole text -/

/-- The lines of a text. -/
def textLines (text : String) : List String := (Text.lines text.toList).map String.ofList

/-- What the text of a drawing holds: a cluster for each of these methods and then the edges. -/
structure Clustered (g : JoinedGraph) (methods : List String) : Prop where
  ascending : methods.Pairwise (· < ·)
  mem_iff : ∀ m, m ∈ methods ↔ ∃ n ∈ g.nodes, methodText n = m
  lines_eq : textLines g.dot = header ++ methods.zipIdx.flatMap (methodCluster g) ++ [""] ++
    g.edges.map edgeLine ++ ["\x7d"]
  openings_eq : (textLines g.dot).filter (part ·.toList = .opening) =
    (List.range methods.length).map openingLine
  titles_eq : (textLines g.dot).filter (part ·.toList = .title) = methods.map methodLine
  declarations_eq : (textLines g.dot).filter (part ·.toList = .declaration) =
    methods.flatMap (declarations g)
  declarations_perm : (methods.flatMap (declarations g)).Perm (g.nodes.map nodeLine)
  own : ∀ n ∈ g.nodes, part (nodeLine n).toList = .declaration ∧
    ∀ m, nodeLine n ∈ declarations g m ↔ methodText n = m
  edges_eq : (textLines g.dot).filter (part ·.toList = .edge) = g.edges.map edgeLine
  edges_drawn : List.Forall₂ DrawsEdge g.edges
    ((textLines g.dot).filter (part ·.toList = .edge))

theorem textLines_dot (hnodes : ∀ n ∈ g.nodes, n.id.Bare)
    (hedges : ∀ e ∈ g.edges, e.source.Bare ∧ e.target.Bare) : textLines g.dot = lines g := by
  have honeLine : ∀ line ∈ lines g, '\n' ∉ line.toList := by
    rw [← map_fst_drawn]
    exact List.forall_mem_map.2 fun d hd => (quotes_drawn_iff.2 ⟨hnodes, hedges⟩ d hd).oneLine
  rw [textLines, JoinedGraph.dot, lines_intercalate_of_oneLine (by simp [lines]) honeLine,
    List.map_map]
  simp [Function.comp_def]

theorem nodeLine_mem_declarations_iff (hnodes : ∀ n ∈ g.nodes, n.id.Bare) {n : Node}
    (hn : n ∈ g.nodes) (m : String) : nodeLine n ∈ declarations g m ↔ methodText n = m := by
  constructor
  · intro h
    obtain ⟨n', hn', heq⟩ := List.mem_map.1 h
    obtain ⟨hmem, hm⟩ := List.mem_filter.1 hn'
    exact (methodText_eq_of_nodeLine_eq (hnodes n hn) (hnodes n' hmem) heq.symm).trans
      (of_decide_eq_true hm)
  · rintro rfl
    exact List.mem_map_of_mem (List.mem_filter.2 ⟨hn, decide_eq_true rfl⟩)

end Dot

/-- No name of the instruction has a quote, a backslash or a line break in it. -/
def InstructionId.Simple (i : InstructionId) : Prop :=
  ∀ name ∈ [i.className, i.methodName],
    '"' ∉ name.toList ∧ '\\' ∉ name.toList ∧ '\n' ∉ name.toList
  deriving Decidable

theorem InstructionId.Simple.bare {i : InstructionId} (h : i.Simple) : i.Bare := by
  have hbare (name : String) (hname : name ∈ [i.className, i.methodName]) :
      Dot.Bare name.toList := by
    obtain ⟨hquote, hback, hnewline⟩ := h name hname
    exact ⟨Dot.verbatim_of_notMem hquote hback, hnewline⟩
  exact ⟨hbare _ (by simp), hbare _ (by simp)⟩

namespace JoinedGraph

open Dot

/-- The text of a drawing has one cluster for each method of the nodes, numbered in the order of
their names. A node is declared in the cluster of its method and in no other, as often as it is in
the graph and in the order of the graph. Behind the clusters comes one line for each edge, in the
order of the graph and in the style of its kind. -/
theorem existsUnique_clustered {g : JoinedGraph} (hnodes : ∀ n ∈ g.nodes, n.id.Simple)
    (hedges : ∀ e ∈ g.edges, e.source.Simple ∧ e.target.Simple) :
    ∃! methods : List String, Clustered g methods := by
  have hbare : ∀ n ∈ g.nodes, n.id.Bare := fun n hn => (hnodes n hn).bare
  have hlines : textLines g.dot = lines g :=
    textLines_dot hbare fun e he => ⟨(hedges e he).1.bare, (hedges e he).2.bare⟩
  have hclustered : Clustered g (methods g) := {
    ascending := pairwise_methods
    mem_iff := fun _ => mem_methods_iff
    lines_eq := hlines.trans lines_eq
    openings_eq := hlines ▸ filter_lines_opening
    titles_eq := hlines ▸ filter_lines_title
    declarations_eq := hlines ▸ filter_lines_declaration
    declarations_perm := declarations_perm
    own := fun n hn => ⟨part_nodeLine n, nodeLine_mem_declarations_iff hbare hn⟩
    edges_eq := hlines ▸ filter_lines_edge
    edges_drawn := by
      rw [hlines, filter_lines_edge, List.forall₂_map_right_iff]
      exact List.forall₂_same.2 fun e _ => drawsEdge_edgeLine e }
  exact ⟨methods g, hclustered, fun l hl => (methods_eq hl.ascending hl.mem_iff).symm⟩

/-- Two methods whose nodes take turns: the first one calls the second, which returns to where the
call goes on. -/
def turns : JoinedGraph where
  nodes := [⟨⟨"B", "run", 0⟩, "run#0", .entry, some 4⟩, ⟨⟨"A", "run", 0⟩, "run#0", .entry, none⟩,
    ⟨⟨"B", "run", 1⟩, "run#1", .return, none⟩]
  edges := [⟨⟨"B", "run", 0⟩, ⟨"B", "run", 1⟩, .intra⟩, ⟨⟨"B", "run", 0⟩, ⟨"A", "run", 0⟩, .call⟩,
    ⟨⟨"A", "run", 0⟩, ⟨"B", "run", 1⟩, .return⟩]

/-- The declarations are grouped by methods, and both of one method stay in their order. The edges
follow, one of each kind. -/
theorem turns_clustered :
    ((∀ n ∈ turns.nodes, n.id.Simple) ∧ ∀ e ∈ turns.edges, e.source.Simple ∧ e.target.Simple) ∧
      Clustered turns ["A.run", "B.run"] ∧
      (textLines turns.dot).filter (part ·.toList = .declaration) =
        [1, 0, 2].filterMap (fun i => turns.nodes[i]?.map nodeLine) ∧
      textLines turns.dot = header ++
        ["    subgraph cluster_0 \x7b",
          "        label=\"A.run\";",
          "        \"A.run#0\" [label=\"run#0\", shape=box, style=filled, " ++
            "fillcolor=\"#a6e3a1\"];",
          "    \x7d",
          "    subgraph cluster_1 \x7b",
          "        label=\"B.run\";",
          "        \"B.run#0\" [label=\"run#0\\nline 4\", shape=box, style=filled, " ++
            "fillcolor=\"#a6e3a1\"];",
          "        \"B.run#1\" [label=\"run#1\", shape=box, style=filled, " ++
            "fillcolor=\"#f38ba8\"];",
          "    \x7d",
          "",
          "    \"B.run#0\" -> \"B.run#1\" [style=solid];",
          "    \"B.run#0\" -> \"A.run#0\" [style=bold];",
          "    \"A.run#0\" -> \"B.run#1\" [style=dashed];",
          "\x7d"] := by
  have hnodes : ∀ n ∈ turns.nodes, n.id.Simple := by decide
  have hedges : ∀ e ∈ turns.edges, e.source.Simple ∧ e.target.Simple := by decide
  obtain ⟨l, hclustered, -⟩ := existsUnique_clustered hnodes hedges
  obtain rfl : l = ["A.run", "B.run"] := by
    rw [← methods_eq hclustered.ascending hclustered.mem_iff]
    refine methods_eq (by decide) fun m => ?_
    have hnames : turns.nodes.map methodText = ["B.run", "A.run", "B.run"] := by decide
    rw [← List.mem_map, hnames]
    grind
  exact ⟨⟨hnodes, hedges⟩, hclustered, hclustered.declarations_eq,
    hclustered.lines_eq.trans (by decide)⟩

end JoinedGraph

end CrashSearch
