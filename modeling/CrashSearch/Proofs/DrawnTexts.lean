import CrashSearch.Proofs.QuotedTexts
import CrashSearch.Text.Cut

/-!
# The texts of a drawing

Each line of a drawing is to quote some texts: the names of its methods, the identifiers and labels
of its nodes, the ends of its edges. Labels and the names of methods are escaped, identifiers are
not, so a drawing is read as it is meant just if no identifier needs to be escaped.

## Main definitions

* `Dot.textsOf`: the texts that a drawing is to quote, line by line.
* `Dot.Spells`: the lines of a text quote these texts.

## Main statements

* `Dot.quotes_nodeLine_iff`, `Dot.quotes_edgeLine_iff`: when one line quotes what it is to quote.
* `JoinedGraph.dot_spells_iff`: when a whole drawing does, and what is sure in any drawing.
-/

namespace CrashSearch

namespace InstructionId

/-- The names of the instruction stand in quotes as they are. -/
def Bare (i : InstructionId) : Prop := Dot.Bare i.className.toList ∧ Dot.Bare i.methodName.toList

variable {i : InstructionId}

theorem toList_label : i.label.toList = i.className.toList ++ '.' ::
    (i.methodName.toList ++ '#' :: (toString i.index.toNat).toList) := by
  simp [label]

theorem bare_label_iff : Dot.Bare i.label.toList ↔ i.Bare := by
  rw [toList_label, Dot.bare_append_cons_iff (by decide), Dot.bare_append_cons_iff (by decide),
    Bare, and_iff_left (Dot.bare_digits _)]

theorem notMem_getLast?_label : '\\' ∉ i.label.toList.getLast? := by
  have hdigits : '\\' ∉ (toString i.index.toNat).toList := Dot.notMem_digits rfl _
  rw [toList_label]
  grind

end InstructionId

namespace Dot

/-! ## Lines -/

/-- The text is one line and quotes these texts. -/
def Quotes (line : String) (texts : List String) : Prop :=
  Reads line.toList (texts.map String.toList)

/-- The source line as a second line of a label. -/
def secondLine : Option UInt32 → String
  | none => ""
  | some line => "\nline " ++ toString line.toNat

theorem escape_append (a b : String) : escape (a ++ b) = escape a ++ escape b := by
  simp [escape]

/-- The line break between a label and its line is written like any other in a label. -/
theorem escape_secondLine (line : Option UInt32) : escape (secondLine line) = lineText line := by
  cases line with
  | none => rfl
  | some line =>
    have hdigits : escape (toString line.toNat) = toString line.toNat := by
      have hback := notMem_digits (c := '\\') rfl line.toNat
      have hquote := notMem_digits (c := '"') rfl line.toNat
      have hnewline := notMem_digits (c := '\n') rfl line.toNat
      rw [escape, ← String.toList_inj, String.toList_ofList]
      conv_rhs => rw [← List.flatMap_singleton' (toString line.toNat).toList]
      refine List.flatMap_congr fun c hc => ?_
      grind
    rw [secondLine, escape_append, hdigits]
    rfl

/-- The texts that the declaration of a node is to quote. -/
def nodeTexts (n : Node) : List String :=
  [n.id.label, n.label ++ secondLine n.line, (style n.kind).2]

/-- The texts that the line of an edge is to quote. -/
def edgeTexts (e : Edge) : List String := [e.source.label, e.target.label]

/-- The first line of the cluster with a number. -/
def openingLine (k : Nat) : String := "    subgraph cluster_" ++ toString k ++ " \x7b"

/-- The line with the name of a method. -/
def methodLine (m : String) : String := "        label=" ++ quoted (escape m) ++ ";"

theorem toList_quoted (s : String) : (quoted s).toList = '"' :: (s.toList ++ ['"']) := by
  simp [quoted]

theorem toList_openingLine (k : Nat) : (openingLine k).toList =
    "    subgraph cluster_".toList ++ ((toString k).toList ++ " \x7b".toList) := by
  unfold openingLine
  rw [String.toList_append, String.toList_append, List.append_assoc]

theorem toList_methodLine (m : String) : (methodLine m).toList =
    "        label=".toList ++ '"' :: ((escape m).toList ++ '"' :: ";".toList) := by
  unfold methodLine
  simp only [String.toList_append, toList_quoted, List.cons_append, List.append_assoc,
    List.nil_append]

theorem toList_nodeLine (n : Node) : (nodeLine n).toList =
    "        ".toList ++ '"' :: (n.id.label.toList ++ '"' ::
      (" [label=".toList ++ '"' :: ((escape (n.label ++ secondLine n.line)).toList ++ '"' ::
        ((", shape=" ++ (style n.kind).1 ++ ", style=filled, fillcolor=").toList ++ '"' ::
          ((style n.kind).2.toList ++ '"' :: "];".toList))))) := by
  unfold nodeLine
  simp only [String.toList_append, toList_quoted, escape_append, escape_secondLine,
    List.cons_append, List.append_assoc, List.nil_append]

theorem toList_edgeLine (e : Edge) : (edgeLine e).toList =
    "    ".toList ++ '"' :: (e.source.label.toList ++ '"' ::
      (" -> ".toList ++ '"' :: (e.target.label.toList ++ '"' ::
        (" [style=" ++ edgeStyle e.kind ++ "];").toList))) := by
  unfold edgeLine
  simp only [String.toList_append, toList_quoted, List.cons_append, List.append_assoc,
    List.nil_append]

theorem quotes_openingLine (k : Nat) : Quotes (openingLine k) [] := by
  have hdigits : Plain (toString k).toList := ⟨notMem_digits rfl k, notMem_digits rfl k⟩
  rw [Quotes, toList_openingLine, reads_append_iff (by decide), reads_append_iff hdigits]
  exact reads_of_plain (by decide)

theorem quotes_methodLine (m : String) : Quotes (methodLine m) [m] := by
  rw [Quotes, toList_methodLine, reads_append_iff (by decide), List.map_singleton, reads_escape_iff]
  exact reads_of_plain (by decide)

/-- All but the identifier of a node is escaped where it has to be. -/
theorem quotes_nodeLine_iff {n : Node} : Quotes (nodeLine n) (nodeTexts n) ↔ n.id.Bare := by
  have hshape : Plain (", shape=" ++ (style n.kind).1 ++ ", style=filled, fillcolor=").toList := by
    cases n.kind <;> decide
  have hcolor : Bare (style n.kind).2.toList ∧ '\\' ∉ (style n.kind).2.toList.getLast? := by
    cases n.kind <;> exact ⟨⟨verbatim_of_notMem (by decide) (by decide), by decide⟩, by decide⟩
  simp only [Quotes, toList_nodeLine, nodeTexts, List.map_cons, List.map_nil]
  rw [reads_append_iff (by decide), reads_quote_iff InstructionId.notMem_getLast?_label,
    InstructionId.bare_label_iff, reads_append_iff (by decide), reads_escape_iff,
    reads_append_iff hshape, reads_quote_iff hcolor.2]
  exact and_iff_left ⟨hcolor.1, reads_of_plain (by decide)⟩

theorem quotes_edgeLine_iff {e : Edge} : Quotes (edgeLine e) (edgeTexts e) ↔
    e.source.Bare ∧ e.target.Bare := by
  have hstyle : Plain (" [style=" ++ edgeStyle e.kind ++ "];").toList := by
    cases e.kind <;> decide
  simp only [Quotes, toList_edgeLine, edgeTexts, List.map_cons, List.map_nil]
  rw [reads_append_iff (by decide), reads_quote_iff InstructionId.notMem_getLast?_label,
    InstructionId.bare_label_iff, reads_append_iff (by decide),
    reads_quote_iff InstructionId.notMem_getLast?_label, InstructionId.bare_label_iff,
    and_iff_left (reads_of_plain hstyle)]

/-! ## Texts -/

/-- The lines of the text quote these texts, each its own. -/
def Spells (text : String) (meant : List (List String)) : Prop :=
  (Text.lines text.toList).map texts? = meant.map fun texts => some (texts.map String.toList)

theorem lines_intercalate_lines {l : List String} (h : l ≠ []) :
    Text.lines ("\n".intercalate l).toList = l.flatMap fun line => Text.lines line.toList := by
  rw [String.toList_intercalate, show "\n".toList = ['\n'] from rfl,
    Text.lines_intercalate (by simpa using h), List.flatMap_map]

theorem lines_intercalate_of_oneLine {l : List String} (h : l ≠ [])
    (honeLine : ∀ line ∈ l, '\n' ∉ line.toList) :
    Text.lines ("\n".intercalate l).toList = l.map String.toList := by
  rw [lines_intercalate_lines h, List.map_eq_flatMap]
  exact List.flatMap_congr fun line hline => Text.lines_eq_singleton (honeLine line hline)

theorem spells_intercalate_iff {drawn : List (String × List String)} (h : drawn ≠ []) :
    Spells ("\n".intercalate (drawn.map (·.1))) (drawn.map (·.2)) ↔
      ∀ d ∈ drawn, Quotes d.1 d.2 := by
  have hlines (honeLine : ∀ d ∈ drawn, '\n' ∉ d.1.toList) :
      Text.lines ("\n".intercalate (drawn.map (·.1))).toList = drawn.map (·.1.toList) := by
    rw [lines_intercalate_of_oneLine (by simpa) (List.forall_mem_map.2 honeLine), List.map_map]
    rfl
  have hreads : drawn.map (fun d => texts? d.1.toList) =
      drawn.map (fun d => some (d.2.map String.toList)) ↔
        ∀ d ∈ drawn, texts? d.1.toList = some (d.2.map String.toList) :=
    List.map_inj_left
  constructor
  · intro hspells
    have hlength : ((drawn.map (·.1.toList)).flatMap Text.lines).length =
        (drawn.map (·.1.toList)).length := by
      have hlength := congrArg List.length hspells
      rw [lines_intercalate_lines (by simpa)] at hlength
      simpa [List.flatMap_map] using hlength
    have honeLine : ∀ d ∈ drawn, '\n' ∉ d.1.toList := fun d hd =>
      Text.not_mem_of_length_flatMap_lines hlength _ (List.mem_map_of_mem hd)
    rw [Spells, hlines honeLine, List.map_map, List.map_map] at hspells
    exact fun d hd => ⟨honeLine d hd, hreads.1 hspells d hd⟩
  · intro hquotes
    rw [Spells, hlines fun d hd => (hquotes d hd).oneLine, List.map_map, List.map_map]
    exact hreads.2 fun d hd => (hquotes d hd).texts?_eq

/-- The texts that a cluster is to quote, line by line. -/
def clusterTexts (cluster : String × List Node) : List (List String) :=
  [[], [cluster.1]] ++ cluster.2.map nodeTexts ++ [[]]

/-- The texts that a drawing is to quote, line by line. -/
def textsOf (g : JoinedGraph) : List (List String) :=
  [[], [], ["Helvetica"], ["Helvetica"], []] ++ (clusters g).flatMap clusterTexts ++ [[]] ++
    g.edges.map edgeTexts ++ [[]]

/-- The lines of a cluster with the texts that they are to quote. -/
def drawnCluster (cluster : (String × List Node) × Nat) : List (String × List String) :=
  [(openingLine cluster.2, []), (methodLine cluster.1.1, [cluster.1.1])] ++
    cluster.1.2.map (fun n => (nodeLine n, nodeTexts n)) ++ [("    \x7d", [])]

/-- The lines of a drawing with the texts that they are to quote. -/
def drawn (g : JoinedGraph) : List (String × List String) :=
  header.zip [[], [], ["Helvetica"], ["Helvetica"], []] ++
    (clusters g).zipIdx.flatMap drawnCluster ++ [("", [])] ++
    g.edges.map (fun e => (edgeLine e, edgeTexts e)) ++ [("\x7d", [])]

variable {g : JoinedGraph}

theorem map_fst_drawn : (drawn g).map (·.1) = lines g := by
  have hcluster (cluster : (String × List Node) × Nat) :
      (drawnCluster cluster).map (·.1) = clusterLines cluster := by
    simp only [drawnCluster, List.map_append, List.map_map]
    rfl
  simp only [drawn, List.map_append, List.map_flatMap, hcluster, List.map_map]
  rfl

theorem map_snd_drawn : (drawn g).map (·.2) = textsOf g := by
  have hcluster (cluster : (String × List Node) × Nat) :
      (drawnCluster cluster).map (·.2) = clusterTexts cluster.1 := by
    simp only [drawnCluster, List.map_append, List.map_map]
    rfl
  have hclusters : (clusters g).zipIdx.flatMap (fun cluster => clusterTexts cluster.1) =
      (clusters g).flatMap clusterTexts := by
    rw [← List.flatMap_map, List.zipIdx_map_fst]
  simp only [drawn, List.map_append, List.map_flatMap, hcluster, hclusters, List.map_map]
  rfl

theorem mem_methods_iff {m : String} : m ∈ methods g ↔ ∃ n ∈ g.nodes, methodText n = m := by
  simp [methods]

theorem mem_nodes_of_mem_clusters {cluster : String × List Node} {n : Node}
    (hcluster : cluster ∈ clusters g) (hn : n ∈ cluster.2) : n ∈ g.nodes := by
  obtain ⟨m, -, rfl⟩ := List.mem_map.1 hcluster
  exact List.mem_of_mem_filter hn

theorem quotes_header :
    ∀ d ∈ header.zip [[], [], ["Helvetica"], ["Helvetica"], []], Quotes d.1 d.2 := by
  have hreads {line : List Char} {texts : List (List Char)}
      (h : '\n' ∉ line ∧ texts? line = some texts) : Reads line texts := ⟨h.1, h.2⟩
  simp only [header, List.zip_cons_cons, List.zip_nil_left, List.forall_mem_cons]
  exact ⟨hreads (by decide), hreads (by decide), hreads (by decide), hreads (by decide),
    hreads (by decide), by simp⟩

/-- The lines of the cluster of a method are drawn, with some number. -/
theorem exists_drawnCluster_subset {m : String} (hm : m ∈ methods g) :
    ∃ k, drawnCluster ((m, g.nodes.filter (methodText · = m)), k) ⊆ drawn g := by
  have hcluster : (m, g.nodes.filter (methodText · = m)) ∈ (clusters g).zipIdx.map (·.1) := by
    rw [List.zipIdx_map_fst]
    exact List.mem_map_of_mem hm
  obtain ⟨⟨_, k⟩, hk, rfl⟩ := List.mem_map.1 hcluster
  refine ⟨k, fun d hd => ?_⟩
  simp only [drawn, List.mem_append, List.mem_flatMap]
  exact .inl (.inl (.inl (.inr ⟨_, hk, hd⟩)))

theorem methodLine_mem_drawn {m : String} (hm : m ∈ methods g) : (methodLine m, [m]) ∈ drawn g := by
  obtain ⟨k, hk⟩ := exists_drawnCluster_subset hm
  exact hk (by simp [drawnCluster])

theorem nodeLine_mem_drawn {n : Node} (hn : n ∈ g.nodes) : (nodeLine n, nodeTexts n) ∈ drawn g := by
  obtain ⟨k, hk⟩ := exists_drawnCluster_subset (mem_methods_iff.2 ⟨n, hn, rfl⟩)
  refine hk ?_
  simp only [drawnCluster, List.mem_append, List.mem_map]
  exact .inl (.inr ⟨n, List.mem_filter.2 ⟨hn, decide_eq_true rfl⟩, rfl⟩)

theorem edgeLine_mem_drawn {e : Edge} (he : e ∈ g.edges) : (edgeLine e, edgeTexts e) ∈ drawn g := by
  simp only [drawn, List.mem_append, List.mem_map]
  exact .inl (.inr ⟨e, he, rfl⟩)

/-- Nothing but nodes and edges is drawn in lines that depend on how names are spelled. -/
theorem mem_drawn {d : String × List String} (hd : d ∈ drawn g) : Quotes d.1 d.2 ∨
    (∃ n ∈ g.nodes, d = (nodeLine n, nodeTexts n)) ∨
      ∃ e ∈ g.edges, d = (edgeLine e, edgeTexts e) := by
  simp only [drawn, List.mem_append, List.mem_flatMap, List.mem_map, List.mem_singleton] at hd
  rcases hd with (((hd | ⟨⟨⟨m, nodes⟩, k⟩, hcluster, hd⟩) | rfl) | ⟨e, he, rfl⟩) | rfl
  · exact .inl (quotes_header d hd)
  · simp only [drawnCluster, List.mem_append, List.mem_cons, List.mem_map, List.not_mem_nil,
      or_false] at hd
    rcases hd with ((rfl | rfl) | ⟨n, hn, rfl⟩) | rfl
    · exact .inl (quotes_openingLine k)
    · exact .inl (quotes_methodLine m)
    · exact .inr (.inl ⟨n, mem_nodes_of_mem_clusters (List.fst_mem_of_mem_zipIdx hcluster) hn, rfl⟩)
    · exact .inl (reads_of_plain (by decide))
  · exact .inl (reads_of_plain (by decide))
  · exact .inr (.inr ⟨e, he, rfl⟩)
  · exact .inl (reads_of_plain (by decide))

theorem quotes_drawn_iff : (∀ d ∈ drawn g, Quotes d.1 d.2) ↔
    (∀ n ∈ g.nodes, n.id.Bare) ∧ ∀ e ∈ g.edges, e.source.Bare ∧ e.target.Bare := by
  constructor
  · intro h
    refine ⟨fun n hn => ?_, fun e he => ?_⟩
    · have hquotes := h _ (nodeLine_mem_drawn hn)
      exact quotes_nodeLine_iff.1 hquotes
    · have hquotes := h _ (edgeLine_mem_drawn he)
      exact quotes_edgeLine_iff.1 hquotes
  · rintro ⟨hnodes, hedges⟩ d hd
    rcases mem_drawn hd with hquotes | ⟨n, hn, rfl⟩ | ⟨e, he, rfl⟩
    · exact hquotes
    · exact quotes_nodeLine_iff.2 (hnodes n hn)
    · exact quotes_edgeLine_iff.2 (hedges e he)

end Dot

namespace JoinedGraph

open Dot

/-- A drawing is read as it is meant, line by line, just if the identifiers of its nodes and the
ends of its edges stand in quotes as they are. In any drawing the names of the methods are read as
they are meant, and so are the lines of those nodes and edges whose identifiers need no escape. -/
theorem dot_spells_iff (g : JoinedGraph) :
    (Spells g.dot (textsOf g) ↔
      (∀ n ∈ g.nodes, n.id.Bare) ∧ ∀ e ∈ g.edges, e.source.Bare ∧ e.target.Bare) ∧
    (∀ m ∈ methods g, (methodLine m).toList ∈ Text.lines g.dot.toList ∧
      Quotes (methodLine m) [m]) ∧
    (∀ n ∈ g.nodes, (nodeLine n).toList ∈ Text.lines g.dot.toList ∧
      Quotes (nodeLine n) (nodeTexts n) ↔ n.id.Bare) ∧
    ∀ e ∈ g.edges, (edgeLine e).toList ∈ Text.lines g.dot.toList ∧
      Quotes (edgeLine e) (edgeTexts e) ↔ e.source.Bare ∧ e.target.Bare := by
  have hline {line : String} {texts : List String} (hd : (line, texts) ∈ drawn g)
      (hquotes : Quotes line texts) : line.toList ∈ Text.lines g.dot.toList := by
    rw [dot, lines_intercalate_lines (by simp [lines]), ← map_fst_drawn]
    refine List.mem_flatMap.2 ⟨line, List.mem_map_of_mem hd, ?_⟩
    rw [Text.lines_eq_singleton hquotes.oneLine]
    exact List.mem_singleton_self _
  refine ⟨?_, fun m hm => ?_, fun n hn => ?_, fun e he => ?_⟩
  · rw [dot, ← map_fst_drawn, ← map_snd_drawn, spells_intercalate_iff (by simp [drawn]),
      quotes_drawn_iff]
  · exact ⟨hline (methodLine_mem_drawn hm) (quotes_methodLine m), quotes_methodLine m⟩
  · rw [← quotes_nodeLine_iff]
    exact and_iff_right_of_imp (hline (nodeLine_mem_drawn hn))
  · rw [← quotes_edgeLine_iff]
    exact and_iff_right_of_imp (hline (edgeLine_mem_drawn he))

/-- A class whose name has a quote in it, with a method of two instructions. -/
def quoteGraph : JoinedGraph :=
  ofGraphs [FlowGraph.make "A\"B" "m" [⟨0, none, .plain⟩, ⟨1, none, .return⟩]]

/-- Its identifiers end at the quote in the name, so what is read is not what is meant. -/
theorem not_spells_quoteGraph : ¬ Spells quoteGraph.dot (textsOf quoteGraph) := by
  rw [dot, ← map_fst_drawn, ← map_snd_drawn, spells_intercalate_iff (by simp [drawn]),
    quotes_drawn_iff]
  rintro ⟨hnodes, -⟩
  have hbare := hnodes ⟨⟨"A\"B", "m", 0⟩, "m#0", .entry, none⟩ (by decide)
  exact hbare.1.verbatim.noQuote (by decide)

end JoinedGraph

end CrashSearch
