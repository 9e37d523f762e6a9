import CrashSearch.Proofs.ClassGraphs
import CrashSearch.Proofs.Gathering

/-!
# The graph of the nearest declaration

Which graph runs at a call of a method is decided by the nearest class of the lineage that declares
it and by what the program has for that class. A search finds exactly the graphs that run for the
methods reached.

## Main definitions

* `RunsAs`: a graph runs at a call of a method.
* `closureIn`: the graphs that run for the methods reached from one.

## Main statements

* `Scope.mem_reach_iff`: a search that succeeds finds the closure of its method.
* `callsIn_of_mem_children`: the calls in the class of a graph that runs are those of the lineage.
-/

namespace CrashSearch

/-- `g` is the graph that the program has for the nearest declaration of `x` in a lineage. -/
def RunsAs (lineage : List CallGraph) (p : Program) (x : String) (g : FlowGraph) : Prop :=
  ∃ calls, lineage.find? (·.declares x) = some calls ∧ p.graph? calls.className x = some g

/-- The graphs that run for the methods reached from `m`. -/
def closureIn (lineage : List CallGraph) (p : Program) (m : String) : Set FlowGraph :=
  {g | ∃ x, ReachesIn lineage m x ∧ RunsAs lineage p x g}

theorem Program.key_of_graph? {p : Program} {className m : String} {g : FlowGraph}
    (h : p.graph? className m = some g) : g.key = (className, m) := by
  have hname := List.find?_some h
  simp only [decide_eq_true_eq] at hname
  exact Prod.ext hname.1 hname.2

namespace RunsAs

variable {lineage : List CallGraph} {p : Program} {x : String} {f g : FlowGraph}

theorem unique (hf : RunsAs lineage p x f) (hg : RunsAs lineage p x g) : f = g := by
  obtain ⟨calls, hd, hf⟩ := hf
  obtain ⟨calls', hd', hg⟩ := hg
  obtain rfl : calls = calls' := Option.some.inj (hd.symm.trans hd')
  exact Option.some.inj (hf.symm.trans hg)

theorem methodName_eq (h : RunsAs lineage p x g) : g.methodName = x := by
  obtain ⟨calls, -, hg⟩ := h
  exact congrArg Prod.snd (Program.key_of_graph? hg)

theorem has (h : RunsAs lineage p x g) : p.Has g := by
  obtain ⟨calls, -, hg⟩ := h
  obtain ⟨hc, hm⟩ := Prod.mk.inj (Program.key_of_graph? hg)
  rw [Program.Has, hc, hm, hg]

end RunsAs

namespace Scope

variable {s : Scope} {m x : String} {g : FlowGraph} {found : List FlowGraph}

theorem exists_lookup_iff :
    (∃ calls, s.lookup x = .ok (calls, g)) ↔ RunsAs s.lineage s.program x g := by
  constructor
  · rintro ⟨calls, hl⟩
    obtain ⟨hd, hc, hm⟩ := lookup_names hl
    have hg := graph?_of_lookup hl
    rw [hc, hm] at hg
    exact ⟨calls, hd, hg⟩
  · rintro ⟨calls, hd, hg⟩
    have hd : s.declaring? x = some calls := hd
    exact ⟨calls, by rw [lookup, hd]; simp only [hg]⟩

/-- Where the search succeeds, each method reached has a graph that runs. -/
theorem exists_runsAs (hr : s.reach m = .ok found) (hx : ReachesIn s.lineage m x) :
    ∃ g ∈ found, RunsAs s.lineage s.program x g := by
  have hs := (Search.initial m).run hr
  obtain ⟨g, hg, rfl⟩ := List.mem_map.1 (hs.mem_names_iff.2 hx)
  exact ⟨g, hg, exists_lookup_iff.1 (hs.resolved g hg)⟩

theorem mem_reach_iff (hr : s.reach m = .ok found) :
    g ∈ found ↔ g ∈ closureIn s.lineage s.program m := by
  constructor
  · intro hg
    have hs := (Search.initial m).run hr
    have hreach := hs.mem_names_iff.1 (List.mem_map_of_mem hg)
    exact ⟨_, hreach, exists_lookup_iff.1 (hs.resolved g hg)⟩
  · rintro ⟨x, hx, hrun⟩
    obtain ⟨f, hf, hrun'⟩ := exists_runsAs hr hx
    exact hrun.unique hrun' ▸ hf

end Scope

/-! ## Lineages of known classes -/

namespace Hierarchy

variable {classes : List ClassInfo} {className : String} {calls : CallGraph}

theorem callGraph_of_mem_lineage (h : calls ∈ (ofClasses classes).lineage className) :
    (ofClasses classes).callGraph calls.className = calls := by
  obtain ⟨name, -, rfl⟩ := List.mem_map.1 h
  rw [className_callGraph]

theorem map_className_lineage : ((ofClasses classes).lineage className).map (·.className) =
    className :: (ofClasses classes).superclasses className := by
  simp [lineage, Function.comp_def]

end Hierarchy

/-- A call in the call graph of its class is one of the nearest declaration. -/
theorem callsIn_of_mem_children {classes : List ClassInfo} {className x y : String} {p : Program}
    {g : FlowGraph} (hg : RunsAs ((Hierarchy.ofClasses classes).lineage className) p x g)
    (hy : y ∈ ((Hierarchy.ofClasses classes).callGraph g.className).children x) :
    CallsIn ((Hierarchy.ofClasses classes).lineage className) x y := by
  obtain ⟨calls, hd, hg⟩ := hg
  have hc : g.className = calls.className := congrArg Prod.fst (Program.key_of_graph? hg)
  rw [hc, Hierarchy.callGraph_of_mem_lineage (List.mem_of_find?_eq_some hd)] at hy
  exact ⟨calls, hd, hy⟩

/-! ## An unfinished program -/

/-- A class that takes over a helper of its superclass. The superclass has a broken method, which
calls one that was lost. -/
def unfinished : List ClassInfo :=
  [(((ClassInfo.named "Base").withCall "run" "helper").withCall "broken" "helper").withCall
      "broken" "lost",
    ((ClassInfo.named "Derived").withSuperclass "Base").withCall "helper" "helper"]

/-- Runs the helper of its class and returns. -/
def runGraph : FlowGraph :=
  .make "Base" "run" [⟨0, none, .invoke ⟨"Base", "helper", []⟩⟩, ⟨1, none, .return⟩]

/-- Returns at once. -/
def helperGraph (className : String) : FlowGraph := .make className "helper" [⟨0, none, .return⟩]

def unfinishedProgram : Program :=
  (((Program.empty.insertGraph runGraph).insertGraph (helperGraph "Base")).insertGraph
    (helperGraph "Derived")).insertGraph (.make "Base" "broken" [])

def unfinishedScope : Scope :=
  .ofClass (.ofClasses unfinished) unfinishedProgram .default "Derived"

theorem superclasses_unfinished :
    (Hierarchy.ofClasses unfinished).superclasses "Derived" = ["Base"] := by
  have hd : (Hierarchy.ofClasses unfinished).superclass? "Derived" = some "Base" := rfl
  have hb : (Hierarchy.ofClasses unfinished).superclass? "Base" = none := rfl
  rw [Hierarchy.superclasses, Hierarchy.chain_eq_cons hd (by decide), Hierarchy.chain_eq_nil hb]

theorem lineage_unfinished :
    unfinishedScope.lineage =
      ["Derived", "Base"].map (Hierarchy.ofClasses unfinished).callGraph := by
  show ("Derived" :: (Hierarchy.ofClasses unfinished).superclasses "Derived").map _ = _
  rw [superclasses_unfinished]

theorem lookup_unfinished_helper : unfinishedScope.lookup "helper" =
    .ok ((Hierarchy.ofClasses unfinished).callGraph "Derived", helperGraph "Derived") := by
  rw [Scope.lookup, Scope.declaring?, lineage_unfinished]
  rfl

theorem reach_unfinished_run :
    unfinishedScope.reach "run" = .ok [runGraph, helperGraph "Derived"] := by
  have hrun : unfinishedScope.lookup "run" =
      .ok ((Hierarchy.ofClasses unfinished).callGraph "Base", runGraph) := by
    rw [Scope.lookup, Scope.declaring?, lineage_unfinished]
    rfl
  have hhelper := lookup_unfinished_helper
  refine Scope.collects_iff.1 (.entered hrun rfl ?_ .done)
  exact .entered hhelper rfl (.known hhelper rfl .done) .done

theorem reach_unfinished_broken :
    unfinishedScope.reach "broken" = .error (.methodNotInHierarchy "Base" "lost") := by
  have hbroken : unfinishedScope.lookup "broken" =
      .ok ((Hierarchy.ofClasses unfinished).callGraph "Base", .make "Base" "broken" []) := by
    rw [Scope.lookup, Scope.declaring?, lineage_unfinished]
    rfl
  have hlost : unfinishedScope.lookup "lost" = .error (.methodNotInHierarchy "Base" "lost") := by
    rw [Scope.lookup, Scope.declaring?, lineage_unfinished]
    rfl
  have hhelper := lookup_unfinished_helper
  refine Scope.collects_iff.1 (.failed hbroken rfl ?_)
  exact .entered hhelper rfl (.known hhelper rfl .done) (.missing hlost)

end CrashSearch
