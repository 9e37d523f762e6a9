import CrashSearch.Proofs.Missing
import CrashSearch.Proofs.SuperclassChains

/-!
# Where a lookup lands

The nearest class that declares a method also declares whatever the method calls there. So a search
may come back to nearer classes, which override what is called, but it never climbs above the class
where it landed first.

## Main statements

* `ReachesIn.exists_landing_le`: methods that are reached land no higher than the first one.
* `reachesIn_cons_iff`: where the class itself declares a method, its own call graph decides.
* `Callee.resolve_stays_below`: the classes of the graphs that a call can run.
-/

namespace CrashSearch

namespace Hierarchy

variable {h : Hierarchy} {className : String}

theorem closed_of_mem_lineage {calls : CallGraph} (hc : calls ∈ h.lineage className) :
    calls.Closed := by
  obtain ⟨name, -, rfl⟩ := List.mem_map.1 hc
  exact closed_callGraph

end Hierarchy

/-! ## Landing -/

section Landing

variable {lineage : List CallGraph} {m x y : String} {i : Nat}

/-- Whatever a class calls it declares, so the nearest declaration is there or nearer. -/
theorem CallsIn.exists_landing_le (hclosed : ∀ calls ∈ lineage, calls.Closed)
    (hcall : CallsIn lineage x y) (hx : lineage.findIdx? (·.declares x) = some i) :
    ∃ j ≤ i, lineage.findIdx? (·.declares y) = some j := by
  obtain ⟨calls, hfind, hy⟩ := hcall
  induction lineage generalizing i with
  | nil => simp at hx
  | cons g rest ih =>
    rw [List.findIdx?_cons] at hx ⊢
    rw [List.find?_cons] at hfind
    cases hgx : g.declares x with
    | true =>
      rw [hgx] at hfind
      obtain rfl := Option.some.inj hfind
      simp [hclosed g List.mem_cons_self x y hy]
    | false =>
      rw [hgx] at hx hfind
      obtain ⟨i', hi', rfl⟩ := Option.map_eq_some_iff.1 hx
      obtain ⟨j, hj, hjy⟩ :=
        ih (fun calls hc => hclosed calls (List.mem_cons_of_mem _ hc)) hi' hfind
      cases hgy : g.declares y with
      | true => exact ⟨0, Nat.zero_le _, by simp⟩
      | false => exact ⟨j + 1, Nat.succ_le_succ hj, by simp [hjy]⟩

/-- What is reached from a method lands no higher than the method. -/
theorem ReachesIn.exists_landing_le (hclosed : ∀ calls ∈ lineage, calls.Closed)
    (hreach : ReachesIn lineage m x) (hm : lineage.findIdx? (·.declares m) = some i) :
    ∃ j ≤ i, lineage.findIdx? (·.declares x) = some j := by
  induction hreach with
  | refl => exact ⟨i, Nat.le_refl i, hm⟩
  | tail _ hcall ih =>
    obtain ⟨j, hj, hy⟩ := ih
    obtain ⟨k, hk, hx⟩ := hcall.exists_landing_le hclosed hy
    exact ⟨k, Nat.le_trans hk hj, hx⟩

variable {calls : CallGraph} {rest : List CallGraph}

theorem callsIn_cons_iff (hx : calls.declares x = true) :
    CallsIn (calls :: rest) x y ↔ y ∈ calls.children x := by
  simp [CallsIn, hx]

/-- Where the first class declares a method, its own calls never leave it. -/
theorem reachesIn_cons_iff (hclosed : calls.Closed) (hm : calls.declares m = true) :
    ReachesIn (calls :: rest) m x ↔ calls.Reaches m x := by
  constructor
  · intro hreach
    induction hreach with
    | refl => exact .refl
    | tail _ hcall ih =>
      have hdeclares := hclosed.declares_of_reaches hm ih
      exact ih.tail ((callsIn_cons_iff hdeclares).1 hcall)
  · intro hreach
    induction hreach with
    | refl => exact .refl
    | tail hbefore hcall ih =>
      exact ih.tail ((callsIn_cons_iff (hclosed.declares_of_reaches hm hbefore)).2 hcall)

theorem runsAs_cons_iff {p : Program} {g : FlowGraph} (hx : calls.declares x = true) :
    RunsAs (calls :: rest) p x g ↔ p.graph? calls.className x = some g := by
  simp [RunsAs, hx]

end Landing

/-! ## Searches -/

namespace Scope

variable {s : Scope} {m : String}

/-- A search succeeds just if each method reached has a graph that runs. -/
theorem exists_reach_iff : (∃ found, s.reach m = .ok found) ↔
    ∀ x, ReachesIn s.lineage m x → ∃ g, RunsAs s.lineage s.program x g := by
  constructor
  · rintro ⟨found, hr⟩ x hx
    obtain ⟨g, -, hg⟩ := exists_runsAs hr hx
    exact ⟨g, hg⟩
  · intro hall
    obtain ⟨order, horder⟩ := DepthFirst.exists_order s.lineage [] [m]
    have hfollows := (collects_visit [] [m]).follows (by simp [Resolved]) horder
    cases hr : s.reach m with
    | ok found => exact ⟨found, rfl⟩
    | error e =>
      rw [← reach, hr] at hfollows
      obtain ⟨x, ⟨before, after, hsplit, hmissing, -⟩, -⟩ := hfollows
      obtain ⟨g, hg⟩ := hall x (horder.mem_iff.1 (by simp [hsplit]))
      obtain ⟨calls, hl⟩ := exists_lookup_iff.2 hg
      exact absurd hmissing (not_missingIn_of_lookup hl)

end Scope

namespace Callee

variable {classes : List ClassInfo} {p : Program} {session : Session} {className : String}

/-- The classes of the graphs that a call can run lie no higher than the one where the lookup of
the called method landed. Where the class itself declares the method, the graphs are those of the
class for the methods reached in its own call graph, and none is of a superclass; there are such
graphs just if the program has all of them. -/
theorem resolve_stays_below (c : Callee)
    (hc : c.scope = .ofClass (.ofClasses classes) p session className) (m : String) :
    let h := Hierarchy.ofClasses classes
    let names := className :: h.superclasses className
    names.Nodup ∧
    (∀ i c' found, (h.lineage className).findIdx? (·.declares m) = some i →
      c.resolve m = .ok (c', found) → ∀ g ∈ found, ∃ j ≤ i, names[j]? = some g.className) ∧
    ((h.callGraph className).declares m = true →
      ((∃ c' found, c.resolve m = .ok (c', found)) ↔
        ∀ x, (h.callGraph className).Reaches m x → ∃ g, p.graph? className x = some g) ∧
      ∀ c' found, c.resolve m = .ok (c', found) →
        found.Nodup ∧
        (∀ g, g ∈ found ↔
          ∃ x, (h.callGraph className).Reaches m x ∧ p.graph? className x = some g) ∧
        ∀ g ∈ found, g.className ∉ h.superclasses className) := by
  intro h names
  have hline : c.scope.lineage = h.lineage className := by rw [hc]; rfl
  have hprogram : c.scope.program = p := by rw [hc]; rfl
  have hclosed : ∀ calls ∈ h.lineage className, calls.Closed :=
    fun calls => Hierarchy.closed_of_mem_lineage
  refine ⟨Hierarchy.nodup_names, ?below, ?own⟩
  case below =>
    intro i c' found hi hr g hg
    obtain ⟨x, hx, calls, hfind, hgraph⟩ := (Scope.mem_reach_iff (reach_of_resolve hr)).1 hg
    rw [hline] at hx hfind
    obtain ⟨j, hj, hland⟩ := hx.exists_landing_le hclosed hi
    have hcalls : (h.lineage className)[j]? = some calls := by
      rw [← hfind, List.find?_eq_bind_findIdx?_getElem?, hland, Option.bind_some]
    have howner : g.className = calls.className := congrArg Prod.fst (Program.key_of_graph? hgraph)
    have hnames : (h.lineage className).map (·.className) = names := Hierarchy.map_className_lineage
    refine ⟨j, hj, ?_⟩
    rw [← hnames, List.getElem?_map, hcalls, howner, Option.map_some]
  case own =>
    intro hm
    have hown : (h.callGraph className).Closed := Hierarchy.closed_callGraph
    have hreaches {x : String} :
        ReachesIn c.scope.lineage m x ↔ (h.callGraph className).Reaches m x := by
      rw [hline]
      exact reachesIn_cons_iff hown hm
    have hruns {x : String} {g : FlowGraph} (hx : (h.callGraph className).Reaches m x) :
        RunsAs c.scope.lineage c.scope.program x g ↔ p.graph? className x = some g := by
      have hd := hown.declares_of_reaches hm hx
      rw [hline, hprogram]
      exact (runsAs_cons_iff hd).trans (by rw [Hierarchy.className_callGraph])
    constructor
    · have hsucceeds : (∃ c' found, c.resolve m = .ok (c', found)) ↔
          ∃ found, c.scope.reach m = .ok found := by
        constructor
        · rintro ⟨c', found, hr⟩
          exact ⟨found, reach_of_resolve hr⟩
        · rintro ⟨found, hr⟩
          exact ⟨_, found, resolve_of_reach hr⟩
      rw [hsucceeds, Scope.exists_reach_iff]
      refine forall_congr' fun x => ?_
      rw [hreaches]
      exact forall_congr' fun hx => exists_congr fun g => hruns hx
    · intro c' found hr
      have hmem (g : FlowGraph) : g ∈ found ↔
          ∃ x, (h.callGraph className).Reaches m x ∧ p.graph? className x = some g := by
        rw [Scope.mem_reach_iff (reach_of_resolve hr)]
        refine exists_congr fun x => ?_
        rw [hreaches]
        exact and_congr_right hruns
      refine ⟨?_, hmem, fun g hg => ?_⟩
      · exact ((Scope.Search.initial m).run (reach_of_resolve hr)).distinct.of_map _
      · obtain ⟨x, -, hgraph⟩ := (hmem g).1 hg
        have howner : g.className = className := congrArg Prod.fst (Program.key_of_graph? hgraph)
        exact howner ▸ (List.nodup_cons.1 Hierarchy.nodup_names).1

/-- The search that lands in the superclass comes back for the helper that was taken over. The
helper itself is declared in the class. -/
theorem unfinished_stays_below :
    (ofScope unfinishedScope).scope =
      .ofClass (.ofClasses unfinished) unfinishedProgram .default "Derived" ∧
    unfinishedScope.lineage.findIdx? (·.declares "run") = some 1 ∧
    (∃ c' found, (ofScope unfinishedScope).resolve "run" = .ok (c', found) ∧
      found = [runGraph, helperGraph "Derived"] ∧
      ∀ g ∈ found, ∃ j ≤ 1, ["Derived", "Base"][j]? = some g.className) ∧
    ((Hierarchy.ofClasses unfinished).callGraph "Derived").declares "helper" = true ∧
    ∃ c' found, (ofScope unfinishedScope).resolve "helper" = .ok (c', found) ∧
      helperGraph "Derived" ∈ found ∧ ∀ g ∈ found, g.className ∉ ["Base"] := by
  have hlands : unfinishedScope.lineage.findIdx? (·.declares "run") = some 1 := by
    rw [lineage_unfinished]
    decide
  have hrun := resolve_of_reach (c := ofScope unfinishedScope) reach_unfinished_run
  have hdeclares :
      ((Hierarchy.ofClasses unfinished).callGraph "Derived").declares "helper" = true := by
    decide
  have hcalls {x : String} (hx : ((Hierarchy.ofClasses unfinished).callGraph "Derived").Reaches
      "helper" x) : x = "helper" := by
    induction hx with
    | refl => rfl
    | tail _ hcall ih =>
      subst ih
      have hchildren : ((Hierarchy.ofClasses unfinished).callGraph "Derived").children "helper" =
          ["helper"] := by decide
      simpa [hchildren] using hcall
  obtain ⟨-, hrunBelow, -⟩ := resolve_stays_below (ofScope unfinishedScope) rfl "run"
  obtain ⟨-, -, hown⟩ := resolve_stays_below (ofScope unfinishedScope) rfl "helper"
  rw [superclasses_unfinished] at hrunBelow hown
  obtain ⟨hsucceeds, hhelper⟩ := hown hdeclares
  obtain ⟨c', found, hr⟩ := hsucceeds.2 fun x hx => hcalls hx ▸ ⟨helperGraph "Derived", rfl⟩
  obtain ⟨-, hmem, hbase⟩ := hhelper c' found hr
  exact ⟨rfl, hlands, ⟨_, _, hrun, rfl, hrunBelow 1 _ _ hlands hrun⟩, hdeclares, c', found, hr,
    (hmem _).2 ⟨"helper", .refl, rfl⟩, hbase⟩

end Callee

end CrashSearch
