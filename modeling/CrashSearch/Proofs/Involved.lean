import CrashSearch.Proofs.Nearest
import CrashSearch.Proofs.Uses

/-!
# Involved graphs

What holds of the involved graphs of a class under call after any uses of it. Two graphs are told
apart by class and method, but as each is the one of the nearest declaration, there is one for a
method name.

## Main definitions

* `Involves`: the graphs that are involved once some methods were resolved.
* `LiveCallee.ofClasses`: a class of some known classes before its first use.

## Main statements

* `LiveCallee.involves_run`: the involved graphs after some uses.
* `LiveCallee.involved_of_uses`: these, how they grow, and that resolving again changes nothing.
-/

namespace CrashSearch

/-- The graphs that are involved once some methods of a class were resolved. -/
structure Involves (h : Hierarchy) (p : Program) (className : String) (resolved : List String)
    (involved : List FlowGraph) : Prop where
  distinct : (involved.map (·.methodName)).Nodup
  nearest : ∀ g ∈ involved, RunsAs (h.lineage className) p g.methodName g
  /-- The graph of whatever the method of an involved graph calls in its class is involved. -/
  closed : ∀ g ∈ involved, ∀ y ∈ (h.callGraph g.className).children g.methodName,
    ∃ f ∈ involved, RunsAs (h.lineage className) p y f
  mem_iff : ∀ g, g ∈ involved ↔ ∃ m ∈ resolved, g ∈ closureIn (h.lineage className) p m

theorem Involves.nodup_keys {h : Hierarchy} {p : Program} {className : String}
    {resolved : List String} {involved : List FlowGraph}
    (hi : Involves h p className resolved involved) : (involved.map FlowGraph.key).Nodup := by
  have hnames : (involved.map FlowGraph.key).map Prod.snd = involved.map (·.methodName) := by
    simp [FlowGraph.key]
  exact .of_map Prod.snd (hnames ▸ hi.distinct)

/-- Of elements that differ in a key the one with a given key is found. -/
theorem find?_key_iff {α κ : Type} [DecidableEq κ] (key : α → κ) {l : List α}
    (h : (l.map key).Nodup) {k : κ} {a : α} :
    l.find? (fun b => key b = k) = some a ↔ a ∈ l ∧ key a = k := by
  constructor
  · intro hf
    exact ⟨List.mem_of_find?_eq_some hf, by simpa using List.find?_some hf⟩
  · rintro ⟨ha, rfl⟩
    obtain ⟨b, hb⟩ := Option.isSome_iff_exists.1
      ((List.find?_isSome (p := fun b => key b = key a)).2 ⟨a, ha, by simp⟩)
    have hkey : key b = key a := by simpa using List.find?_some hb
    rw [hb, List.inj_on_of_nodup_map h (List.mem_of_find?_eq_some hb) ha hkey]

namespace Callee

theorem nodup_keys_involve {l : List FlowGraph} {g : FlowGraph}
    (h : (l.map FlowGraph.key).Nodup) : ((involve l g).map FlowGraph.key).Nodup := by
  unfold involve
  split
  · exact h
  · rename_i hany
    rw [List.map_append, List.map_singleton, List.nodup_append_comm, List.singleton_append,
      List.nodup_cons]
    refine ⟨fun hmem => hany ?_, h⟩
    obtain ⟨f, hf, hk⟩ := List.mem_map.1 hmem
    exact List.any_eq_true.2 ⟨f, hf, FlowGraph.sameMethod_iff.2 hk⟩

theorem nodup_keys_foldl_involve {l : List FlowGraph} (found : List FlowGraph)
    (h : (l.map FlowGraph.key).Nodup) : ((found.foldl involve l).map FlowGraph.key).Nodup := by
  induction found generalizing l with
  | nil => exact h
  | cons g rest ih => exact ih (nodup_keys_involve h)

theorem involved?_iff {c : Callee} (h : (c.involved.map (·.methodName)).Nodup) {m : String}
    {g : FlowGraph} : c.involved? m = some g ↔ g ∈ c.involved ∧ g.methodName = m :=
  find?_key_iff FlowGraph.methodName h

end Callee

/-! ## Resolved methods -/

section Resolved

variable {s : Scope} {resolved : List String} {g : FlowGraph}

theorem Scope.mem_found_iff_closureIn {m : String} (h : ∃ found, s.reach m = .ok found) :
    g ∈ s.found m ↔ g ∈ closureIn s.lineage s.program m := by
  obtain ⟨found, hr⟩ := h
  rw [mem_found, reached_of_reach hr, ← mem_reach_iff hr]
  rfl

/-- Making the graphs found for some methods involved adds their closures. -/
theorem Scope.mem_involved_iff {l : List FlowGraph} (hl : ∀ f ∈ l, s.program.Has f)
    (h : ∀ m ∈ resolved, ∃ found, s.reach m = .ok found) :
    g ∈ (resolved.flatMap s.found).foldl Callee.involve l ↔
      g ∈ l ∨ ∃ m ∈ resolved, g ∈ closureIn s.lineage s.program m := by
  have hfound : ∀ f ∈ resolved.flatMap s.found, s.program.Has f := by
    intro f hf
    obtain ⟨m, -, hf⟩ := List.mem_flatMap.1 hf
    exact has_of_mem_reached (mem_found.1 hf)
  rw [Callee.mem_foldl_involve hl hfound, List.mem_flatMap]
  refine or_congr_right (exists_congr fun m => and_congr_right fun hm => ?_)
  exact mem_found_iff_closureIn (h m hm)

end Resolved

theorem involves_of_resolved {classes : List ClassInfo} {p : Program} {session : Session}
    {className : String} {resolved : List String}
    (h : ∀ m ∈ resolved, ∃ found,
      (Scope.ofClass (.ofClasses classes) p session className).reach m = .ok found) :
    Involves (.ofClasses classes) p className resolved
      ((resolved.flatMap (Scope.ofClass (.ofClasses classes) p session className).found).foldl
        Callee.involve []) := by
  have hmem : ∀ g, g ∈ (resolved.flatMap
      (Scope.ofClass (.ofClasses classes) p session className).found).foldl Callee.involve [] ↔
      ∃ m ∈ resolved, g ∈ closureIn ((Hierarchy.ofClasses classes).lineage className) p m :=
    fun g => (Scope.mem_involved_iff (by simp) h).trans (by simp [Scope.ofClass]; rfl)
  have hnearest : ∀ g ∈ (resolved.flatMap
      (Scope.ofClass (.ofClasses classes) p session className).found).foldl Callee.involve [],
      RunsAs ((Hierarchy.ofClasses classes).lineage className) p g.methodName g := by
    intro g hg
    obtain ⟨m, -, x, -, hrun⟩ := (hmem g).1 hg
    exact hrun.methodName_eq.symm ▸ hrun
  refine ⟨?_, hnearest, ?_, hmem⟩
  · -- Graphs with one method name are both the nearest declaration, so they have one key.
    have hkeys := Callee.nodup_keys_foldl_involve (l := []) (resolved.flatMap
      (Scope.ofClass (.ofClasses classes) p session className).found) List.nodup_nil
    refine List.Nodup.map_on ?_ hkeys.of_map
    intro f hf g hg hname
    exact (hnearest f hf).unique (hname ▸ hnearest g hg)
  · intro g hg y hy
    obtain ⟨m, hm, x, hx, hrun⟩ := (hmem g).1 hg
    obtain rfl := hrun.methodName_eq
    have hcall := callsIn_of_mem_children hrun hy
    obtain ⟨found, hr⟩ := h m hm
    obtain ⟨f, -, hrunf⟩ := Scope.exists_runsAs hr (hx.tail hcall)
    exact ⟨f, (hmem f).2 ⟨m, hm, y, hx.tail hcall, hrunf⟩, hrunf⟩

namespace LiveCallee

variable {l l' : LiveCallee} {m : String} {e : Error}

/-- A class of some known classes before its first use. -/
def ofClasses (classes : List ClassInfo) (p : Program) (session : Session) (className : String) :
    LiveCallee := ofScope (.ofClass (.ofClasses classes) p session className)

section Runs

variable {classes : List ClassInfo} {p : Program} {session : Session} {className : String}

theorem scope_run (uses : List Use) :
    ((ofClasses classes p session className).run uses).callee.scope =
      .ofClass (.ofClasses classes) p session className := (grown_run uses).scope_eq

theorem involves_run (uses : List Use) : Involves (.ofClasses classes) p className
    ((ofClasses classes p session className).resolvedIn uses)
    ((ofClasses classes p session className).run uses).callee.involved := by
  rw [(grown_run uses).involved_eq]
  exact involves_of_resolved fun m hm => resolves_iff.1 (resolves_of_mem_resolvedIn hm)

end Runs

/-- Methods that cannot all be resolved split at the first of them. -/
theorem exists_of_resolveAll_error {methods : List String}
    (h : resolveAll methods l = .error e l') :
    ∃ m after, methods = methods.takeWhile l.resolves ++ m :: after ∧ l.resolves m = false := by
  induction methods generalizing l with
  | nil => cases h
  | cons m rest ih =>
    cases hr : l.callee.scope.reach m with
    | error e' =>
      have hm : l.resolves m = false := by simp [resolves_eq, hr, Except.isOk, Except.toBool]
      exact ⟨m, rest, by rw [List.takeWhile_cons_of_neg (by simp [hm])]; rfl, hm⟩
    | ok found =>
      rw [resolveAll_cons_ok hr] at h
      obtain ⟨x, after, hsplit, hx⟩ := ih h
      have hsame : (l.involve found).resolves = l.resolves := resolves_congr rfl
      rw [hsame] at hsplit hx
      rw [List.takeWhile_cons_of_pos (resolves_iff.2 ⟨_, hr⟩)]
      exact ⟨x, after, congrArg (m :: ·) hsplit, hx⟩

/-- Making graphs involved that are all involved leaves a class as it is. -/
theorem involve_eq_self {found : List FlowGraph}
    (h : ∀ g ∈ found, g.key ∈ l.callee.involved.map FlowGraph.key) : l.involve found = l := by
  unfold involve
  rw [Callee.foldl_involve_eq_self h]
  simp

theorem resolve_again {uses : List Use} (hm : m ∈ l.resolvedIn uses) :
    resolve m (l.run uses) = .ok (l.callee.scope.found m) (l.run uses) := by
  obtain ⟨found, hr⟩ := resolves_iff.1 (resolves_of_mem_resolvedIn hm)
  have hfound : l.callee.scope.found m = found := by
    rw [Scope.found, hr]
    rfl
  have hgrown := grown_run (l := l) uses
  rw [resolve_ok (hgrown.scope_eq ▸ hr), hfound, involve_eq_self]
  intro g hg
  rw [hgrown.involved_eq, Callee.mem_keys_foldl_involve]
  exact .inr (List.mem_map_of_mem (List.mem_flatMap.2 ⟨m, hm, hfound ▸ hg⟩))

/-- What resolving answers depends on the class alone. -/
theorem found_of_resolve {found : List FlowGraph} (h : resolve m l = .ok found l') :
    l.callee.scope.found m = found := by
  cases hr : l.callee.scope.reach m with
  | error e =>
    rw [resolve_error hr] at h
    cases h
  | ok graphs =>
    rw [resolve_ok hr] at h
    cases h
    rw [Scope.found, hr]
    rfl

/-- The involved graphs after any uses of a class, some of which may have failed. There is one for a
method name, the one of the nearest declaration; they have a graph for whatever they call; they
are the closures of the methods that were resolved. They are only added to, also by a use that
fails: where one of the called methods cannot be resolved, the closures of those before it are
added. Resolving a method again finds the same graphs and changes nothing. -/
theorem involved_of_uses (classes : List ClassInfo) (p : Program) (session : Session)
    (className : String) (uses : List Use) :
    let lineage := (Hierarchy.ofClasses classes).lineage className
    let fresh := ofClasses classes p session className
    let l := fresh.run uses
    Involves (.ofClasses classes) p className (fresh.resolvedIn uses) l.callee.involved ∧
    (∀ m g, l.callee.involved? m = some g ↔ g ∈ l.callee.involved ∧ g.methodName = m) ∧
    (∀ u, l.callee.involved <+: (l.step u).callee.involved) ∧
    (∀ e l', involveCalled l = .error e l' → ∃ before m after,
      l.callee.calledMethods = before ++ m :: after ∧ (∀ x ∈ before, l.resolves x = true) ∧
        l.resolves m = false ∧ ∀ g, g ∈ l'.callee.involved ↔
          g ∈ l.callee.involved ∨ ∃ x ∈ before, g ∈ closureIn lineage p x) ∧
    ∀ m ∈ fresh.resolvedIn uses, ∃ found, resolve m l = .ok found l ∧
      ∀ earlier, earlier <+: uses → ∀ found' l',
        resolve m (fresh.run earlier) = .ok found' l' → found' = found := by
  intro lineage fresh l
  have hinvolves : Involves (.ofClasses classes) p className (fresh.resolvedIn uses)
      l.callee.involved := involves_run uses
  have hscope : l.callee.scope = fresh.callee.scope := (grown_run uses).scope_eq
  refine ⟨hinvolves, fun m g => Callee.involved?_iff hinvolves.distinct, ?_, ?_, ?_⟩
  · intro u
    rw [(grown_step u).involved_eq]
    exact Callee.prefix_foldl_involve _ _
  · intro e l' h
    obtain ⟨m, after, hsplit, hm⟩ := exists_of_resolveAll_error h
    have hbefore : ∀ x ∈ l.callee.calledMethods.takeWhile l.resolves, l.resolves x = true :=
      fun x hx => List.mem_takeWhile_imp hx
    refine ⟨_, m, after, hsplit, hbefore, hm, fun g => ?_⟩
    have hgrown := grown_resolveAll (l := l) l.callee.calledMethods
    have hl' : (resolveAll l.callee.calledMethods).after l = l' := by
      rw [InPlace.after]
      change resolveAll _ _ = _ at h
      rw [h]
    rw [← hl', hgrown.involved_eq]
    have hprogram : ∀ f ∈ l.callee.involved, l.callee.scope.program.Has f := by
      intro f hf
      rw [hscope]
      exact (hinvolves.nearest f hf).has
    rw [Scope.mem_involved_iff hprogram fun x hx => resolves_iff.1 (hbefore x hx), hscope]
    rfl
  · intro m hm
    refine ⟨_, resolve_again hm, fun earlier _ found' l' h => ?_⟩
    have hearlier : (fresh.run earlier).callee.scope = fresh.callee.scope :=
      (grown_run earlier).scope_eq
    rw [← found_of_resolve h, hearlier]

/-- Uses of the unfinished class, of which the first resolving fails and the second does not. -/
def someUses : List Use :=
  [.addCallSite ⟨⟨"Main", "main", 0⟩, ⟨"Derived", "run", []⟩⟩, .resolve "broken", .draw,
    .resolve "run", .addCallSite ⟨⟨"Main", "main", 1⟩, ⟨"Derived", "broken", []⟩⟩]

theorem step_unfinished_broken (h : l.callee.scope = unfinishedScope) :
    l.step (.resolve "broken") = l := by
  rw [step, InPlace.after, resolve_error (h ▸ reach_unfinished_broken)]

theorem step_unfinished_run (h : l.callee.scope = unfinishedScope) :
    l.step (.resolve "run") = l.involve [runGraph, helperGraph "Derived"] := by
  rw [step, InPlace.after, resolve_ok (h ▸ reach_unfinished_run)]

/-- What the uses lead to: two methods were called, one of them was resolved. -/
theorem run_someUses : ∃ l : LiveCallee,
    (ofClasses unfinished unfinishedProgram .default "Derived").run someUses = l ∧
      l.callee.scope = unfinishedScope ∧ l.callee.calledMethods = ["run", "broken"] ∧
      l.callee.involved = [runGraph, helperGraph "Derived"] := by
  rw [run, someUses, List.foldl_cons, List.foldl_cons, step_unfinished_broken rfl, List.foldl_cons,
    List.foldl_cons, step_unfinished_run rfl]
  exact ⟨_, rfl, rfl, rfl, rfl⟩

theorem resolvedIn_someUses :
    (ofClasses unfinished unfinishedProgram .default "Derived").resolvedIn someUses = ["run"] := by
  have hbroken (l : LiveCallee) (h : l.callee.scope = unfinishedScope) :
      l.resolved (.resolve "broken") = [] := by
    refine List.takeWhile_cons_of_neg fun hok => ?_
    obtain ⟨found, hr⟩ := resolves_iff.1 hok
    cases (h ▸ reach_unfinished_broken).symm.trans hr
  have hrun (l : LiveCallee) (h : l.callee.scope = unfinishedScope) :
      l.resolved (.resolve "run") = ["run"] :=
    List.takeWhile_cons_of_pos (resolves_iff.2 ⟨_, h ▸ reach_unfinished_run⟩)
  simp only [someUses, resolvedIn]
  rw [hbroken _ rfl, step_unfinished_broken rfl, hrun _ rfl]
  rfl

theorem involveCalled_unfinished (h : l.callee.scope = unfinishedScope)
    (hc : l.callee.calledMethods = ["run", "broken"]) : ∃ l',
      involveCalled l = .error (.methodNotInHierarchy "Base" "lost") l' := by
  refine ⟨l.involve [runGraph, helperGraph "Derived"], ?_⟩
  change resolveAll l.callee.calledMethods l = _
  rw [hc, resolveAll_cons_ok (h ▸ reach_unfinished_run)]
  exact resolveAll_cons_error (h ▸ reach_unfinished_broken)

/-- The nearer class gives the helper, and nothing of the broken method was added. -/
theorem unfinished_involved : ∃ l l' : LiveCallee,
    (ofClasses unfinished unfinishedProgram .default "Derived").run someUses = l ∧
    l.callee.involved.map FlowGraph.key = [("Base", "run"), ("Derived", "helper")] ∧
    Involves (.ofClasses unfinished) unfinishedProgram "Derived" ["run"] l.callee.involved ∧
    involveCalled l = .error (.methodNotInHierarchy "Base" "lost") l' ∧
    (∃ before m after, ["run", "broken"] = before ++ m :: after ∧
      (∀ x ∈ before, l.resolves x = true) ∧ l.resolves m = false) ∧
    ∃ found, resolve "run" l = .ok found l := by
  obtain ⟨l, hl, hscope, hcalled, hinvolved⟩ := run_someUses
  obtain ⟨l', hfails⟩ := involveCalled_unfinished hscope hcalled
  obtain ⟨hinvolves, -, -, hfirst, hagain⟩ :=
    involved_of_uses unfinished unfinishedProgram .default "Derived" someUses
  rw [hl] at hinvolves hfirst hagain
  rw [resolvedIn_someUses] at hinvolves hagain
  obtain ⟨before, m, after, hsplit, hbefore, hm, -⟩ := hfirst _ l' hfails
  obtain ⟨found, hfound, -⟩ := hagain "run" (by decide)
  refine ⟨l, l', hl, ?_, hinvolves, hfails, ⟨before, m, after, ?_, hbefore, hm⟩, found, hfound⟩
  · rw [hinvolved]
    rfl
  · rw [← hcalled, hsplit]

end LiveCallee

end CrashSearch
