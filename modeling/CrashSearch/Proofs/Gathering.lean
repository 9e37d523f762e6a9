import CrashSearch.Callee.Registry
import CrashSearch.Proofs.Aggregation

/-!
# Building a class

A class is built in two passes over its call sites: all calls are resolved, and then the branches
are collected, for which each call is resolved once more. Where the first pass succeeds the second
does too, and nothing shows in which order the call sites were taken.

## Main definitions

* `Scope.reached`: the graphs that a call can run.
* `Callee.involvedSet`, `Callee.allBranches`: the involved graphs and the branches of all call
  sites.
* `Callee.Gathered`: what collecting for some call sites does to a class.

## Main statements

* `Callee.resolveAll_ok`: the involved graphs after the first pass.
* `Callee.gathered_collectAll`: the graphs, branches and names after the second pass.
-/

namespace CrashSearch

/-- A union over a list begins with its head. -/
theorem biUnion_cons {α β : Type} {F : α → Set β} {a : α} {l : List α} :
    ⋃ x ∈ a :: l, F x = F a ∪ ⋃ x ∈ l, F x := by
  simp [Set.iUnion_or, Set.iUnion_union_distrib]

/-- A graph is the one that the program has for its method. -/
def Program.Has (p : Program) (g : FlowGraph) : Prop := p.graph? g.className g.methodName = some g

theorem Program.Has.eq_of_key {p : Program} {f g : FlowGraph} (hf : p.Has f) (hg : p.Has g)
    (hk : f.key = g.key) : f = g := by
  obtain ⟨hclass, hmethod⟩ := Prod.mk.inj hk
  unfold Has at hf hg
  rw [hclass, hmethod, hg] at hf
  exact (Option.some.inj hf).symm

namespace Scope

variable {s : Scope} {m : String} {g : FlowGraph} {found : List FlowGraph}

/-- The graphs that a call of a method can run; none if the call cannot be resolved. -/
def reached (s : Scope) (method : String) : Set FlowGraph :=
  {g | ∃ found, s.reach method = .ok found ∧ g ∈ found}

/-- All calls of some methods can be resolved. -/
def resolvesAll (s : Scope) (methods : List String) : Bool :=
  methods.all fun m => (s.reach m).isOk

theorem reached_of_reach (h : s.reach m = .ok found) : s.reached m = {g | g ∈ found} := by
  ext g
  constructor
  · rintro ⟨found', h', hg⟩
    cases h.symm.trans h'
    exact hg
  · exact fun hg => ⟨found, h, hg⟩

theorem has_of_mem_reached (h : g ∈ s.reached m) : s.program.Has g := by
  obtain ⟨found, hr, hg⟩ := h
  obtain ⟨calls, hl⟩ := ((Search.initial m).run hr).resolved g hg
  exact graph?_of_lookup hl

theorem resolvesAll_iff {methods : List String} :
    s.resolvesAll methods = true ↔ ∀ m ∈ methods, ∃ found, s.reach m = .ok found := by
  rw [resolvesAll, List.all_eq_true]
  refine forall₂_congr fun m _ => ?_
  cases s.reach m <;> simp [Except.isOk, Except.toBool]

end Scope

namespace Callee

variable {c c' c'' : Callee} {handled handled' handled'' : OrderedSet String}
  {graphs graphs' : Set FlowGraph}

/-! ## Involved graphs -/

/-- The involved graphs as a set. -/
def involvedSet (c : Callee) : Set FlowGraph := {g | g ∈ c.involved}

/-- The program has every involved graph. -/
def Canonical (c : Callee) : Prop := ∀ g ∈ c.involvedSet, c.scope.program.Has g

theorem mem_involve {l : List FlowGraph} {f g : FlowGraph} (h : ∀ f ∈ l, f.key = g.key → f = g) :
    f ∈ involve l g ↔ f ∈ l ∨ f = g := by
  unfold involve
  split
  · rename_i hany
    obtain ⟨f', hf', hs⟩ := List.any_eq_true.1 hany
    have hg : g ∈ l := h f' hf' (FlowGraph.sameMethod_iff.1 hs) ▸ hf'
    exact ⟨.inl, fun hf => hf.elim id fun hf => hf ▸ hg⟩
  · simp

theorem mem_foldl_involve {p : Program} {l found : List FlowGraph} {f : FlowGraph}
    (hl : ∀ g ∈ l, p.Has g) (hf : ∀ g ∈ found, p.Has g) :
    f ∈ found.foldl involve l ↔ f ∈ l ∨ f ∈ found := by
  induction found generalizing l with
  | nil => simp
  | cons g rest ih =>
    have hg : p.Has g := hf g List.mem_cons_self
    have hmem : ∀ f, f ∈ involve l g ↔ f ∈ l ∨ f = g :=
      fun f => mem_involve fun f hf hk => (hl f hf).eq_of_key hg hk
    rw [List.foldl_cons, ih, hmem, List.mem_cons, or_assoc]
    · intro f hf
      rcases (hmem f).1 hf with hf | rfl
      · exact hl f hf
      · exact hg
    · exact fun f h => hf f (List.mem_cons_of_mem _ h)

theorem involvedSet_resolve {m : String} {found : List FlowGraph} (hc : c.Canonical)
    (hr : c.scope.reach m = .ok found) :
    involvedSet { c with involved := found.foldl involve c.involved } =
      c.involvedSet ∪ c.scope.reached m := by
  have hfound : ∀ g ∈ found, c.scope.program.Has g :=
    fun g hg => Scope.has_of_mem_reached ⟨found, hr, hg⟩
  rw [Scope.reached_of_reach hr]
  ext f
  exact mem_foldl_involve hc hfound

theorem Canonical.union {graphs : Set FlowGraph} (hc : c.Canonical)
    (hg : ∀ g ∈ graphs, c.scope.program.Has g) (hs : c'.scope = c.scope)
    (hi : c'.involvedSet = c.involvedSet ∪ graphs) : c'.Canonical := by
  intro g hmem
  rw [hs]
  rw [hi] at hmem
  exact hmem.elim (hc g) (hg g)

/-! ## Resolving the called methods -/

theorem resolveAll_ok (methods : List String) (hc : c.Canonical)
    (h : ∀ m ∈ methods, ∃ found, c.scope.reach m = .ok found) :
    ∃ involved, c.resolveAll methods = ({ c with involved := involved }, .ok ()) ∧
      involvedSet { c with involved := involved } =
        c.involvedSet ∪ ⋃ m ∈ methods, c.scope.reached m := by
  induction methods generalizing c with
  | nil => exact ⟨c.involved, rfl, by simp [involvedSet]⟩
  | cons m rest ih =>
    obtain ⟨found, hr⟩ := h m List.mem_cons_self
    have hone := involvedSet_resolve hc hr
    have hcanonical : Canonical { c with involved := found.foldl involve c.involved } :=
      hc.union (fun g hg => Scope.has_of_mem_reached hg) rfl hone
    obtain ⟨involved, he, hi⟩ := ih hcanonical fun m hm => h m (List.mem_cons_of_mem _ hm)
    refine ⟨involved, ?_, ?_⟩
    · rw [resolveAll, resolve_of_reach hr]
      exact he
    · rw [biUnion_cons, ← Set.union_assoc, ← hone]
      exact hi

theorem resolveAll_error {methods : List String} {m : String} {e : Error} (hm : m ∈ methods)
    (he : c.scope.reach m = .error e) : ∃ c' e', c.resolveAll methods = (c', .error e') := by
  induction methods generalizing c with
  | nil => cases hm
  | cons x rest ih =>
    rw [resolveAll]
    cases hr : c.scope.reach x with
    | error e =>
      rw [resolve_eq, hr]
      exact ⟨c, e, rfl⟩
    | ok found =>
      rw [resolve_of_reach hr]
      rcases List.mem_cons.1 hm with rfl | hm
      · cases he.symm.trans hr
      · exact ih hm he

/-! ## Call sites -/

theorem exists_foldl_addCallSite (sites : List CallSite) (c : Callee) :
    ∃ keyed called, sites.foldl addCallSite c = { c with sites := keyed, calledMethods := called } ∧
      (∀ i, i ∈ keyed.keys ↔ i ∈ c.sites.keys ∨ ∃ site ∈ sites, site.instruction = i) ∧
      ∀ m, m ∈ called ↔ m ∈ c.calledMethods ∨ ∃ site ∈ sites, site.target.methodName = m := by
  induction sites generalizing c with
  | nil => exact ⟨c.sites, c.calledMethods, rfl, by simp, by simp⟩
  | cons site rest ih =>
    obtain ⟨keyed, called, he, hk, hm⟩ := ih (c.addCallSite site)
    have hcalled : ∀ m, m ∈ (c.addCallSite site).calledMethods ↔
        m ∈ c.calledMethods ∨ site.target.methodName = m := by
      intro m
      unfold addCallSite
      dsimp only
      split <;> grind
    refine ⟨keyed, called, he, ?_, ?_⟩
    · intro i
      rw [hk]
      simp [addCallSite, Assoc.mem_keys_insert]
      grind
    · intro m
      rw [hm, hcalled]
      simp [or_assoc]

/-! ## Collecting for all call sites -/

/-- The branches of all call sites. -/
def allBranches (c : Callee) : Set Branch := {b | ∃ i ∈ c.sites.keys, b ∈ c.branchSet i}

/-- The graphs of some calls and the inner methods found in them are taken in. -/
structure Gathered (c : Callee) (handled : OrderedSet String) (c' : Callee)
    (handled' : OrderedSet String) (graphs : Set FlowGraph) : Prop where
  scope_eq : c'.scope = c.scope
  sites_eq : c'.sites = c.sites
  involved_eq : c'.involvedSet = c.involvedSet ∪ graphs
  adds : c.scope.program.Adds c.allBranches handled.toSet graphs (c.scope.detected graphs)
    c'.allBranches handled'.toSet

namespace Gathered

theorem refl : Gathered c handled c handled ∅ where
  scope_eq := rfl
  sites_eq := rfl
  involved_eq := by simp
  adds := Scope.detected_empty ▸ .refl

theorem trans (hh : c.scope.hierarchy.DotFree) (hp : c.scope.program.DotFree)
    (h : Gathered c handled c' handled' graphs) (h' : Gathered c' handled' c'' handled'' graphs') :
    Gathered c handled c'' handled'' (graphs ∪ graphs') where
  scope_eq := h'.scope_eq.trans h.scope_eq
  sites_eq := h'.sites_eq.trans h.sites_eq
  involved_eq := by rw [h'.involved_eq, h.involved_eq, Set.union_assoc]
  adds := by
    rw [Scope.detected_union]
    exact h.adds.trans (h.scope_eq ▸ h'.adds) (Scope.dotFree_detected hh hp _)
      (Scope.dotFree_detected hh hp _)

end Gathered

theorem allBranches_eq {i : InstructionId} (hi : i ∈ c.sites.keys) :
    c.allBranches = {b | ∃ j ∈ c.sites.keys, j ≠ i ∧ b ∈ c.branchSet j} ∪ c.branchSet i := by
  ext b
  constructor
  · rintro ⟨j, hj, hb⟩
    by_cases h : j = i
    · exact .inr (h ▸ hb)
    · exact .inl ⟨j, hj, h, hb⟩
  · rintro (⟨j, hj, -, hb⟩ | hb)
    · exact ⟨j, hj, hb⟩
    · exact ⟨i, hi, hb⟩

/-- Of all branches only those of one call site change. -/
theorem exists_allBranches_eq {i : InstructionId} (hi : i ∈ c.sites.keys)
    (hs : c'.sites = c.sites) (ho : ∀ j ≠ i, c'.branchSet j = c.branchSet j) :
    ∃ others, c.allBranches = others ∪ c.branchSet i ∧
      c'.allBranches = others ∪ c'.branchSet i := by
  refine ⟨_, allBranches_eq hi, ?_⟩
  rw [allBranches_eq (hs ▸ hi), hs]
  congr 1
  ext b
  refine exists_congr fun j => and_congr_right fun _ => and_congr_right fun hj => ?_
  rw [ho j hj]

theorem gathered_collect {site : CallSite} {found : List FlowGraph}
    (hh : c.scope.hierarchy.DotFree) (hp : c.scope.program.DotFree) (hc : c.Canonical)
    (hk : site.instruction ∈ c.sites.keys) (hr : c.scope.reach site.target.methodName = .ok found)
    (handled : OrderedSet String) :
    ∃ c' handled' inner, c.collect site handled = .ok (c', handled', inner) ∧
      Gathered c handled c' handled' (c.scope.reached site.target.methodName) := by
  obtain ⟨c', handled', he, h⟩ := collected_collect hh hp hr handled
  refine ⟨c', handled', _, he, ?_⟩
  have hsites : c'.sites = c.sites := by rw [h.same]
  obtain ⟨others, hall, hall'⟩ := exists_allBranches_eq hk hsites h.others
  constructor
  · rw [h.same]
  · rw [h.same]
  · rw [← involvedSet_resolve hc hr, h.same]
    rfl
  · rw [hall, hall', Scope.reached_of_reach hr]
    exact h.adds.union_left others

theorem gathered_collectAll (hh : c.scope.hierarchy.DotFree) (hp : c.scope.program.DotFree)
    {sites : List CallSite} (hc : c.Canonical)
    (hk : ∀ site ∈ sites, site.instruction ∈ c.sites.keys)
    (hr : ∀ site ∈ sites, ∃ found, c.scope.reach site.target.methodName = .ok found)
    (handled : OrderedSet String) :
    ∃ c' handled', Registry.collectAll c handled sites = .ok (c', handled') ∧
      Gathered c handled c' handled' (⋃ site ∈ sites, c.scope.reached site.target.methodName) := by
  induction sites generalizing c handled with
  | nil => exact ⟨c, handled, rfl, by simpa using Gathered.refl⟩
  | cons site rest ih =>
    obtain ⟨found, hfound⟩ := hr site List.mem_cons_self
    obtain ⟨c₁, handled₁, inner, he, h⟩ :=
      gathered_collect hh hp hc (hk site List.mem_cons_self) hfound handled
    have hs := h.scope_eq
    have hc₁ : c₁.Canonical :=
      hc.union (fun g hg => Scope.has_of_mem_reached hg) hs h.involved_eq
    obtain ⟨c', handled', he', h'⟩ := ih (hs ▸ hh) (hs ▸ hp) hc₁
      (fun x hx => h.sites_eq ▸ hk x (List.mem_cons_of_mem _ hx))
      (fun x hx => hs ▸ hr x (List.mem_cons_of_mem _ hx)) handled₁
    refine ⟨c', handled', ?_, ?_⟩
    · rw [Registry.collectAll, he]
      exact he'
    · rw [biUnion_cons]
      exact h.trans hh hp (hs ▸ h')

end Callee

end CrashSearch
