import CrashSearch.Callee.Basic
import Mathlib.Data.List.Nodup
import Mathlib.Logic.Relation

/-!
# The methods that a call can run

The search for the graphs of a call keeps a list of what it found and a list of what is pending.
It ends with exactly the methods that the called one reaches, each in the version of the nearest
class that declares it.

## Main definitions

* `Hierarchy.lineage`, `CallsIn`, `ReachesIn`: a class with its superclasses, and the calls between
  methods there, where the nearest declaration of a method counts.
* `Scope.Collects`: the search as a recursion from method to method.
* `Scope.Search`: the invariant of the search.

## Main statements

* `Scope.collects_iff`: the recursion ends for every method, with the outcome of the search.
* `Callee.resolve_eq_closure`: the graphs found are those of the methods reached.
-/

namespace CrashSearch

/-- The call graphs of a class and of its superclasses, nearest first. -/
def Hierarchy.lineage (h : Hierarchy) (className : String) : List CallGraph :=
  (className :: h.superclasses className).map h.callGraph

/-- The nearest declaration of `x` in a lineage calls `y`. -/
def CallsIn (lineage : List CallGraph) (x y : String) : Prop :=
  ∃ calls, lineage.find? (·.declares x) = some calls ∧ y ∈ calls.children x

/-- `y` is `x` or is reached from it by calls. -/
def ReachesIn (lineage : List CallGraph) : String → String → Prop :=
  Relation.ReflTransGen (CallsIn lineage)

namespace Scope

variable {s : Scope}

/-! ## The recursion -/

/-- `s.Collects found methods r`: collecting `methods` one after the other on top of what was
`found` has the outcome `r`. A method that is new is found first and then its callees are
collected, before the next of its siblings. -/
inductive Collects (s : Scope) :
    List FlowGraph → List String → Except Error (List FlowGraph) → Prop
  | done {found} : Collects s found [] (.ok found)
  | missing {found m rest e} : s.lookup m = .error e → Collects s found (m :: rest) (.error e)
  | known {found m rest calls g r} : s.lookup m = .ok (calls, g) →
      found.any (·.sameMethod g) = true → Collects s found rest r →
      Collects s found (m :: rest) r
  | failed {found m rest calls g e} : s.lookup m = .ok (calls, g) →
      found.any (·.sameMethod g) = false →
      Collects s (found ++ [g]) (calls.children m) (.error e) →
      Collects s found (m :: rest) (.error e)
  | entered {found m rest calls g next r} : s.lookup m = .ok (calls, g) →
      found.any (·.sameMethod g) = false →
      Collects s (found ++ [g]) (calls.children m) (.ok next) → Collects s next rest r →
      Collects s found (m :: rest) r

theorem visit_missing {found : List FlowGraph} {m : String} {rest : List String} {e : Error}
    (hl : s.lookup m = .error e) : s.visit found (m :: rest) = .error e := by
  rw [visit]
  split
  · simp_all
  · simp_all

theorem visit_known {found : List FlowGraph} {m : String} {rest : List String}
    {calls : CallGraph} {g : FlowGraph} (hl : s.lookup m = .ok (calls, g))
    (hn : found.any (·.sameMethod g) = true) :
    s.visit found (m :: rest) = s.visit found rest := by
  rw [visit]
  split
  · simp_all
  · simp_all

theorem visit_new {found : List FlowGraph} {m : String} {rest : List String}
    {calls : CallGraph} {g : FlowGraph} (hl : s.lookup m = .ok (calls, g))
    (hn : found.any (·.sameMethod g) = false) :
    s.visit found (m :: rest) = s.visit (found ++ [g]) (calls.children m ++ rest) := by
  rw [visit]
  split
  · simp_all
  · simp_all

/-- The pending methods can be visited in two goes. -/
theorem visit_append (found : List FlowGraph) (front back : List String) :
    s.visit found (front ++ back) = s.visit found front >>= (s.visit · back) := by
  fun_induction s.visit found front with
  | case1 => rfl
  | case2 found m rest e hl =>
    rw [List.cons_append, visit_missing hl]
    rfl
  | case3 found m rest calls g hl hn ih => rw [List.cons_append, visit_known hl hn, ih]
  | case4 found m rest calls g hl hn _ ih =>
    rw [List.cons_append, visit_new hl (by simpa using hn), ← List.append_assoc, ih]

/-- A recursion through two lists fails in the first, or goes on with the second on top of it. -/
theorem Collects.split {found : List FlowGraph} {methods : List String}
    {r : Except Error (List FlowGraph)} (h : s.Collects found methods r)
    {front back : List String} (hm : methods = front ++ back) :
    (∃ e, r = .error e ∧ s.Collects found front (.error e)) ∨
      ∃ next, s.Collects found front (.ok next) ∧ s.Collects next back r := by
  induction h generalizing front with
  | done =>
    obtain ⟨rfl, rfl⟩ := List.append_eq_nil_iff.1 hm.symm
    exact .inr ⟨_, .done, .done⟩
  | @missing found m rest e hl =>
    cases front with
    | nil => exact .inr ⟨found, .done, by subst hm; exact .missing hl⟩
    | cons m' front =>
      obtain ⟨rfl, rfl⟩ := List.cons.inj hm
      exact .inl ⟨e, rfl, .missing hl⟩
  | @known found m rest calls g r hl hn hr ih =>
    cases front with
    | nil => exact .inr ⟨found, .done, by subst hm; exact .known hl hn hr⟩
    | cons m' front =>
      obtain ⟨rfl, rfl⟩ := List.cons.inj hm
      rcases ih rfl with ⟨e, he, hf⟩ | ⟨next, hf, hb⟩
      · exact .inl ⟨e, he, .known hl hn hf⟩
      · exact .inr ⟨next, .known hl hn hf, hb⟩
  | @failed found m rest calls g e hl hn hc ih =>
    cases front with
    | nil => exact .inr ⟨found, .done, by subst hm; exact .failed hl hn hc⟩
    | cons m' front =>
      obtain ⟨rfl, rfl⟩ := List.cons.inj hm
      exact .inl ⟨e, rfl, .failed hl hn hc⟩
  | @entered found m rest calls g next r hl hn hc hr _ ih =>
    cases front with
    | nil => exact .inr ⟨found, .done, by subst hm; exact .entered hl hn hc hr⟩
    | cons m' front =>
      obtain ⟨rfl, rfl⟩ := List.cons.inj hm
      rcases ih rfl with ⟨e, he, hf⟩ | ⟨last, hf, hb⟩
      · exact .inl ⟨e, he, .entered hl hn hc hf⟩
      · exact .inr ⟨last, .entered hl hn hc hf, hb⟩

theorem visit_eq_of_collects {found : List FlowGraph} {methods : List String}
    {r : Except Error (List FlowGraph)} (h : s.Collects found methods r) :
    s.visit found methods = r := by
  induction h with
  | done => rw [visit]
  | missing hl => exact visit_missing hl
  | known hl hn _ ih => rw [visit_known hl hn, ih]
  | failed hl hn _ ih =>
    rw [visit_new hl hn, visit_append, ih]
    rfl
  | entered hl hn _ _ ihc ihr =>
    rw [visit_new hl hn, visit_append, ihc]
    exact ihr

theorem collects_visit (found : List FlowGraph) (methods : List String) :
    s.Collects found methods (s.visit found methods) := by
  fun_induction s.visit found methods with
  | case1 => exact .done
  | case2 found m rest e hl => exact .missing hl
  | case3 found m rest calls g hl hn ih => exact .known hl hn ih
  | case4 found m rest calls g hl hn _ ih =>
    have hn : found.any (·.sameMethod g) = false := by simpa using hn
    -- What is pending are the callees of `m` before its siblings, so the recursion is cut there.
    rcases ih.split rfl with ⟨e, he, hc⟩ | ⟨next, hc, hr⟩
    · rw [he]
      exact .failed hl hn hc
    · exact .entered hl hn hc hr

/-- Derivations are finite, so the recursion ends on every program, and it has one outcome. -/
theorem collects_iff {found : List FlowGraph} {methods : List String}
    {r : Except Error (List FlowGraph)} :
    s.Collects found methods r ↔ s.visit found methods = r :=
  ⟨visit_eq_of_collects, fun h => h ▸ collects_visit found methods⟩

/-! ## The invariant of the search -/

theorem declaring?_of_lookup {m : String} {calls : CallGraph} {g : FlowGraph}
    (h : s.lookup m = .ok (calls, g)) : s.declaring? m = some calls := (lookup_names h).1

/-- Graphs found for two names belong to one method only if the names are the same. -/
theorem methodName_of_lookup {m : String} {calls : CallGraph} {g : FlowGraph}
    (h : s.lookup m = .ok (calls, g)) : g.methodName = m := (lookup_names h).2.2

/-- Every graph is the one that its method name resolves to. -/
def Resolved (s : Scope) (found : List FlowGraph) : Prop :=
  ∀ g ∈ found, ∃ calls, s.lookup g.methodName = .ok (calls, g)

/-- What holds between two visits of a search that started at `root`. -/
structure Search (s : Scope) (root : String) (found : List FlowGraph) (pending : List String) :
    Prop where
  resolved : s.Resolved found
  distinct : (found.map (·.methodName)).Nodup
  started : root ∈ found.map (·.methodName) ∨ root ∈ pending
  sound : ∀ x, x ∈ found.map (·.methodName) ∨ x ∈ pending → ReachesIn s.lineage root x
  closed : ∀ x ∈ found.map (·.methodName), ∀ y, CallsIn s.lineage x y →
    y ∈ found.map (·.methodName) ∨ y ∈ pending

theorem Search.initial (root : String) : s.Search root [] [root] where
  resolved := by simp [Resolved]
  distinct := by simp
  started := by simp
  sound x hx := by
    have : x = root := by simpa using hx
    exact this ▸ .refl
  closed := by simp

variable {root m : String} {found : List FlowGraph} {rest : List String}
  {calls : CallGraph} {g : FlowGraph}

/-- Two resolved graphs of one method have one name, so a search by method is one by name. -/
theorem Resolved.known_iff (h : s.Resolved found) (hl : s.lookup m = .ok (calls, g)) :
    found.any (·.sameMethod g) = true ↔ m ∈ found.map (·.methodName) := by
  constructor
  · intro ha
    obtain ⟨f, hf, hs⟩ := List.any_eq_true.1 ha
    have hk := FlowGraph.sameMethod_iff.1 hs
    have : f.methodName = m := (congrArg Prod.snd hk).trans (methodName_of_lookup hl)
    exact this ▸ List.mem_map_of_mem hf
  · intro hm
    obtain ⟨f, hf, rfl⟩ := List.mem_map.1 hm
    obtain ⟨c, hc⟩ := h f hf
    have : f = g := by
      rw [hl] at hc
      cases hc
      rfl
    exact List.any_eq_true.2 ⟨f, hf, FlowGraph.sameMethod_iff.2 (this ▸ rfl)⟩

theorem Search.skip (h : s.Search root found (m :: rest)) (hl : s.lookup m = .ok (calls, g))
    (hn : found.any (·.sameMethod g) = true) : s.Search root found rest := by
  have hm := (h.resolved.known_iff hl).1 hn
  refine ⟨h.resolved, h.distinct, ?_, ?_, ?_⟩
  · have := h.started
    grind
  · intro x hx
    exact h.sound x (by grind)
  · intro x hx y hy
    have := h.closed x hx y hy
    grind

theorem Search.enter (h : s.Search root found (m :: rest)) (hl : s.lookup m = .ok (calls, g))
    (hn : found.any (·.sameMethod g) = false) :
    s.Search root (found ++ [g]) (calls.children m ++ rest) := by
  have hg := methodName_of_lookup hl
  have hm : m ∉ found.map (·.methodName) := fun hm =>
    Bool.false_ne_true (hn.symm.trans ((h.resolved.known_iff hl).2 hm))
  have hreach : ReachesIn s.lineage root m := h.sound m (.inr (by simp))
  have hchild : ∀ y, CallsIn s.lineage m y ↔ y ∈ calls.children m := by
    intro y
    have : s.lineage.find? (·.declares m) = some calls := declaring?_of_lookup hl
    simp [CallsIn, this]
  constructor
  case resolved =>
    intro f hf
    rcases List.mem_append.1 hf with hf | hf
    · exact h.resolved f hf
    · obtain rfl : f = g := by simpa using hf
      exact ⟨calls, hg ▸ hl⟩
  case distinct =>
    rw [List.map_append, List.map_singleton, hg]
    refine List.nodup_append.2 ⟨h.distinct, by simp, fun x hx y hy => ?_⟩
    obtain rfl : y = m := by simpa using hy
    exact fun he => hm (he ▸ hx)
  case started =>
    have := h.started
    grind
  case sound =>
    intro x hx
    by_cases hc : x ∈ calls.children m
    · exact hreach.tail ((hchild x).2 hc)
    · by_cases hxm : x = m
      · exact hxm ▸ hreach
      · exact h.sound x (by grind)
  case closed =>
    intro x hx y hy
    by_cases hxm : x = m
    · exact .inr (List.mem_append_left _ ((hchild y).1 (hxm ▸ hy)))
    · have := h.closed x (by grind) y hy
      grind

/-- What a run keeps: at its end nothing is pending. -/
theorem Search.run {pending : List String} {out : List FlowGraph}
    (h : s.Search root found pending) (hv : s.visit found pending = .ok out) :
    s.Search root out [] := by
  fun_induction s.visit found pending with
  | case1 =>
    cases hv
    exact h
  | case2 => cases hv
  | case3 found m rest calls g hl hn ih => exact ih (h.skip hl hn) hv
  | case4 found m rest calls g hl hn _ ih => exact ih (h.enter hl (by simpa using hn)) hv

/-- A finished search has found the methods reached and no others. -/
theorem Search.mem_names_iff {out : List FlowGraph} (h : s.Search root out []) {x : String} :
    x ∈ out.map (·.methodName) ↔ ReachesIn s.lineage root x := by
  constructor
  · exact fun hx => h.sound x (.inl hx)
  · intro hx
    induction hx with
    | refl => simpa using h.started
    | tail _ hc ih => simpa using h.closed _ ih _ hc

theorem Search.mem_keys_iff {out : List FlowGraph} (h : s.Search root out []) {owner x : String} :
    (owner, x) ∈ out.map FlowGraph.key ↔ ReachesIn s.lineage root x ∧
      ∃ calls, s.lineage.find? (·.declares x) = some calls ∧ owner = calls.className := by
  rw [← h.mem_names_iff]
  constructor
  · intro hk
    obtain ⟨g, hg, he⟩ := List.mem_map.1 hk
    obtain ⟨rfl, rfl⟩ := Prod.mk.inj he
    obtain ⟨calls, hl⟩ := h.resolved g hg
    obtain ⟨hd, hc, -⟩ := lookup_names hl
    exact ⟨List.mem_map_of_mem hg, calls, hd, hc⟩
  · rintro ⟨hx, calls, hd, rfl⟩
    obtain ⟨g, hg, rfl⟩ := List.mem_map.1 hx
    obtain ⟨calls', hl⟩ := h.resolved g hg
    obtain ⟨hd', hc, -⟩ := lookup_names hl
    obtain rfl : calls = calls' := Option.some.inj (hd.symm.trans hd')
    exact List.mem_map.2 ⟨g, hg, by rw [FlowGraph.key, hc]⟩

theorem graph?_of_lookup {m : String} {calls : CallGraph} {g : FlowGraph}
    (h : s.lookup m = .ok (calls, g)) : s.program.graph? g.className g.methodName = some g := by
  obtain ⟨hd, hc, hm⟩ := lookup_names h
  unfold lookup at h
  simp only [hd] at h
  split at h
  · cases h
  · rename_i f hf
    cases h
    rw [hc, hm, hf]

end Scope

namespace Callee

theorem resolve_eq (c : Callee) (m : String) :
    c.resolve m = (c.scope.reach m).map fun found =>
      ({ c with involved := found.foldl involve c.involved }, found) := by
  unfold resolve
  cases c.scope.reach m <;> rfl

theorem reach_of_resolve {c c' : Callee} {m : String} {found : List FlowGraph}
    (h : c.resolve m = .ok (c', found)) : c.scope.reach m = .ok found := by
  rw [resolve_eq] at h
  cases hr : c.scope.reach m with
  | error e => rw [hr] at h; cases h
  | ok graphs => rw [hr] at h; cases h; rfl

/-- A class that takes over a helper of its superclass; both of their methods call themselves. -/
def overriding : Hierarchy :=
  .ofClasses [
    ((ClassInfo.named "Base").withCall "run" "helper").withCall "run" "run",
    ((ClassInfo.named "Derived").withSuperclass "Base").withCall "helper" "helper"]

def overridden : Callee :=
  .ofScope (.ofClass overriding
    (((Program.empty.insertGraph (.make "Base" "run" [])).insertGraph
      (.make "Base" "helper" [])).insertGraph (.make "Derived" "helper" []))
    .default "Derived")

theorem overriding_superclasses : overriding.superclasses "Derived" = ["Base"] := by
  have hd : overriding.superclass? "Derived" = some "Base" := rfl
  have hb : overriding.superclass? "Base" = none := rfl
  unfold Hierarchy.superclasses
  rw [Hierarchy.chain]
  split
  · simp_all
  · rename_i s hs
    obtain rfl : s = "Base" := Option.some.inj (hs.symm.trans hd)
    rw [dif_neg (by decide), Hierarchy.chain]
    split
    · rfl
    · simp_all

theorem overridden_lineage : overridden.scope.lineage =
    [⟨"Derived", [⟨"helper", ["helper"]⟩]⟩,
      ⟨"Base", [⟨"helper", []⟩, ⟨"run", ["helper", "run"]⟩]⟩] := by
  show ("Derived" :: overriding.superclasses "Derived").map overriding.callGraph = _
  rw [overriding_superclasses]
  decide

theorem overridden_reach : overridden.scope.reach "run" =
    .ok [.make "Base" "run" [], .make "Derived" "helper" []] := by
  have hrun : overridden.scope.lookup "run" =
      .ok (⟨"Base", [⟨"helper", []⟩, ⟨"run", ["helper", "run"]⟩]⟩, .make "Base" "run" []) := by
    simp only [Scope.lookup, Scope.declaring?, overridden_lineage]
    rfl
  have hhelper : overridden.scope.lookup "helper" =
      .ok (⟨"Derived", [⟨"helper", ["helper"]⟩]⟩, .make "Derived" "helper" []) := by
    simp only [Scope.lookup, Scope.declaring?, overridden_lineage]
    rfl
  refine Scope.collects_iff.1 (.entered hrun rfl ?_ .done)
  refine .entered hhelper rfl (.known hhelper rfl .done) ?_
  exact .known hrun rfl .done

/-- Resolving a method ends on every hierarchy, and the graphs it finds are exactly those of the
methods that the called one reaches, each once and in the version of the nearest class that
declares it. -/
theorem resolve_eq_closure {h : Hierarchy} {p : Program} {session : Session} {className : String}
    (c : Callee) (hc : c.scope = .ofClass h p session className) (m : String) :
    (∃ r, (∀ r', c.scope.Collects [] [m] r' ↔ r' = r) ∧
      c.resolve m = r.map fun found =>
        ({ c with involved := found.foldl involve c.involved }, found)) ∧
    ∀ c' found, c.resolve m = .ok (c', found) →
      (∀ owner x, (owner, x) ∈ found.map FlowGraph.key ↔
        ReachesIn (h.lineage className) m x ∧
          ∃ calls, (h.lineage className).find? (·.declares x) = some calls ∧
            owner = calls.className) ∧
      (∀ g ∈ found, p.graph? g.className g.methodName = some g) ∧
      (found.map FlowGraph.key).Nodup ∧
      (found.map (·.methodName)).Nodup := by
  constructor
  · refine ⟨c.scope.reach m, ?_, resolve_eq c m⟩
    intro r
    rw [Scope.collects_iff]
    exact eq_comm
  · intro c' found hr
    have hs : c.scope.Search m found [] := (Scope.Search.initial m).run (reach_of_resolve hr)
    have hline : c.scope.lineage = h.lineage className := by rw [hc]; rfl
    have hprog : c.scope.program = p := by rw [hc]; rfl
    refine ⟨?_, ?_, ?_, hs.distinct⟩
    · intro owner x
      exact hline ▸ hs.mem_keys_iff
    · intro g hg
      obtain ⟨calls, hl⟩ := hs.resolved g hg
      exact hprog ▸ Scope.graph?_of_lookup hl
    · have hnames : (found.map FlowGraph.key).map Prod.snd = found.map (·.methodName) := by
        simp [FlowGraph.key]
      exact List.Nodup.of_map Prod.snd (hnames ▸ hs.distinct)

theorem overridden_resolve : ∃ c' found, overridden.resolve "run" = .ok (c', found) ∧
    found.map FlowGraph.key = [("Base", "run"), ("Derived", "helper")] ∧
    (∀ owner x, (owner, x) ∈ found.map FlowGraph.key ↔
      ReachesIn overridden.scope.lineage "run" x ∧
        ∃ calls, overridden.scope.lineage.find? (·.declares x) = some calls ∧
          owner = calls.className) := by
  obtain ⟨c', hr⟩ : ∃ c', overridden.resolve "run" =
      .ok (c', [.make "Base" "run" [], .make "Derived" "helper" []]) := by
    rw [resolve_eq, overridden_reach]
    exact ⟨_, rfl⟩
  exact ⟨c', _, hr, rfl, ((resolve_eq_closure overridden rfl "run").2 _ _ hr).1⟩

end Callee

end CrashSearch
