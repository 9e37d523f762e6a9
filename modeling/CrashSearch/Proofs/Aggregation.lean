import CrashSearch.Proofs.InnerKeys
import CrashSearch.Proofs.Reach

/-!
# The branches of a call site

What collecting the branches of a call site does, as equations between sets. The names handled so
far change while the graphs of the call are still being worked through, but as no two inner methods
share a name, the sets do not show the order of that work.

## Main definitions

* `Callee.branchSet`: the branches of a call site.
* `Callee.Collected`: what collecting does to a class and to the names handled.

## Main statements

* `Callee.collect_effect`: the branches, names and inner methods after collecting for a call site.
-/

namespace CrashSearch

namespace OrderedSet

variable {α : Type} [LT α] {a : α} {s : OrderedSet α}

/-- The elements of an ordered set. -/
def toSet (s : OrderedSet α) : Set α := {a | a ∈ s}

theorem mem_toSet : a ∈ s.toSet ↔ a ∈ s := Iff.rfl

@[simp] theorem toSet_empty : (empty : OrderedSet α).toSet = ∅ := by
  ext a
  simp [mem_toSet]

@[simp] theorem toSet_insert [DecidableLT α] [LE α] [Std.IsLinearOrder α] [Std.LawfulOrderLT α] :
    (s.insert a).toSet = s.toSet ∪ {a} := by
  ext x
  simp [mem_toSet]

end OrderedSet

namespace Scope

/-- The inner methods that the methods of some graphs call, collected graph by graph. -/
def innerMethodsOf (s : Scope) (graphs : List FlowGraph) : InnerMethods :=
  graphs.foldl (fun found g => found.merge (s.innerMethods g)) .empty

theorem toSet_foldl_merge {s : Scope} (graphs : List FlowGraph) (found : InnerMethods) :
    (graphs.foldl (fun found g => found.merge (s.innerMethods g)) found).toSet =
      found.toSet ∪ s.detected {g | g ∈ graphs} := by
  induction graphs generalizing found with
  | nil => simp [detected]
  | cons g rest ih =>
    rw [List.foldl_cons, ih, InnerMethods.toSet_merge nodup_keys_innerMethods,
      List.setOfPred_mem_cons, Set.insert_eq, detected_union, detected_singleton, Set.union_assoc]

theorem toSet_innerMethodsOf {s : Scope} {graphs : List FlowGraph} :
    (s.innerMethodsOf graphs).toSet = s.detected {g | g ∈ graphs} := by
  rw [innerMethodsOf, toSet_foldl_merge, InnerMethods.toSet_empty, Set.empty_union]

end Scope

namespace Callee

variable {c c' c'' : Callee} {site i : InstructionId} {bs : List Branch}
  {handled handled' handled'' : OrderedSet String} {graphs graphs' : Set FlowGraph}
  {inner inner' : Set (String × String)}

/-! ## Adding branches -/

/-- The branches of a call site as a set. -/
def branchSet (c : Callee) (i : InstructionId) : Set Branch := {b | b ∈ c.branchesOf i}

theorem mem_branchSet {b : Branch} : b ∈ c.branchSet i ↔ b ∈ c.branchesOf i := Iff.rfl

@[simp] theorem branchSet_ofScope {s : Scope} : (ofScope s).branchSet i = ∅ := by
  ext b
  simp [mem_branchSet, branchesOf, ofScope]

theorem branchesOf_addBranches : (c.addBranches site bs).branchesOf i =
    if i = site then bs.foldl (fun l b => l.insert b) (c.branchesOf site) else c.branchesOf i := by
  unfold branchesOf addBranches
  rw [Assoc.get?_insert]
  split <;> rfl

theorem mem_foldl_insert {b : Branch} (l : List Branch) :
    b ∈ bs.foldl (fun l b => l.insert b) l ↔ b ∈ l ∨ b ∈ bs := by
  induction bs generalizing l with
  | nil => simp
  | cons a bs ih => simp [ih, or_assoc, or_left_comm]

theorem branchSet_addBranches : (c.addBranches site bs).branchSet site =
    c.branchSet site ∪ {b | b ∈ bs} := by
  ext b
  rw [mem_branchSet, branchesOf_addBranches, if_pos rfl, mem_foldl_insert]
  rfl

theorem branchSet_addBranches_of_ne (h : i ≠ site) :
    (c.addBranches site bs).branchSet i = c.branchSet i := by
  ext b
  rw [mem_branchSet, branchesOf_addBranches, if_neg h, mem_branchSet]

/-- The branches of the call site are those that were written last. -/
def Written (c : Callee) (site : InstructionId) : Prop :=
  c.branches.insert site (c.branchesOf site) = c.branches

theorem written_addBranches : (c.addBranches site bs).Written site := by
  rw [Written, branchesOf_addBranches, if_pos rfl]
  exact Assoc.insert_insert

theorem foldl_insert_eq_self {l : List Branch} (h : ∀ b ∈ bs, b ∈ l) :
    bs.foldl (fun l b => l.insert b) l = l := by
  induction bs with
  | nil => rfl
  | cons b bs ih =>
    rw [List.foldl_cons, List.insert_of_mem (h b List.mem_cons_self)]
    exact ih fun x hx => h x (List.mem_cons_of_mem _ hx)

theorem addBranches_eq_self (hw : c.Written site) (h : ∀ b ∈ bs, b ∈ c.branchesOf site) :
    c.addBranches site bs = c := by
  unfold addBranches
  rw [foldl_insert_eq_self h, hw]

/-! ## Adding graphs and inner methods -/

/-- Some graphs and inner methods are taken in for a call site. Only its branches change. -/
structure Collected (site : InstructionId) (c : Callee) (handled : OrderedSet String)
    (c' : Callee) (handled' : OrderedSet String) (graphs : Set FlowGraph)
    (inner : Set (String × String)) : Prop where
  same : c' = { c with branches := c'.branches }
  others : ∀ i ≠ site, c'.branchSet i = c.branchSet i
  adds : c.scope.program.Adds (c.branchSet site) handled.toSet graphs inner
    (c'.branchSet site) handled'.toSet

namespace Collected

theorem refl : Collected site c handled c handled ∅ ∅ := ⟨rfl, fun _ _ => rfl, .refl⟩

theorem scope_eq (h : Collected site c handled c' handled' graphs inner) : c'.scope = c.scope := by
  rw [h.same]

theorem trans (h : Collected site c handled c' handled' graphs inner)
    (h' : Collected site c' handled' c'' handled'' graphs' inner')
    (hi : DotFreeMethods inner) (hi' : DotFreeMethods inner') :
    Collected site c handled c'' handled'' (graphs ∪ graphs') (inner ∪ inner') where
  same := by
    rw [h'.same, h.same]
  others i hi := (h'.others i hi).trans (h.others i hi)
  adds := h.adds.trans (h.scope_eq ▸ h'.adds) hi hi'

theorem addGraph {g : FlowGraph} : Collected site c handled
    (c.addBranches site (graphBranches c.scope.program g)) handled {g} ∅ where
  same := rfl
  others _ hi := branchSet_addBranches_of_ne hi
  adds := {
    branches_eq := by
      ext b
      simp [branchSet_addBranches, Program.mem_graphBranches, Program.mem_innerBranches]
    handled_eq := by simp [innerKeys] }

theorem known {x : String × String} (h : innerKey x.1 x.2 ∈ handled) :
    Collected site c handled c handled ∅ {x} where
  same := rfl
  others _ _ := rfl
  adds := {
    branches_eq := by
      ext b
      simp [Program.mem_innerBranches, OrderedSet.mem_toSet, h]
    handled_eq := by simp [innerKeys, OrderedSet.mem_toSet, h] }

theorem new {x : String × String} (h : innerKey x.1 x.2 ∉ handled) : Collected site c handled
    (c.addBranches site (match c.scope.program.graph? x.1 x.2 with
      | some g => graphBranches c.scope.program g
      | none => [])) (handled.insert (innerKey x.1 x.2)) ∅ {x} where
  same := rfl
  others _ hi := branchSet_addBranches_of_ne hi
  adds := {
    branches_eq := by
      ext b
      cases hg : c.scope.program.graph? x.1 x.2 with
      | none => simp [branchSet_addBranches, Program.mem_innerBranches, hg]
      | some g =>
        simp [branchSet_addBranches, Program.mem_innerBranches, Program.mem_graphBranches, hg,
          OrderedSet.mem_toSet, h]
    handled_eq := by simp [innerKeys] }

end Collected

/-! ## Collecting -/

theorem collected_handleInner (site : InstructionId) (pairs : List (String × String))
    (hd : DotFreeMethods {x | x ∈ pairs}) (c : Callee) (handled : OrderedSet String) :
    ∃ c' handled', handleInner site (c, handled) pairs = (c', handled') ∧
      Collected site c handled c' handled' ∅ {x | x ∈ pairs} := by
  induction pairs generalizing c handled with
  | nil => exact ⟨c, handled, rfl, by simpa using Collected.refl⟩
  | cons x rest ih =>
    have hx : DotFreeMethods {x} := fun y hy => hd y (hy ▸ List.mem_cons_self)
    have hrest : DotFreeMethods {y | y ∈ rest} := fun y hy => hd y (List.mem_cons_of_mem _ hy)
    rw [List.setOfPred_mem_cons, Set.insert_eq, ← Set.union_self ∅, handleInner]
    dsimp only
    split
    · rename_i hkey
      obtain ⟨c', handled', he, h⟩ := ih hrest c handled
      exact ⟨c', handled', he, (Collected.known hkey).trans h hx hrest⟩
    · rename_i hkey
      obtain ⟨c', handled', he, h⟩ := ih hrest _ _
      exact ⟨c', handled', he, (Collected.new hkey).trans h hx hrest⟩

theorem collected_collectGraph (site : InstructionId) (hh : c.scope.hierarchy.DotFree)
    (hp : c.scope.program.DotFree) (handled : OrderedSet String) (found : InnerMethods)
    (g : FlowGraph) :
    ∃ c' handled', collectGraph site (c, handled, found) g =
        (c', handled', found.merge (c.scope.innerMethods g)) ∧
      Collected site c handled c' handled' {g} (c.scope.detected {g}) := by
  have hinner := Scope.dotFree_innerMethods (g := g) hh hp
  have hpairs : {x | x ∈ (c.scope.innerMethods g).pairs} = (c.scope.innerMethods g).toSet := by
    ext x
    exact InnerMethods.mem_pairs Scope.nodup_keys_innerMethods
  obtain ⟨c₁, handled', he, h⟩ := collected_handleInner site _ (hpairs ▸ hinner) c handled
  rw [hpairs] at h
  refine ⟨c₁.addBranches site (graphBranches c₁.scope.program g), handled', ?_, ?_⟩
  · simp only [collectGraph, he]
  · simpa [Scope.detected_singleton] using h.trans Collected.addGraph hinner fun _ => False.elim

theorem collected_foldl (site : InstructionId) (hh : c.scope.hierarchy.DotFree)
    (hp : c.scope.program.DotFree) (graphs : List FlowGraph) (handled : OrderedSet String)
    (found : InnerMethods) :
    ∃ c' handled', graphs.foldl (collectGraph site) (c, handled, found) =
        (c', handled', graphs.foldl (fun found g => found.merge (c.scope.innerMethods g)) found) ∧
      Collected site c handled c' handled' {g | g ∈ graphs}
        (c.scope.detected {g | g ∈ graphs}) := by
  induction graphs generalizing c handled found with
  | nil => exact ⟨c, handled, rfl, by simpa [Scope.detected] using Collected.refl⟩
  | cons g rest ih =>
    obtain ⟨c₁, handled₁, he, h⟩ := collected_collectGraph site hh hp handled found g
    have hs := h.scope_eq
    obtain ⟨c', handled', he', h'⟩ := ih (c := c₁) (hs ▸ hh) (hs ▸ hp) handled₁ _
    rw [hs] at he' h'
    refine ⟨c', handled', ?_, ?_⟩
    · rw [List.foldl_cons, he, he']
      rfl
    · rw [List.setOfPred_mem_cons, Set.insert_eq, Scope.detected_union]
      exact h.trans h' (Scope.dotFree_detected hh hp _) (Scope.dotFree_detected hh hp _)

/-! ## Collecting again -/

theorem handleInner_eq_self {pairs : List (String × String)}
    (h : ∀ x ∈ pairs, innerKey x.1 x.2 ∈ handled) :
    handleInner site (c, handled) pairs = (c, handled) := by
  induction pairs with
  | nil => rfl
  | cons x rest ih =>
    unfold handleInner
    dsimp only
    rw [if_pos (h x List.mem_cons_self)]
    exact ih fun y hy => h y (List.mem_cons_of_mem _ hy)

theorem written_collectGraph (state : Callee × OrderedSet String × InnerMethods) (g : FlowGraph) :
    (collectGraph site state g).1.Written site := written_addBranches

theorem written_foldl {graphs : List FlowGraph} (hg : graphs ≠ [])
    (state : Callee × OrderedSet String × InnerMethods) :
    (graphs.foldl (collectGraph site) state).1.Written site := by
  rw [← List.dropLast_append_getLast hg, List.foldl_append]
  exact written_collectGraph _ _

theorem foldl_collectGraph_eq_self {graphs : List FlowGraph}
    (hw : graphs ≠ [] → c.Written site)
    (hb : ∀ g ∈ graphs, c.scope.program.branchSet g ⊆ c.branchSet site)
    (hk : ∀ g ∈ graphs, innerKeys (c.scope.innerMethods g).toSet ⊆ handled.toSet)
    (found : InnerMethods) :
    graphs.foldl (collectGraph site) (c, handled, found) =
      (c, handled, graphs.foldl (fun found g => found.merge (c.scope.innerMethods g)) found) := by
  induction graphs generalizing found with
  | nil => rfl
  | cons g rest ih =>
    have hinner : handleInner site (c, handled) (c.scope.innerMethods g).pairs = (c, handled) := by
      refine handleInner_eq_self fun x hx => ?_
      refine hk g List.mem_cons_self ⟨x, ?_, rfl⟩
      exact (InnerMethods.mem_pairs Scope.nodup_keys_innerMethods).1 hx
    have hgraph : c.addBranches site (graphBranches c.scope.program g) = c := by
      refine addBranches_eq_self (hw (List.cons_ne_nil _ _)) fun b hbg => ?_
      exact hb g List.mem_cons_self (Program.mem_graphBranches.1 hbg)
    have hstep : collectGraph site (c, handled, found) g =
        (c, handled, found.merge (c.scope.innerMethods g)) := by
      simp only [collectGraph, hinner, hgraph]
    rw [List.foldl_cons, hstep, List.foldl_cons]
    refine ih (fun _ => hw (List.cons_ne_nil _ _)) ?_ ?_ _
    · exact fun g hg => hb g (List.mem_cons_of_mem _ hg)
    · exact fun g hg => hk g (List.mem_cons_of_mem _ hg)

/-! ## Involving graphs -/

theorem mem_keys_involve {l : List FlowGraph} {g : FlowGraph} {k : String × String} :
    k ∈ (involve l g).map FlowGraph.key ↔ k ∈ l.map FlowGraph.key ∨ k = g.key := by
  unfold involve
  split
  · rename_i h
    obtain ⟨f, hf, hs⟩ := List.any_eq_true.1 h
    have hg : g.key ∈ l.map FlowGraph.key := FlowGraph.sameMethod_iff.1 hs ▸ List.mem_map_of_mem hf
    exact ⟨.inl, fun hk => hk.elim id fun hk => hk ▸ hg⟩
  · simp

theorem mem_keys_foldl_involve {found : List FlowGraph} {k : String × String}
    (l : List FlowGraph) : k ∈ (found.foldl involve l).map FlowGraph.key ↔
      k ∈ l.map FlowGraph.key ∨ k ∈ found.map FlowGraph.key := by
  induction found generalizing l with
  | nil => simp
  | cons g rest ih =>
    rw [List.foldl_cons, ih, mem_keys_involve, List.map_cons, List.mem_cons, or_assoc]

theorem foldl_involve_eq_self {l found : List FlowGraph}
    (h : ∀ g ∈ found, g.key ∈ l.map FlowGraph.key) : found.foldl involve l = l := by
  induction found with
  | nil => rfl
  | cons g rest ih =>
    have hg : involve l g = l := by
      obtain ⟨f, hf, hk⟩ := List.mem_map.1 (h g List.mem_cons_self)
      have hany : l.any (·.sameMethod g) = true :=
        List.any_eq_true.2 ⟨f, hf, FlowGraph.sameMethod_iff.2 hk⟩
      rw [involve, if_pos hany]
    rw [List.foldl_cons, hg]
    exact ih fun x hx => h x (List.mem_cons_of_mem _ hx)

/-! ## The effect of collecting -/

theorem collect_of_resolve {s : CallSite} {c₁ : Callee} {found : List FlowGraph}
    (h : c.resolve s.target.methodName = .ok (c₁, found)) : c.collect s handled =
      .ok (found.foldl (collectGraph s.instruction) (c₁, handled, .empty)) := by
  rw [collect, h]
  rfl

theorem resolve_of_reach {m : String} {found : List FlowGraph} (h : c.scope.reach m = .ok found) :
    c.resolve m = .ok ({ c with involved := found.foldl involve c.involved }, found) := by
  rw [resolve_eq, h]
  rfl

theorem collected_collect {s : CallSite} {found : List FlowGraph}
    (hh : c.scope.hierarchy.DotFree) (hp : c.scope.program.DotFree)
    (hr : c.scope.reach s.target.methodName = .ok found) (handled : OrderedSet String) :
    ∃ c' handled', c.collect s handled = .ok (c', handled', c.scope.innerMethodsOf found) ∧
      Collected s.instruction { c with involved := found.foldl involve c.involved } handled
        c' handled' {g | g ∈ found} (c.scope.detected {g | g ∈ found}) := by
  obtain ⟨c', handled', he, h⟩ := collected_foldl s.instruction
    (c := { c with involved := found.foldl involve c.involved }) hh hp found handled .empty
  refine ⟨c', handled', ?_, h⟩
  rw [collect_of_resolve (resolve_of_reach hr), he]
  rfl

theorem exists_of_collect {s : CallSite} {inner : InnerMethods} (hh : c.scope.hierarchy.DotFree)
    (hp : c.scope.program.DotFree) (h : c.collect s handled = .ok (c', handled', inner)) :
    ∃ found, c.scope.reach s.target.methodName = .ok found ∧ inner = c.scope.innerMethodsOf found ∧
      Collected s.instruction { c with involved := found.foldl involve c.involved } handled
        c' handled' {g | g ∈ found} (c.scope.detected {g | g ∈ found}) := by
  cases hr : c.scope.reach s.target.methodName with
  | error e =>
    rw [collect, resolve_eq, hr] at h
    cases h
  | ok found =>
    obtain ⟨c₁, handled₁, he, hc⟩ := collected_collect hh hp hr handled
    rw [he] at h
    cases h
    exact ⟨found, rfl, rfl, hc⟩

/-- All that a first run brings is there, so a second one finds nothing to add. -/
theorem collect_again {s : CallSite} {inner : InnerMethods} (hh : c.scope.hierarchy.DotFree)
    (hp : c.scope.program.DotFree) (h : c.collect s handled = .ok (c', handled', inner)) :
    c'.collect s handled' = .ok (c', handled', inner) := by
  obtain ⟨found, hr, rfl, hc⟩ := exists_of_collect hh hp h
  have hs : c'.scope = c.scope := hc.scope_eq
  have hinvolved : c'.involved = found.foldl involve c.involved := by rw [hc.same]
  have hw : found ≠ [] → c'.Written s.instruction := by
    intro hne
    have hrun := Except.ok.inj ((collect_of_resolve (resolve_of_reach hr)).symm.trans h)
    change Written (c', handled', c.scope.innerMethodsOf found).1 s.instruction
    rw [← hrun]
    exact written_foldl hne _
  have hresolve : c'.resolve s.target.methodName = .ok (c', found) := by
    rw [resolve_of_reach (hs.symm ▸ hr), foldl_involve_eq_self]
    intro g hg
    rw [hinvolved, mem_keys_foldl_involve]
    exact .inr (List.mem_map_of_mem hg)
  have hb : ∀ g ∈ found, c'.scope.program.branchSet g ⊆ c'.branchSet s.instruction := by
    intro g hg b hgb
    rw [hc.adds.branches_eq]
    exact .inl (.inr (Set.mem_iUnion₂.2 ⟨g, hg, hs ▸ hgb⟩))
  have hk : ∀ g ∈ found, innerKeys (c'.scope.innerMethods g).toSet ⊆ handled'.toSet := by
    rintro g hg _ ⟨x, hx, rfl⟩
    rw [hc.adds.handled_eq]
    exact .inr ⟨x, Set.mem_iUnion₂.2 ⟨g, hg, hs ▸ hx⟩, rfl⟩
  rw [collect_of_resolve hresolve, foldl_collectGraph_eq_self hw hb hk, hs]
  rfl

/-! ## A class with an inner class -/

/-- A method with a branch that calls into an inner class. -/
def outerRun : FlowGraph :=
  .make "Outer" "run" [⟨0, none, .branch⟩, ⟨1, none, .invoke ⟨"Outer$In", "go", []⟩⟩]

def innerGo : FlowGraph := .make "Outer$In" "go" [⟨0, none, .switch⟩]

def innerStep : FlowGraph := .make "Outer$In" "step" [⟨0, none, .branch⟩]

def runBranch : Branch := ⟨1, ⟨"Outer", "run", 0⟩, none⟩

def goBranch : Branch := ⟨2, ⟨"Outer$In", "go", 0⟩, some .default⟩

def stepBranch : Branch := ⟨3, ⟨"Outer$In", "step", 0⟩, none⟩

/-- One method of the inner class calls the two others. -/
def nestingClasses : Hierarchy :=
  .ofClasses [(ClassInfo.named "Outer").withMethod "run",
    (ClassInfo.named "Sub").withSuperclass "Outer",
    ((ClassInfo.named "Outer$In").withCall "go" "step").withCall "go" "lost"]

/-- The method `lost` has no graph. -/
def nestingProgram : Program :=
  ((((((Program.empty.insertGraph outerRun).insertGraph innerGo).insertGraph innerStep).addBranch
    runBranch).addSwitch goBranch.instruction [goBranch]).addBranch stepBranch)

def nestingScope (className : String) : Scope :=
  .ofClass nestingClasses nestingProgram .default className

@[simp] theorem program_nestingScope {className : String} :
    (nestingScope className).program = nestingProgram := rfl

def runSite : CallSite := ⟨⟨"Client", "main", 0⟩, ⟨"Outer", "run", []⟩⟩

theorem nestingClasses_dotFree : nestingClasses.DotFree := by
  have hentries : ∀ e ∈ nestingClasses.classes.entries, ∀ call ∈ e.2.calls,
      '.' ∉ call.2.toList := by decide
  intro name c hc
  obtain ⟨e, he, rfl⟩ := Option.map_eq_some_iff.1 hc
  exact hentries e (List.mem_of_find?_eq_some he)

theorem nestingProgram_dotFree : nestingProgram.DotFree := by
  unfold Program.DotFree
  decide

theorem reach_run {className : String}
    (hd : (nestingScope className).declaring? "run" = some ⟨"Outer", [⟨"run", []⟩]⟩) :
    (nestingScope className).reach "run" = .ok [outerRun] := by
  have hrun : (nestingScope className).lookup "run" =
      .ok (⟨"Outer", [⟨"run", []⟩]⟩, outerRun) := by
    rw [Scope.lookup, hd]
    rfl
  exact Scope.collects_iff.1 (.entered hrun rfl .done .done)

theorem outer_reach : (nestingScope "Outer").reach "run" = .ok [outerRun] := by
  have hs : nestingClasses.superclasses "Outer" = [] := Hierarchy.chain_eq_nil rfl _
  have hline : (nestingScope "Outer").lineage = ["Outer"].map nestingClasses.callGraph := by
    rw [← hs]
    rfl
  exact reach_run (by rw [Scope.declaring?, hline]; decide)

theorem innerMethods_outerRun (className : String) :
    (nestingScope className).innerMethods outerRun =
      ⟨[("Outer$In", .ofList ["go", "lost", "step"])]⟩ := by
  have hchildren : (nestingClasses.callGraph "Outer$In").children "go" = ["step", "lost"] := by
    decide
  have hspread : (nestingClasses.callGraph "Outer$In").spread .empty ["go"] =
      .ofList ["go", "lost", "step"] := by
    rw [CallGraph.spread_cons, if_neg (by decide), hchildren]
    change CallGraph.spread _ _ ["step", "lost"] = _
    rw [CallGraph.spread_cons, if_neg (by decide)]
    change CallGraph.spread _ _ ["lost"] = _
    rw [CallGraph.spread_cons, if_neg (by decide)]
    change CallGraph.spread _ _ [] = _
    rw [CallGraph.spread_nil]
    decide
  have hinner : (nestingScope className).addInner .empty "Outer$In" "go" =
      ⟨[("Outer$In", .ofList ["go", "lost", "step"])]⟩ := by
    change Assoc.insert _ _ ((nestingClasses.callGraph "Outer$In").spread .empty ["go"]) = _
    rw [hspread]
    rfl
  rw [← hinner]
  rfl

theorem detected_outerRun (className : String) : (nestingScope className).detected {outerRun} =
    {("Outer$In", "go"), ("Outer$In", "lost"), ("Outer$In", "step")} := by
  rw [Scope.detected_singleton, innerMethods_outerRun]
  ext ⟨c, m⟩
  simp [InnerMethods.mem_toSet_iff, Assoc.keys, and_or_left]

theorem branchSet_outerRun : nestingProgram.branchSet outerRun = {runBranch} := by
  have h : graphBranches nestingProgram outerRun = [runBranch] := by decide
  ext b
  rw [← Program.mem_graphBranches, h, List.mem_singleton, Set.mem_singleton_iff]

theorem innerBranches_outerRun {b : Branch} {handled : Set String} :
    b ∈ nestingProgram.innerBranches handled
        {("Outer$In", "go"), ("Outer$In", "lost"), ("Outer$In", "step")} ↔
      "Outer$In.go" ∉ handled ∧ b = goBranch ∨ "Outer$In.step" ∉ handled ∧ b = stepBranch := by
  have hgo : nestingProgram.graph? "Outer$In" "go" = some innerGo := by decide
  have hlost : nestingProgram.graph? "Outer$In" "lost" = none := by decide
  have hstep : nestingProgram.graph? "Outer$In" "step" = some innerStep := by decide
  have hgo' : graphBranches nestingProgram innerGo = [goBranch] := by decide
  have hstep' : graphBranches nestingProgram innerStep = [stepBranch] := by decide
  simp [Program.mem_innerBranches, ← Program.mem_graphBranches, hgo, hlost, hstep, hgo', hstep',
    innerKey]

/-! ## The effect -/

/-- What collecting the branches of a call site does, wherever it succeeds: the site gains the
branches of the graphs that its call resolves to and of the inner methods found in them that were
not handled, these are handled from then on, and nothing else changes. Collecting again brings
the same inner methods and changes nothing at all. -/
theorem collect_effect {s : CallSite} {inner : InnerMethods} (hh : c.scope.hierarchy.DotFree)
    (hp : c.scope.program.DotFree) (h : c.collect s handled = .ok (c', handled', inner)) :
    ∃ c₁ found, c.resolve s.target.methodName = .ok (c₁, found) ∧
      inner.toSet = ⋃ g ∈ found, (c.scope.innerMethods g).toSet ∧
      c'.branchSet s.instruction = c.branchSet s.instruction ∪
        (⋃ g ∈ found, c.scope.program.branchSet g) ∪
        c.scope.program.innerBranches handled.toSet inner.toSet ∧
      (∀ i ≠ s.instruction, c'.branchSet i = c.branchSet i) ∧
      handled'.toSet = handled.toSet ∪ innerKeys inner.toSet ∧
      c' = { c₁ with branches := c'.branches } ∧
      c'.collect s handled' = .ok (c', handled', inner) := by
  obtain ⟨found, hr, rfl, hc⟩ := exists_of_collect hh hp h
  refine ⟨_, found, resolve_of_reach hr, Scope.toSet_innerMethodsOf, ?_⟩
  rw [Scope.toSet_innerMethodsOf]
  exact ⟨hc.adds.branches_eq, hc.others, hc.adds.handled_eq, hc.same, collect_again hh hp h⟩

theorem outer_collect : ∃ c' handled' inner,
    nestingClasses.DotFree ∧ nestingProgram.DotFree ∧
    (ofScope (nestingScope "Outer")).collect runSite (.ofList ["Outer$In.step"]) =
      .ok (c', handled', inner) ∧
    inner.toSet = {("Outer$In", "go"), ("Outer$In", "lost"), ("Outer$In", "step")} ∧
    c'.branchSet runSite.instruction = {runBranch, goBranch} ∧
    handled'.toSet = {"Outer$In.step", "Outer$In.go", "Outer$In.lost"} ∧
    c'.collect runSite handled' = .ok (c', handled', inner) := by
  obtain ⟨c', handled', hc, -⟩ := collected_collect (c := ofScope (nestingScope "Outer"))
    (s := runSite) nestingClasses_dotFree nestingProgram_dotFree outer_reach
    (.ofList ["Outer$In.step"])
  have hinner : ((nestingScope "Outer").innerMethodsOf [outerRun]).toSet =
      {("Outer$In", "go"), ("Outer$In", "lost"), ("Outer$In", "step")} := by
    simp [Scope.toSet_innerMethodsOf, detected_outerRun]
  obtain ⟨c₁, found, hr, -, hb, -, hk, -, hagain⟩ :=
    collect_effect nestingClasses_dotFree nestingProgram_dotFree hc
  refine ⟨c', handled', _, nestingClasses_dotFree, nestingProgram_dotFree, hc, hinner, ?_, ?_,
    hagain⟩
  · cases hr.symm.trans (resolve_of_reach outer_reach)
    ext b
    rw [hb]
    simp [hinner, branchSet_outerRun, innerBranches_outerRun]
  · rw [hk]
    ext x
    simp [hinner, innerKeys, innerKey]
    grind

end Callee

end CrashSearch
