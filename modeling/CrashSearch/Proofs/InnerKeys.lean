import CrashSearch.Callee.Basic
import Mathlib.Data.List.TakeWhile
import Mathlib.Data.Set.Lattice

/-!
# Inner methods and the names they are handled under

An inner method is handled under the name `class.method`. Where no method name contains a dot, no
two inner methods share such a name, so the names handled so far tell which inner methods have
their branches still to be added, and adding can be done in steps.

## Main definitions

* `Hierarchy.DotFree`, `Program.DotFree`: no method name contains a dot.
* `InnerMethods.toSet`: the inner methods of a collection, as pairs of class and method.
* `Program.branchSet`, `Program.innerBranches`: the branches of a graph, and those of the inner
  methods that are not handled.
* `Program.Adds`: what taking in graphs and inner methods does to some branches and to the names
  that are handled.
* `Scope.detected`: the inner methods that some graphs call.

## Main statements

* `Scope.dotFree_innerMethods`: no inner method has a dot in its name.
* `Program.Adds.trans`: taking in twice is taking in once what both times bring.
-/

namespace CrashSearch

/-! ## Names without dots -/

/-- No method that is called has a dot in its name. -/
def Hierarchy.DotFree (h : Hierarchy) : Prop :=
  ∀ name c, h.find? name = some c → ∀ call ∈ c.calls, '.' ∉ call.2.toList

/-- No method that has a graph has a dot in its name. -/
def Program.DotFree (p : Program) : Prop := ∀ g ∈ p.graphs, '.' ∉ g.methodName.toList

theorem Program.DotFree.method_of_graph? {p : Program} (hp : p.DotFree) {className method : String}
    {g : FlowGraph} (hg : p.graph? className method = some g) : '.' ∉ method.toList := by
  have hname := List.find?_some hg
  simp only [decide_eq_true_eq] at hname
  exact hname.2 ▸ hp g (List.mem_of_find?_eq_some hg)

/-- The names of inner methods do not contain a dot. -/
def DotFreeMethods (inner : Set (String × String)) : Prop := ∀ x ∈ inner, '.' ∉ x.2.toList

/-- The names under which inner methods are handled. -/
def innerKeys (inner : Set (String × String)) : Set String :=
  (fun x => Callee.innerKey x.1 x.2) '' inner

/-- Read backwards, the name of the method ends at the first dot. -/
theorem takeWhile_reverse_innerKey {c m : String} (hm : '.' ∉ m.toList) :
    (Callee.innerKey c m).toList.reverse.takeWhile (· ≠ '.') = m.toList.reverse := by
  have hsplit : (Callee.innerKey c m).toList.reverse =
      m.toList.reverse ++ '.' :: c.toList.reverse := by
    simp [Callee.innerKey]
  rw [hsplit, List.takeWhile_append_of_pos]
  · simp
  · intro x hx
    have hne : x ≠ '.' := fun h => hm (by simpa [h] using hx)
    simpa using hne

theorem innerKey_inj {c c' m m' : String} (hm : '.' ∉ m.toList) (hm' : '.' ∉ m'.toList) :
    Callee.innerKey c m = Callee.innerKey c' m' ↔ c = c' ∧ m = m' := by
  constructor
  · intro h
    have hrev : m.toList.reverse = m'.toList.reverse := by
      rw [← takeWhile_reverse_innerKey (c := c) hm, h, takeWhile_reverse_innerKey hm']
    obtain rfl : m = m' := String.toList_injective (List.reverse_inj.1 hrev)
    have hl := congrArg String.toList h
    simp only [Callee.innerKey, String.toList_append, List.append_cancel_right_eq] at hl
    exact ⟨String.toList_injective hl, rfl⟩
  · rintro ⟨rfl, rfl⟩
    rfl

/-! ## Branches that are added -/

namespace Program

variable {p : Program} {b : Branch} {g : FlowGraph} {handled : Set String}
  {inner inner' : Set (String × String)}

/-- The branches of a graph: of each branching instruction the one that is recorded for it, or
all cases of the switch it is, and none if it is not known. -/
def branchSet (p : Program) (g : FlowGraph) : Set Branch :=
  {b | ∃ i ∈ g.branchInstructions, p.branchKind i = .normal b ∨
    ∃ cases, p.branchKind i = .switch cases ∧ b ∈ cases}

/-- The branches of the inner methods that are not handled; one without a graph has none. -/
def innerBranches (p : Program) (handled : Set String) (inner : Set (String × String)) :
    Set Branch :=
  {b | ∃ x ∈ inner, Callee.innerKey x.1 x.2 ∉ handled ∧
    ∃ g, p.graph? x.1 x.2 = some g ∧ b ∈ p.branchSet g}

theorem mem_branchSet : b ∈ p.branchSet g ↔ ∃ i ∈ g.branchInstructions,
    p.branchKind i = .normal b ∨ ∃ cases, p.branchKind i = .switch cases ∧ b ∈ cases := Iff.rfl

theorem mem_innerBranches : b ∈ p.innerBranches handled inner ↔
    ∃ x ∈ inner, Callee.innerKey x.1 x.2 ∉ handled ∧
      ∃ g, p.graph? x.1 x.2 = some g ∧ b ∈ p.branchSet g := Iff.rfl

theorem mem_graphBranches : b ∈ Callee.graphBranches p g ↔ b ∈ p.branchSet g := by
  rw [Callee.graphBranches, List.mem_flatMap, mem_branchSet]
  refine exists_congr fun i => and_congr_right fun _ => ?_
  cases p.branchKind i <;> simp [eq_comm]

/-- As no two inner methods share a name, one that is handled by the first step was added by it. -/
theorem innerBranches_union (hi : DotFreeMethods inner) (hi' : DotFreeMethods inner') :
    p.innerBranches handled (inner ∪ inner') =
      p.innerBranches handled inner ∪ p.innerBranches (handled ∪ innerKeys inner) inner' := by
  ext b
  simp only [mem_innerBranches, Set.mem_union]
  constructor
  · rintro ⟨x, hx | hx, hkey, hb⟩
    · exact .inl ⟨x, hx, hkey, hb⟩
    · by_cases hk : Callee.innerKey x.1 x.2 ∈ innerKeys inner
      · obtain ⟨y, hy, he⟩ := hk
        obtain ⟨hc, hm⟩ := (innerKey_inj (hi y hy) (hi' x hx)).1 he
        exact .inl ⟨x, Prod.ext hc hm ▸ hy, hkey, hb⟩
      · exact .inr ⟨x, hx, fun h => h.elim hkey hk, hb⟩
  · rintro (⟨x, hx, hkey, hb⟩ | ⟨x, hx, hkey, hb⟩)
    · exact ⟨x, .inl hx, hkey, hb⟩
    · exact ⟨x, .inr hx, fun h => hkey (.inl h), hb⟩

/-- Taking in some graphs and inner methods adds the branches of all graphs, and those of the inner
methods that were not handled. All of these are handled then. -/
structure Adds (p : Program) (branches : Set Branch) (handled : Set String)
    (graphs : Set FlowGraph) (inner : Set (String × String)) (branches' : Set Branch)
    (handled' : Set String) : Prop where
  branches_eq : branches' =
    branches ∪ (⋃ g ∈ graphs, p.branchSet g) ∪ p.innerBranches handled inner
  handled_eq : handled' = handled ∪ innerKeys inner

variable {branches branches' branches'' : Set Branch} {handled' handled'' : Set String}
  {graphs graphs' : Set FlowGraph}

namespace Adds

theorem refl : p.Adds branches handled ∅ ∅ branches handled where
  branches_eq := by
    ext b
    simp [mem_innerBranches]
  handled_eq := by simp [innerKeys]

theorem trans (h : p.Adds branches handled graphs inner branches' handled')
    (h' : p.Adds branches' handled' graphs' inner' branches'' handled'')
    (hi : DotFreeMethods inner) (hi' : DotFreeMethods inner') :
    p.Adds branches handled (graphs ∪ graphs') (inner ∪ inner') branches'' handled'' where
  branches_eq := by
    rw [h'.branches_eq, h.branches_eq, h.handled_eq, innerBranches_union hi hi',
      Set.biUnion_union]
    ac_rfl
  handled_eq := by
    rw [h'.handled_eq, h.handled_eq, Set.union_assoc]
    exact congrArg (handled ∪ ·) (Set.image_union _ _ _).symm

theorem union_left (h : p.Adds branches handled graphs inner branches' handled')
    (others : Set Branch) :
    p.Adds (others ∪ branches) handled graphs inner (others ∪ branches') handled' where
  branches_eq := by rw [h.branches_eq, Set.union_assoc, Set.union_assoc, Set.union_assoc]
  handled_eq := h.handled_eq

end Adds

end Program

/-! ## Collections of inner methods -/

namespace InnerMethods

/-- The inner methods, each with its class. -/
def toSet (m : InnerMethods) : Set (String × String) := {x | x.2 ∈ m.methods x.1}

variable {a b m : InnerMethods} {c : String} {s : OrderedSet String} {x : String × String}

theorem mem_toSet : x ∈ m.toSet ↔ x.2 ∈ m.methods x.1 := Iff.rfl

@[simp] theorem toSet_empty : toSet .empty = ∅ := by
  ext x
  simp [mem_toSet, methods]

theorem mem_toSet_insert :
    x ∈ toSet (m.insert c s) ↔ if x.1 = c then x.2 ∈ s else x ∈ m.toSet := by
  simp only [mem_toSet, methods, Assoc.get?_insert]
  split <;> rfl

theorem mem_toSet_iff (h : m.keys.Nodup) : x ∈ m.toSet ↔ ∃ s, (x.1, s) ∈ m.entries ∧ x.2 ∈ s := by
  simp only [Assoc.mem_entries_iff h, mem_toSet, methods]
  cases m.get? x.1 <;> simp

theorem toSet_merge (h : b.keys.Nodup) : (a.merge b).toSet = a.toSet ∪ b.toSet := by
  ext x
  rw [Set.mem_union, mem_toSet_iff h, merge]
  generalize b.entries = entries
  induction entries generalizing a with
  | nil => simp
  | cons e rest ih =>
    have hstep : x ∈ toSet (a.insert e.1 ((methods a e.1).union e.2)) ↔
        x ∈ a.toSet ∨ x.1 = e.1 ∧ x.2 ∈ e.2 := by
      rw [mem_toSet_insert]
      split
      · rename_i hx
        rw [OrderedSet.mem_union, ← hx, mem_toSet]
        simp
      · simp_all
    rw [List.foldl_cons, ih, hstep, or_assoc]
    simp [Prod.ext_iff, or_and_right, exists_or]

theorem mem_pairs (h : m.keys.Nodup) : x ∈ m.pairs ↔ x ∈ m.toSet := by
  simp [mem_toSet_iff h, pairs, Prod.ext_iff, OrderedSet.mem_toList]

end InnerMethods

/-! ## Inner methods of a graph -/

theorem CallGraph.spread_induction {g : CallGraph} {P : String → Prop}
    (hc : ∀ x y, y ∈ g.children x → P y) {found : OrderedSet String} {queue : List String}
    (hf : ∀ x ∈ found, P x) (hq : ∀ x ∈ queue, P x) : ∀ x ∈ g.spread found queue, P x := by
  fun_induction g.spread found queue with
  | case1 found => exact hf
  | case2 found m rest _ ih => exact ih hf fun x hx => hq x (List.mem_cons_of_mem _ hx)
  | case3 found m rest _ _ ih =>
    refine ih ?_ ?_
    · intro x hx
      rcases OrderedSet.mem_insert.1 hx with rfl | hx
      · exact hq x List.mem_cons_self
      · exact hf x hx
    · intro x hx
      rcases List.mem_append.1 hx with hx | hx
      · exact hq x (List.mem_cons_of_mem _ hx)
      · exact hc m x (List.mem_filter.1 hx).1

namespace Scope

variable {s : Scope} {g : FlowGraph}

/-- Inner methods are collected by adding what single calls lead to. -/
theorem innerMethods_induction {P : InnerMethods → Prop} (hempty : P .empty)
    (hadd : ∀ found className method, P found → P (s.addInner found className method))
    (g : FlowGraph) : P (s.innerMethods g) := by
  have hreceivers : ∀ (method : String) (receivers : List String) (found : InnerMethods), P found →
      P (receivers.foldl (fun found c => s.addInner found c method) found) := by
    intro method receivers
    induction receivers with
    | nil => exact fun _ h => h
    | cons c rest ih => exact fun found h => ih _ (hadd found c method h)
  have hcalls : ∀ (calls : List CallSite) (found : InnerMethods), P found →
      P (calls.foldl (s.addCall g.className) found) := by
    intro calls
    induction calls with
    | nil => exact fun _ h => h
    | cons call rest ih =>
      intro found h
      refine ih _ ?_
      unfold addCall
      dsimp only
      split
      · exact h
      · split
        · exact h
        · exact hreceivers _ _ _ h
  exact hcalls _ _ hempty

theorem nodup_keys_innerMethods : (s.innerMethods g).keys.Nodup := by
  refine innerMethods_induction (P := fun m => m.keys.Nodup) List.nodup_nil ?_ g
  intro found className method h
  unfold addInner
  split
  · exact h
  · exact Assoc.nodup_keys_insert h

theorem dotFree_innerMethods (hh : s.hierarchy.DotFree) (hp : s.program.DotFree) :
    DotFreeMethods (s.innerMethods g).toSet := by
  refine innerMethods_induction (P := fun m => DotFreeMethods m.toSet) ?_ ?_ g
  · simp [DotFreeMethods]
  intro found className method h
  unfold addInner
  split
  · exact h
  · rename_i inner hgraph
    intro x hx
    rw [InnerMethods.mem_toSet_insert] at hx
    split at hx
    · rename_i hclass
      refine CallGraph.spread_induction (P := fun m => '.' ∉ m.toList) ?_ ?_ ?_ x.2 hx
      · intro caller callee hcall
        obtain ⟨c, hc, hcall⟩ := Hierarchy.mem_children_callGraph.1 hcall
        exact hh className c hc _ hcall
      · exact fun m hm => h (className, m) hm
      · intro m hm
        obtain rfl := List.mem_singleton.1 hm
        exact hp.method_of_graph? hgraph
    · exact h x hx

/-- The inner methods that the methods of some graphs call. -/
def detected (s : Scope) (graphs : Set FlowGraph) : Set (String × String) :=
  ⋃ g ∈ graphs, (s.innerMethods g).toSet

theorem detected_empty : s.detected ∅ = ∅ := by simp [detected]

theorem detected_singleton : s.detected {g} = (s.innerMethods g).toSet := by simp [detected]

theorem detected_union {a b : Set FlowGraph} :
    s.detected (a ∪ b) = s.detected a ∪ s.detected b := Set.biUnion_union ..

theorem dotFree_detected (hh : s.hierarchy.DotFree) (hp : s.program.DotFree)
    (graphs : Set FlowGraph) : DotFreeMethods (s.detected graphs) := by
  intro x hx
  obtain ⟨g, -, hx⟩ := Set.mem_iUnion₂.1 hx
  exact dotFree_innerMethods hh hp x hx

end Scope

end CrashSearch
