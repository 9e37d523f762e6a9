import CrashSearch.Proofs.ClassGraphs
import CrashSearch.Proofs.InnerKeys
import Mathlib.Data.List.Induction
import Mathlib.Data.List.Infix

/-!
# What calls on inner classes lead to

A call on an inner class leads to the methods that are reached in the call graphs of the classes
that can run it. Calls are looked at one after the other, and a call whose target was reported
before is passed over. If the target is a class, everything it leads to was reported with it. If it
is an interface, its own method may have been reported for another interface that it extends, and
then nothing was reported of the classes that implement it.

## Main definitions

* `CallGraph.Saturated`, `InnerMethods.Saturated`: with a method whatever it calls is there.
* `Scope.leadsTo`, `Scope.innerCalls`: what a call, and what all calls of a graph lead to.
* `Scope.innerOf`, `Scope.PassedOver`: what some calls report, and the calls that report nothing
  because of it.

## Main statements

* `CallGraph.mem_spread`: what spreading adds is what is reached.
* `Scope.mem_toSet_innerOf`: what is reported is what the calls that are not passed over lead to.
* `Scope.innerMethods_complete_iff`: when all calls of a graph are reported, and when their order
  does not matter.
-/

namespace CrashSearch

/-! ## Spreading -/

namespace CallGraph

variable {g : CallGraph} {found : OrderedSet String} {queue : List String} {x m : String}

/-- Whatever the methods call is among them. -/
def Saturated (g : CallGraph) (found : OrderedSet String) : Prop :=
  ∀ x ∈ found, ∀ y ∈ g.children x, y ∈ found

theorem saturated_empty : g.Saturated .empty := fun _ hx => nomatch hx

theorem Saturated.mem_of_reaches (hs : g.Saturated found) (hm : m ∈ found)
    (hx : g.Reaches m x) : x ∈ found := by
  induction hx with
  | refl => exact hm
  | tail _ hcall ih => exact hs _ ih _ hcall

theorem reaches_iff_of_children_eq_nil (hm : g.children m = []) : g.Reaches m x ↔ x = m := by
  constructor
  · intro hx
    rcases hx.cases_head with rfl | ⟨y, hcall, -⟩
    · rfl
    · simp [hm] at hcall
  · rintro rfl
    exact .refl

theorem mem_or_reaches_of_mem_spread (hx : x ∈ g.spread found queue) :
    x ∈ found ∨ ∃ m ∈ queue, g.Reaches m x := by
  fun_induction g.spread found queue with
  | case1 found => exact .inl hx
  | case2 found m rest _ ih =>
    rcases ih hx with hx | ⟨y, hy, hreach⟩
    · exact .inl hx
    · exact .inr ⟨y, List.mem_cons_of_mem _ hy, hreach⟩
  | case3 found m rest _ _ ih =>
    rcases ih hx with hx | ⟨y, hy, hreach⟩
    · rcases OrderedSet.mem_insert.1 hx with rfl | hx
      · exact .inr ⟨x, List.mem_cons_self, .refl⟩
      · exact .inl hx
    · rcases List.mem_append.1 hy with hy | hy
      · exact .inr ⟨y, List.mem_cons_of_mem _ hy, hreach⟩
      · exact .inr ⟨m, List.mem_cons_self, .head (List.mem_filter.1 hy).1 hreach⟩

theorem mem_spread_of_mem (hx : x ∈ found ∨ x ∈ queue) : x ∈ g.spread found queue := by
  fun_induction g.spread found queue with
  | case1 found => simpa using hx
  | case2 found m rest hm ih =>
    refine ih ?_
    rcases hx with hx | hx
    · exact .inl hx
    · rcases List.mem_cons.1 hx with rfl | hx
      · exact .inl hm
      · exact .inr hx
  | case3 found m rest _ _ ih =>
    refine ih ?_
    rcases hx with hx | hx
    · exact .inl (OrderedSet.mem_insert.2 (.inr hx))
    · rcases List.mem_cons.1 hx with rfl | hx
      · exact .inl (OrderedSet.mem_insert.2 (.inl rfl))
      · exact .inr (List.mem_append_left _ hx)

/-- Spreading ends saturated if what is missing was in the queue. -/
theorem saturated_spread_of_pending
    (hpending : ∀ x ∈ found, ∀ y ∈ g.children x, y ∈ found ∨ y ∈ queue) :
    g.Saturated (g.spread found queue) := by
  fun_induction g.spread found queue with
  | case1 found => exact fun x hx y hy => by simpa using hpending x hx y hy
  | case2 found m rest hm ih =>
    refine ih fun x hx y hy => ?_
    rcases hpending x hx y hy with h | h
    · exact .inl h
    · rcases List.mem_cons.1 h with rfl | h
      · exact .inl hm
      · exact .inr h
  | case3 found m rest _ _ ih =>
    refine ih fun x hx y hy => ?_
    by_cases hnew : y ∈ found.insert m
    · exact .inl hnew
    · refine .inr (List.mem_append.2 ?_)
      rcases OrderedSet.mem_insert.1 hx with rfl | hx
      · exact .inr (List.mem_filter.2 ⟨hy, by simpa using hnew⟩)
      · rw [OrderedSet.mem_insert, not_or] at hnew
        rcases hpending x hx y hy with h | h
        · exact absurd h hnew.2
        · exact .inl (List.mem_of_ne_of_mem hnew.1 h)

theorem Saturated.spread (hs : g.Saturated found) : g.Saturated (g.spread found queue) :=
  saturated_spread_of_pending fun x hx y hy => .inl (hs x hx y hy)

theorem mem_spread (hs : g.Saturated found) :
    x ∈ g.spread found queue ↔ x ∈ found ∨ ∃ m ∈ queue, g.Reaches m x := by
  refine ⟨mem_or_reaches_of_mem_spread, ?_⟩
  rintro (hx | ⟨m, hm, hreach⟩)
  · exact mem_spread_of_mem (.inl hx)
  · exact hs.spread.mem_of_reaches (mem_spread_of_mem (.inr hm)) hreach

end CallGraph

/-- Whatever the inner methods call in their classes is among them. -/
def InnerMethods.Saturated (h : Hierarchy) (found : InnerMethods) : Prop :=
  ∀ c, (h.callGraph c).Saturated (found.methods c)

namespace Scope

variable {s : Scope} {outer c m : String} {found : InnerMethods} {call : CallSite}
  {target : CallTarget} {calls : List CallSite} {x : String × String}

/-! ## What calls lead to -/

/-- The classes that can run a call on a class: the loaded inner classes that list it among their
interfaces and not as an instrumented one, if it is an interface, and else the class itself. -/
def candidates (s : Scope) (outer className : String) : Set String :=
  {c | if s.hierarchy.isInterface className then
      c ∈ s.hierarchy.loaded ∧ outer.toList ++ ['$'] <+: c.toList ∧
        className ∈ (s.hierarchy.interfacesOf c).filter (!s.session.isInstrumentation ·)
    else c = className}

/-- The methods of a class that a method leads to; one without a graph leads to none. -/
def closure (s : Scope) (c m : String) : Set (String × String) :=
  {x | x.1 = c ∧ (∃ g, s.program.graph? c m = some g) ∧ (s.hierarchy.callGraph c).Reaches m x.2}

/-- The inner methods that a call leads to. -/
def leadsTo (s : Scope) (outer : String) (target : CallTarget) : Set (String × String) :=
  {x | outer.toList ++ ['$'] <+: target.className.toList ∧
    ∃ c ∈ s.candidates outer target.className, x ∈ s.closure c target.methodName}

/-- The inner methods that the calls of a graph lead to. -/
def innerCalls (s : Scope) (g : FlowGraph) : Set (String × String) :=
  ⋃ call ∈ g.callSites, s.leadsTo g.className call.target

theorem mem_innerCalls {g : FlowGraph} :
    x ∈ s.innerCalls g ↔ ∃ call ∈ g.callSites, x ∈ s.leadsTo g.className call.target := by
  simp [innerCalls]

theorem innerCalls_of_perm {g g' : FlowGraph} (hc : g'.className = g.className)
    (hp : (g'.callSites.map (·.target)).Perm (g.callSites.map (·.target))) :
    s.innerCalls g' = s.innerCalls g := by
  have htargets (g : FlowGraph) : s.innerCalls g =
      ⋃ target ∈ g.callSites.map (·.target), s.leadsTo g.className target := by
    ext x
    simp [mem_innerCalls]
  simp only [htargets, hc, hp.mem_iff]

theorem isInner_iff : isInner outer c = true ↔ outer.toList ++ ['$'] <+: c.toList := by
  rw [isInner, Text.startsWith_iff]

theorem mem_receivers {className : String} :
    c ∈ s.receivers outer className ↔ c ∈ s.candidates outer className := by
  unfold receivers candidates
  cases s.hierarchy.isInterface className <;> simp [isInner_iff, implements, and_comm]

theorem leadsTo_eq_empty (h : isInner outer target.className = false) :
    s.leadsTo outer target = ∅ := by
  ext x
  simp [leadsTo, isInner_iff.not.1 (Bool.eq_false_iff.1 h)]

theorem leadsTo_eq (h : isInner outer target.className = true) :
    s.leadsTo outer target = ⋃ c ∈ s.receivers outer target.className,
      s.closure c target.methodName := by
  ext x
  simp [leadsTo, isInner_iff.1 h, mem_receivers]

theorem mem_receivers_of_isInterface {interface : String}
    (hi : s.hierarchy.isInterface interface = true) : c ∈ s.receivers outer interface ↔
      c ∈ s.hierarchy.classes.keys.filter fun c => isInner outer c && s.implements c interface := by
  rw [receivers, if_pos hi]
  exact ((List.mergeSort_perm _ _).filter _).mem_iff

/-! ## Adding what a call leads to -/

theorem saturated_empty : InnerMethods.Saturated s.hierarchy .empty :=
  fun _ => CallGraph.saturated_empty

theorem saturated_addInner (hs : found.Saturated s.hierarchy) :
    (s.addInner found c m).Saturated s.hierarchy := by
  unfold addInner
  split
  · exact hs
  · intro d
    rw [InnerMethods.methods, Assoc.get?_insert]
    split
    · rename_i hd
      subst hd
      exact (hs d).spread
    · exact hs d

theorem toSet_addInner (hs : found.Saturated s.hierarchy) :
    (s.addInner found c m).toSet = found.toSet ∪ s.closure c m := by
  ext x
  unfold addInner
  split
  · rename_i hg
    simp [closure, hg]
  · rename_i hg
    rw [InnerMethods.mem_toSet_insert, Set.mem_union, InnerMethods.mem_toSet]
    split
    · rename_i hx
      simp [closure, hg, hx, CallGraph.mem_spread (hs c)]
    · rename_i hx
      simp [closure, hx]

theorem foldl_addInner (hs : found.Saturated s.hierarchy) (cs : List String) :
    (cs.foldl (fun found c => s.addInner found c m) found).Saturated s.hierarchy ∧
    (cs.foldl (fun found c => s.addInner found c m) found).toSet =
      found.toSet ∪ ⋃ c ∈ cs, s.closure c m := by
  induction cs generalizing found with
  | nil => simpa using hs
  | cons c rest ih =>
    obtain ⟨hrest, hset⟩ := ih (saturated_addInner hs)
    refine ⟨hrest, ?_⟩
    rw [List.foldl_cons, hset, toSet_addInner hs, Set.union_assoc]
    simp

theorem saturated_addCall (hs : found.Saturated s.hierarchy) :
    (s.addCall outer found call).Saturated s.hierarchy := by
  unfold addCall
  dsimp only
  split
  · exact hs
  · split
    · exact hs
    · exact (foldl_addInner hs _).1

theorem addCall_of_mem
    (hm : (call.target.className, call.target.methodName) ∈ found.toSet) :
    s.addCall outer found call = found := by
  unfold addCall
  dsimp only
  split
  · rfl
  · exact if_pos hm

/-- A class whose method is there has everything there that the method leads to. -/
theorem leadsTo_subset (hs : found.Saturated s.hierarchy)
    (hi : s.hierarchy.isInterface call.target.className = false)
    (hm : (call.target.className, call.target.methodName) ∈ found.toSet) :
    s.leadsTo outer call.target ⊆ found.toSet := by
  rintro ⟨d, y⟩ ⟨-, c, hc, rfl, -, hreach⟩
  obtain rfl : d = call.target.className := by simpa [candidates, hi] using hc
  exact (hs _).mem_of_reaches hm hreach

theorem toSet_addCall (hs : found.Saturated s.hierarchy)
    (hcall : ¬(s.hierarchy.isInterface call.target.className = true ∧
      (call.target.className, call.target.methodName) ∈ found.toSet)) :
    (s.addCall outer found call).toSet = found.toSet ∪ s.leadsTo outer call.target := by
  by_cases hm : (call.target.className, call.target.methodName) ∈ found.toSet
  · have hi : s.hierarchy.isInterface call.target.className = false :=
      Bool.eq_false_iff.2 fun hi => hcall ⟨hi, hm⟩
    rw [addCall_of_mem hm, Set.union_eq_self_of_subset_right (leadsTo_subset hs hi hm)]
  · unfold addCall
    dsimp only
    split
    · rename_i hinner
      rw [leadsTo_eq_empty (by simpa using hinner), Set.union_empty]
    · rename_i hinner
      rw [if_neg (InnerMethods.mem_toSet.not.1 hm), (foldl_addInner hs _).2,
        leadsTo_eq (by simpa using hinner)]

/-! ## Calls one after the other -/

/-- What some calls of a method of `outer` report. -/
def innerOf (s : Scope) (outer : String) (calls : List CallSite) : InnerMethods :=
  calls.foldl (s.addCall outer) .empty

/-- A call of an interface whose method the calls before it reported. -/
def PassedOver (s : Scope) (outer : String) (before : List CallSite) (call : CallSite) : Prop :=
  s.hierarchy.isInterface call.target.className = true ∧
    (call.target.className, call.target.methodName) ∈ (s.innerOf outer before).toSet

theorem innerOf_concat : s.innerOf outer (calls ++ [call]) =
    s.addCall outer (s.innerOf outer calls) call := by
  simp [innerOf]

theorem saturated_innerOf : (s.innerOf outer calls).Saturated s.hierarchy :=
  List.foldlRecOn calls _ saturated_empty fun _ hs _ _ => saturated_addCall hs

/-- What is reported is what the calls lead to that are not passed over. -/
theorem mem_toSet_innerOf : x ∈ (s.innerOf outer calls).toSet ↔
    ∃ before call, before ++ [call] <+: calls ∧ ¬s.PassedOver outer before call ∧
      x ∈ s.leadsTo outer call.target := by
  induction calls using List.reverseRecOn with
  | nil => simp [innerOf]
  | append_singleton calls last ih =>
    have hsplit (before : List CallSite) (call : CallSite) :
        before ++ [call] <+: calls ++ [last] ↔
          (before = calls ∧ call = last) ∨ before ++ [call] <+: calls := by
      rw [List.prefix_concat_iff]
      simp
    have hrun : (∃ before call, before ++ [call] <+: calls ++ [last] ∧
        ¬s.PassedOver outer before call ∧ x ∈ s.leadsTo outer call.target) ↔
        (¬s.PassedOver outer calls last ∧ x ∈ s.leadsTo outer last.target) ∨
          x ∈ (s.innerOf outer calls).toSet := by
      simp only [hsplit, or_and_right, exists_or, ih, and_assoc, exists_eq_left, exists_and_left]
    rw [hrun, innerOf_concat]
    by_cases hpass : s.PassedOver outer calls last
    · simp [addCall_of_mem hpass.2, hpass]
    · rw [toSet_addCall saturated_innerOf hpass, Set.mem_union, or_comm]
      simp [hpass]

/-! ## An interface that extends another -/

/-- A button is a listener, and one class is a button. -/
def buttonClasses : Hierarchy :=
  .ofClasses [(ClassInfo.named "Outer").withMethod "run",
    (ClassInfo.named "Outer$Listener").asInterface.withMethod "fire",
    ((ClassInfo.named "Outer$Button").asInterface.withInterface "Outer$Listener").withMethod "fire",
    ((ClassInfo.named "Outer$1").withInterface "Outer$Button").withMethod "fire"]

/-- The method of a button has a graph. -/
def buttonScope : Scope :=
  .ofClass buttonClasses
    ((Program.empty.insertGraph (.make "Outer$Button" "fire" [⟨0, none, .return⟩])).insertGraph
      (.make "Outer$1" "fire" [⟨0, none, .return⟩])) .default "Outer"

def fire (c : String) : CallTarget := ⟨c, "fire", []⟩

/-- A method that fires two inner classes, one after the other. -/
def firing (first second : String) : FlowGraph :=
  .make "Outer" "run"
    [⟨0, none, .invoke (fire first)⟩, ⟨1, none, .invoke (fire second)⟩, ⟨2, none, .return⟩]

@[simp] theorem className_firing {a b : String} : (firing a b).className = "Outer" := rfl

@[simp] theorem callSites_firing {a b : String} : (firing a b).callSites =
    [⟨⟨"Outer", "run", 0⟩, fire a⟩, ⟨⟨"Outer", "run", 1⟩, fire b⟩] := rfl

theorem mem_innerCalls_firing {a b : String} : x ∈ buttonScope.innerCalls (firing a b) ↔
    x ∈ buttonScope.leadsTo "Outer" (fire a) ∨ x ∈ buttonScope.leadsTo "Outer" (fire b) := by
  simp [mem_innerCalls]

theorem innerMethods_firing {a b : String} : buttonScope.innerMethods (firing a b) =
    buttonScope.addCall "Outer" (buttonScope.addCall "Outer" .empty
      ⟨⟨"Outer", "run", 0⟩, fire a⟩) ⟨⟨"Outer", "run", 1⟩, fire b⟩ := by
  simp [innerMethods]

theorem closure_fire (hc : c = "Outer$Button" ∨ c = "Outer$1") :
    buttonScope.closure c "fire" = {(c, "fire")} := by
  have hgraph : ∃ g, buttonScope.program.graph? c "fire" = some g := by
    rcases hc with rfl | rfl <;> exact ⟨_, rfl⟩
  have hchildren : (buttonScope.hierarchy.callGraph c).children "fire" = [] := by
    rcases hc with rfl | rfl <;> decide
  ext ⟨d, x⟩
  simp [closure, hgraph, CallGraph.reaches_iff_of_children_eq_nil hchildren]

theorem leadsTo_fire {interface : String} (hi : buttonClasses.isInterface interface = true)
    (hinner : isInner "Outer" interface = true)
    (hreceivers : buttonClasses.classes.keys.filter (fun d =>
      isInner "Outer" d && buttonScope.implements d interface) = [c])
    (hc : c = "Outer$Button" ∨ c = "Outer$1") :
    buttonScope.leadsTo "Outer" (fire interface) = {(c, "fire")} := by
  have hmem (d : String) : d ∈ buttonScope.receivers "Outer" interface ↔ d = c := by
    rw [← List.mem_singleton, ← hreceivers]
    exact mem_receivers_of_isInterface hi
  rw [leadsTo_eq hinner]
  simp [fire, hmem, closure_fire hc]

theorem leadsTo_listener :
    buttonScope.leadsTo "Outer" (fire "Outer$Listener") = {("Outer$Button", "fire")} :=
  leadsTo_fire rfl (by decide) (by decide) (.inl rfl)

theorem leadsTo_button :
    buttonScope.leadsTo "Outer" (fire "Outer$Button") = {("Outer$1", "fire")} :=
  leadsTo_fire rfl (by decide) (by decide) (.inr rfl)

theorem leadsTo_one : buttonScope.leadsTo "Outer" (fire "Outer$1") = {("Outer$1", "fire")} := by
  have hreceivers : buttonScope.receivers "Outer" "Outer$1" = ["Outer$1"] := rfl
  rw [leadsTo_eq (by decide)]
  simp [fire, hreceivers, closure_fire]

theorem toSet_addCall_fire (target : CallTarget) (index : UInt32) :
    (buttonScope.addCall "Outer" .empty ⟨⟨"Outer", "run", index⟩, target⟩).toSet =
      buttonScope.leadsTo "Outer" target := by
  rw [toSet_addCall saturated_empty (by simp), InnerMethods.toSet_empty, Set.empty_union]

/-! ## The order of the calls -/

/-- The calls of a graph report what those of them lead to that are not passed over. That is all
they lead to just if whatever a call leads to that is passed over is reported for other calls. It
is so in every order of the calls if none of them leads to a method of an interface that is
called. -/
theorem innerMethods_complete_iff (s : Scope) (g : FlowGraph) :
    (∀ x, x ∈ (s.innerMethods g).toSet ↔
      ∃ before call, before ++ [call] <+: g.callSites ∧ ¬s.PassedOver g.className before call ∧
        x ∈ s.leadsTo g.className call.target) ∧
    ((s.innerMethods g).toSet = s.innerCalls g ↔
      ∀ before call, before ++ [call] <+: g.callSites → s.PassedOver g.className before call →
        s.leadsTo g.className call.target ⊆ (s.innerMethods g).toSet) ∧
    ((∀ call ∈ g.callSites, s.hierarchy.isInterface call.target.className = true →
        (call.target.className, call.target.methodName) ∉ s.innerCalls g) →
      ∀ g' : FlowGraph, g'.className = g.className →
        (g'.callSites.map (·.target)).Perm (g.callSites.map (·.target)) →
        (s.innerMethods g').toSet = s.innerCalls g) := by
  have hmem (g : FlowGraph) (x : String × String) : x ∈ (s.innerMethods g).toSet ↔
      ∃ before call, before ++ [call] <+: g.callSites ∧ ¬s.PassedOver g.className before call ∧
        x ∈ s.leadsTo g.className call.target := mem_toSet_innerOf
  have hsound (g : FlowGraph) : (s.innerMethods g).toSet ⊆ s.innerCalls g := by
    intro x hx
    obtain ⟨before, call, hbefore, -, hlead⟩ := (hmem g x).1 hx
    exact mem_innerCalls.2 ⟨call, hbefore.subset (by simp), hlead⟩
  have hcomplete (g : FlowGraph) : (s.innerMethods g).toSet = s.innerCalls g ↔
      ∀ before call, before ++ [call] <+: g.callSites → s.PassedOver g.className before call →
        s.leadsTo g.className call.target ⊆ (s.innerMethods g).toSet := by
    constructor
    · intro heq before call hbefore _ x hlead
      exact heq ▸ mem_innerCalls.2 ⟨call, hbefore.subset (by simp), hlead⟩
    · intro hpassed
      refine (hsound g).antisymm fun x hx => ?_
      obtain ⟨call, hcall, hlead⟩ := mem_innerCalls.1 hx
      obtain ⟨before, after, hsplit⟩ := List.append_of_mem hcall
      have hbefore : before ++ [call] <+: g.callSites := ⟨after, by simp [hsplit]⟩
      by_cases hpass : s.PassedOver g.className before call
      · exact hpassed before call hbefore hpass hlead
      · exact (hmem g x).2 ⟨before, call, hbefore, hpass, hlead⟩
  refine ⟨hmem g, hcomplete g, fun hfree g' hc hp => ?_⟩
  rw [← innerCalls_of_perm hc hp, hcomplete g']
  -- a call that is passed over would be of an interface whose method is led to
  rintro before call ⟨after, hsplit⟩ ⟨hi, hreported⟩
  obtain ⟨same, hsame, htarget⟩ : ∃ same ∈ g.callSites, same.target = call.target :=
    List.mem_map.1 (hp.mem_iff.1 (List.mem_map_of_mem (by simp [← hsplit])))
  have hled : (call.target.className, call.target.methodName) ∈ s.innerCalls g' := by
    obtain ⟨earlier, first, hbefore, -, hlead⟩ := mem_toSet_innerOf.1 hreported
    refine mem_innerCalls.2 ⟨first, ?_, hlead⟩
    rw [← hsplit]
    exact List.mem_append_left _ (List.mem_append_left _ (hbefore.subset (by simp)))
  rw [innerCalls_of_perm hc hp, ← htarget] at hled
  exact absurd hled (hfree same hsame (htarget ▸ hi))

/-- Whether the button or the class comes first, the method of the class is all that is reported. -/
theorem button_complete :
    (∀ call ∈ (firing "Outer$Button" "Outer$1").callSites,
      buttonScope.hierarchy.isInterface call.target.className = true →
        (call.target.className, call.target.methodName) ∉
          buttonScope.innerCalls (firing "Outer$Button" "Outer$1")) ∧
    (buttonScope.innerMethods (firing "Outer$Button" "Outer$1")).toSet = {("Outer$1", "fire")} ∧
    (buttonScope.innerMethods (firing "Outer$1" "Outer$Button")).toSet = {("Outer$1", "fire")} := by
  have hcalls :
      buttonScope.innerCalls (firing "Outer$Button" "Outer$1") = {("Outer$1", "fire")} := by
    ext x
    simp [mem_innerCalls_firing, leadsTo_button, leadsTo_one]
  have hfree : ∀ call ∈ (firing "Outer$Button" "Outer$1").callSites,
      buttonScope.hierarchy.isInterface call.target.className = true →
        (call.target.className, call.target.methodName) ∉
          buttonScope.innerCalls (firing "Outer$Button" "Outer$1") := by
    rw [hcalls]
    decide
  obtain ⟨-, -, horder⟩ := innerMethods_complete_iff buttonScope (firing "Outer$Button" "Outer$1")
  refine ⟨hfree, ?_, ?_⟩
  · exact (horder hfree _ rfl (.refl _)).trans hcalls
  · exact (horder hfree (firing "Outer$1" "Outer$Button") rfl (.swap _ _ _)).trans hcalls

/-- After the listeners the button is passed over, and the class that is one is not reported. In
the other order of the calls it is. -/
theorem button_passedOver :
    ("Outer$1", "fire") ∈ buttonScope.innerCalls (firing "Outer$Listener" "Outer$Button") ∧
    ("Outer$1", "fire") ∉
      (buttonScope.innerMethods (firing "Outer$Listener" "Outer$Button")).toSet ∧
    ((firing "Outer$Button" "Outer$Listener").callSites.map (·.target)).Perm
      ((firing "Outer$Listener" "Outer$Button").callSites.map (·.target)) ∧
    ("Outer$1", "fire") ∈
      (buttonScope.innerMethods (firing "Outer$Button" "Outer$Listener")).toSet := by
  refine ⟨?_, ?_, .swap _ _ _, ?_⟩
  · simp [mem_innerCalls_firing, leadsTo_button]
  · rw [innerMethods_firing]
    have hfirst := (toSet_addCall_fire (fire "Outer$Listener") 0).trans leadsTo_listener
    rw [addCall_of_mem, hfirst]
    · decide
    · rw [hfirst]
      rfl
  · rw [innerMethods_firing]
    have hfirst := (toSet_addCall_fire (fire "Outer$Button") 0).trans leadsTo_button
    rw [toSet_addCall (saturated_addCall saturated_empty), hfirst]
    · simp
    · rw [hfirst]
      decide

end Scope

end CrashSearch
