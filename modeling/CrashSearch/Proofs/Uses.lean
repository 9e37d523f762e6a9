import CrashSearch.Callee.Live
import CrashSearch.Proofs.Gathering

/-!
# Uses of a class under call

A class under call is used again and again, and some uses fail. Whatever they are, the involved
graphs are those found for the methods resolved so far, in this order and each once, and the joined
graph that is kept is the one of the involved graphs.

## Main definitions

* `Use`, `LiveCallee.step`, `LiveCallee.run`: the uses of a class, and what one or several of them
  lead to.
* `LiveCallee.resolved`, `LiveCallee.resolvedIn`: the methods that uses resolve.
* `LiveCallee.Grown`: what making graphs involved does to a class in use.

## Main statements

* `LiveCallee.grown_step`, `LiveCallee.grown_run`: what uses do.
-/

namespace CrashSearch

/-- A use of a class under call. Collecting comes with the names of the inner methods that are
handled elsewhere by then. -/
inductive Use where
  | addCallSite (site : CallSite)
  | resolve (method : String)
  | involveCalled
  | collect (site : CallSite) (handled : OrderedSet String)
  | draw

/-- The graphs that a call of a method can run, in the order in which they are found. -/
def Scope.found (s : Scope) (method : String) : List FlowGraph :=
  (s.reach method).toOption.getD []

theorem Scope.mem_found {s : Scope} {m : String} {g : FlowGraph} :
    g ∈ s.found m ↔ g ∈ s.reached m := by
  unfold found reached
  cases s.reach m <;> simp [Except.toOption]

namespace Callee

variable {c : Callee}

theorem prefix_foldl_involve (found l : List FlowGraph) : l <+: found.foldl involve l := by
  refine List.foldlRecOn found involve (List.prefix_refl l) ?_
  intro l' h g _
  refine h.trans ?_
  unfold involve
  split
  · exact List.prefix_refl l'
  · exact List.prefix_append l' [g]

theorem exists_handleInner (site : InstructionId) (pairs : List (String × String))
    (handled : OrderedSet String) : ∃ branches,
      (handleInner site (c, handled) pairs).1 = { c with branches := branches } := by
  induction pairs generalizing c handled with
  | nil => exact ⟨c.branches, rfl⟩
  | cons x rest ih =>
    unfold handleInner
    dsimp only
    split
    · exact ih _
    · exact ih (c := c.addBranches site _) _

/-- Taking in graphs changes nothing but branches. -/
theorem exists_foldl_collectGraph (site : InstructionId) (graphs : List FlowGraph)
    (handled : OrderedSet String) (inner : InnerMethods) : ∃ branches,
      (graphs.foldl (collectGraph site) (c, handled, inner)).1 =
        { c with branches := branches } := by
  induction graphs generalizing c handled inner with
  | nil => exact ⟨c.branches, rfl⟩
  | cons g rest ih =>
    obtain ⟨first, hfirst⟩ :=
      exists_handleInner (c := c) site (c.scope.innerMethods g).pairs handled
    rw [List.foldl_cons, collectGraph]
    dsimp only
    rw [hfirst]
    exact ih (c := { c with branches := first }.addBranches site _) _ _

theorem joined_congr {c' : Callee} (hs : c'.scope = c.scope) (hi : c'.involved = c.involved) :
    c'.joined = c.joined := by
  unfold joined dispatch redirect?
  rw [hs, hi]

end Callee

namespace LiveCallee

variable {l l' l'' : LiveCallee} {found found' : List FlowGraph}

/-! ## Uses -/

/-- A class after a use of it, also if the use fails. -/
def step (l : LiveCallee) : Use → LiveCallee
  | .addCallSite site => l.addCallSite site
  | .resolve m => (resolve m).after l
  | .involveCalled => involveCalled.after l
  | .collect site handled => ((collect site).after (l, handled)).1
  | .draw => l.joined.2

/-- A class after some uses. -/
def run (l : LiveCallee) (uses : List Use) : LiveCallee := uses.foldl step l

/-- The methods that a use has to resolve, in order. -/
def asked (l : LiveCallee) : Use → List String
  | .resolve m => [m]
  | .involveCalled => l.callee.calledMethods
  | .collect site _ => [site.target.methodName]
  | .addCallSite _ | .draw => []

/-- Whether a method can be resolved. -/
def resolves (l : LiveCallee) (method : String) : Bool := ((resolve method).answer l).isOk

/-- The methods that a use resolves: all before the first that cannot be resolved. -/
def resolved (l : LiveCallee) (u : Use) : List String := (l.asked u).takeWhile l.resolves

/-- The methods that some uses resolve. -/
def resolvedIn (l : LiveCallee) : List Use → List String
  | [] => []
  | u :: rest => l.resolved u ++ (l.step u).resolvedIn rest

theorem resolves_eq : l.resolves = fun m => (l.callee.scope.reach m).isOk := by
  funext m
  unfold resolves InPlace.answer
  cases h : l.callee.scope.reach m with
  | ok found => rw [resolve_ok h]
  | error e => rw [resolve_error h]

theorem resolves_iff {m : String} :
    l.resolves m = true ↔ ∃ found, l.callee.scope.reach m = .ok found := by
  simp only [resolves_eq]
  cases l.callee.scope.reach m <;> simp [Except.isOk, Except.toBool]

theorem resolves_congr (h : l'.callee.scope = l.callee.scope) : l'.resolves = l.resolves := by
  rw [resolves_eq, resolves_eq, h]

/-! ## What they do -/

/-- What is drawn is the joined graph of the involved graphs. -/
def Current (l : LiveCallee) : Prop := ∀ g ∈ l.drawn?, g = l.callee.joined

theorem current_ofScope {s : Scope} : (ofScope s).Current := fun _ h => nomatch h

theorem fst_joined (h : l.Current) : l.joined.1 = l.callee.joined := by
  unfold joined
  split
  · rename_i g hg
    exact h g hg
  · rfl

/-- Graphs have become involved, one after the other. -/
structure Grown (l l' : LiveCallee) (found : List FlowGraph) : Prop where
  scope_eq : l'.callee.scope = l.callee.scope
  involved_eq : l'.callee.involved = found.foldl Callee.involve l.callee.involved
  current : l.Current → l'.Current

namespace Grown

theorem of_same (hs : l'.callee.scope = l.callee.scope)
    (hi : l'.callee.involved = l.callee.involved) (hd : l'.drawn? = l.drawn?) :
    Grown l l' [] where
  scope_eq := hs
  involved_eq := hi
  current hl g hg := (hl g (hd ▸ hg)).trans (Callee.joined_congr hs hi).symm

theorem refl : Grown l l [] := .of_same rfl rfl rfl

theorem trans (h : Grown l l' found) (h' : Grown l' l'' found') :
    Grown l l'' (found ++ found') where
  scope_eq := h'.scope_eq.trans h.scope_eq
  involved_eq := by rw [h'.involved_eq, h.involved_eq, List.foldl_append]
  current hl := h'.current (h.current hl)

theorem involve (l : LiveCallee) (found : List FlowGraph) : Grown l (l.involve found) found where
  scope_eq := rfl
  involved_eq := rfl
  current hl g hg := by
    simp only [LiveCallee.involve] at hg
    split at hg
    · rename_i hlength
      -- Involved graphs are only added, so there are as many as before only if they are the same.
      have hadded := Callee.prefix_foldl_involve found l.callee.involved
      have hjoined : (l.involve found).callee.joined = l.callee.joined :=
        Callee.joined_congr rfl (hadded.eq_of_length hlength.symm).symm
      exact (hl g hg).trans hjoined.symm
    · cases hg

end Grown

theorem grown_resolveAll (methods : List String) : Grown l ((resolveAll methods).after l)
    ((methods.takeWhile l.resolves).flatMap l.callee.scope.found) := by
  induction methods generalizing l with
  | nil => exact .refl
  | cons m rest ih =>
    cases hr : l.callee.scope.reach m with
    | error e =>
      have hm : ¬ l.resolves m = true := by simp [resolves_iff, hr]
      rw [InPlace.after, resolveAll_cons_error hr, List.takeWhile_cons_of_neg hm]
      exact .refl
    | ok found =>
      have hfound : l.callee.scope.found m = found := by
        rw [Scope.found, hr]
        rfl
      rw [InPlace.after, resolveAll_cons_ok hr, List.takeWhile_cons_of_pos (resolves_iff.2 ⟨_, hr⟩),
        List.flatMap_cons, hfound]
      have hsame : (l.involve found).resolves = l.resolves := resolves_congr rfl
      exact (Grown.involve l found).trans (hsame ▸ ih)

theorem after_resolve {m : String} : (resolve m).after l = (resolveAll [m]).after l := by
  unfold InPlace.after
  cases h : l.callee.scope.reach m with
  | ok found => rw [resolve_ok h, resolveAll_cons_ok h]; rfl
  | error e => rw [resolve_error h, resolveAll_cons_error h]

/-- Collecting does to the involved graphs what resolving does. -/
theorem grown_collect {site : CallSite} (handled : OrderedSet String) :
    Grown ((resolve site.target.methodName).after l) ((collect site).after (l, handled)).1 [] := by
  unfold InPlace.after
  cases h : l.callee.scope.reach site.target.methodName with
  | ok found =>
    obtain ⟨branches, hb⟩ := Callee.exists_foldl_collectGraph (c := (l.involve found).callee)
      site.instruction found handled .empty
    rw [resolve_ok h, collect_ok h]
    exact .of_same (congrArg Callee.scope hb :) (congrArg Callee.involved hb :) rfl
  | error e =>
    rw [resolve_error h, collect_error h]
    exact .refl

theorem grown_joined : Grown l l.joined.2 [] := by
  unfold joined
  split
  · exact .refl
  · exact ⟨rfl, rfl, fun _ _ hg => (Option.some.inj hg).symm⟩

/-- What a use does to the involved graphs and to what is drawn of them. -/
theorem grown_step (u : Use) :
    Grown l (l.step u) ((l.resolved u).flatMap l.callee.scope.found) := by
  cases u with
  | addCallSite site => exact .of_same rfl rfl rfl
  | resolve m =>
    rw [step, after_resolve]
    exact grown_resolveAll [m]
  | involveCalled => exact grown_resolveAll l.callee.calledMethods
  | collect site handled =>
    have hresolve := grown_resolveAll (l := l) [site.target.methodName]
    rw [← after_resolve] at hresolve
    have hcollect := hresolve.trans (grown_collect handled)
    rw [List.append_nil] at hcollect
    exact hcollect
  | draw => exact grown_joined

/-- What uses do to the involved graphs and to what is drawn of them. -/
theorem grown_run (uses : List Use) :
    Grown l (l.run uses) ((l.resolvedIn uses).flatMap l.callee.scope.found) := by
  induction uses generalizing l with
  | nil => exact .refl
  | cons u rest ih =>
    have hstep := grown_step (l := l) u
    have hrest := ih (l := l.step u)
    rw [hstep.scope_eq] at hrest
    rw [resolvedIn, List.flatMap_append]
    exact hstep.trans hrest

/-- Every method that uses resolve can be resolved again. -/
theorem resolves_of_mem_resolvedIn {uses : List Use} {m : String} (h : m ∈ l.resolvedIn uses) :
    l.resolves m = true := by
  induction uses generalizing l with
  | nil => cases h
  | cons u rest ih =>
    rcases List.mem_append.1 h with h | h
    · exact List.mem_takeWhile_imp h
    · exact resolves_congr (grown_step u).scope_eq ▸ ih h

end LiveCallee

end CrashSearch
