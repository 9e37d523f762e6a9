import CrashSearch.Proofs.Requests
import Mathlib.Data.List.Perm.Basic

/-!
# The order in which classes are built

The classes under call share the names of the inner methods that are handled, so the order of the
requests decides which call site gains the branches of an inner method. It does not decide which
branches are gained by all of them together.

## Main definitions

* `Reordered`: the same requests in another order, with their call sites in another order.
* `Registry.requestAll`: requests, served one after the other.

## Main statements

* `Registry.exists_serves`: what a run of requests builds, said without their order.
* `Registry.requestAll_reordered`: what is built does not depend on the order.
-/

namespace CrashSearch

/-! ## Requests in some order -/

namespace ClassRequest

/-- The same request, with its call sites in some order. -/
def Same (q q' : ClassRequest) : Prop := q.className = q'.className ∧ q.sites.Perm q'.sites

theorem Same.symm {q q' : ClassRequest} (h : q.Same q') : q'.Same q := ⟨h.1.symm, h.2.symm⟩

theorem Same.mem_methods_iff {q q' : ClassRequest} (h : q.Same q') {m : String} :
    m ∈ q.methods ↔ m ∈ q'.methods := (h.2.map _).mem_iff

end ClassRequest

/-- The same requests in some order, each with its call sites in some order. -/
def Reordered (reqs reqs' : List ClassRequest) : Prop :=
  ∃ mid, reqs.Perm mid ∧ List.Forall₂ ClassRequest.Same mid reqs'

namespace Reordered

variable {reqs reqs' : List ClassRequest} {q : ClassRequest}

theorem symm (h : Reordered reqs reqs') : Reordered reqs' reqs := by
  obtain ⟨mid, hperm, hsame⟩ := h
  obtain ⟨mid', hsame', hperm'⟩ := List.perm_comp_forall₂ hperm hsame
  exact ⟨mid', hperm'.symm, (hsame'.imp fun _ _ hs => hs.symm).flip⟩

theorem exists_same (h : Reordered reqs reqs') (hq : q ∈ reqs) : ∃ q' ∈ reqs', q.Same q' := by
  obtain ⟨mid, hperm, hsame⟩ := h
  have hmid := hperm.mem_iff.1 hq
  clear hperm hq
  induction hsame with
  | nil => cases hmid
  | cons hs _ ih =>
    rcases List.mem_cons.1 hmid with rfl | hmid
    · exact ⟨_, List.mem_cons_self, hs⟩
    · obtain ⟨q', hq', hs'⟩ := ih hmid
      exact ⟨q', List.mem_cons_of_mem _ hq', hs'⟩

theorem filter {f : ClassRequest → Bool} (h : Reordered reqs reqs')
    (hf : ∀ q q', q.Same q' → f q = f q') : Reordered (reqs.filter f) (reqs'.filter f) := by
  obtain ⟨mid, hperm, hsame⟩ := h
  refine ⟨mid.filter f, hperm.filter f, List.rel_filter ?_ hsame⟩
  intro q q' hs
  dsimp only
  rw [hf q q' hs]

theorem nodup_classNames (h : Reordered reqs reqs') (hd : (reqs.map (·.className)).Nodup) :
    (reqs'.map (·.className)).Nodup := by
  obtain ⟨mid, hperm, hsame⟩ := h
  have hnames : mid.map (·.className) = reqs'.map (·.className) := by
    clear hperm
    induction hsame with
    | nil => rfl
    | cons hs _ ih => rw [List.map_cons, List.map_cons, hs.1, ih]
  exact hnames ▸ (hperm.map _).nodup_iff.1 hd

/-- A union over requests does not depend on their order. -/
theorem biUnion_eq {α : Type} {F : ClassRequest → Set α} (h : Reordered reqs reqs')
    (hF : ∀ q q', q.Same q' → F q = F q') : ⋃ q ∈ reqs, F q = ⋃ q ∈ reqs', F q := by
  ext a
  simp only [Set.mem_iUnion, exists_prop]
  constructor
  · rintro ⟨q, hq, ha⟩
    obtain ⟨q', hq', hs⟩ := h.exists_same hq
    exact ⟨q', hq', hF q q' hs ▸ ha⟩
  · rintro ⟨q', hq', ha⟩
    obtain ⟨q, hq, hs⟩ := h.symm.exists_same hq'
    exact ⟨q, hq, hF q' q hs ▸ ha⟩

end Reordered

namespace Registry

variable {r : Registry} {q : ClassRequest} {reqs : List ClassRequest}

/-! ## Runs of requests -/

/-- Serves requests one after the other. Each goes on from what the one before left in place, also
where that one failed. The answer holds those that succeed. -/
def requestAll (r : Registry) : List ClassRequest → Registry × List ClassRequest
  | [] => (r, [])
  | q :: rest =>
    match serve q.className q.sites r with
    | .error _ r' => r'.requestAll rest
    | .ok _ r' => ((r'.requestAll rest).1, q :: (r'.requestAll rest).2)

theorem serve_accepted (hh : r.hierarchy.DotFree) (hp : r.program.DotFree)
    (hn : r.get? q.className = none) (ha : r.accepts q = true) :
    ∃ r' c, serve q.className q.sites r = .ok c r' ∧ r.Serves r' [q] := by
  obtain ⟨r', c, hrequest, h⟩ := request_ok hh hp hn ha
  exact ⟨r', c, by rw [serve_eq_request, hrequest], h⟩

/-- Whatever was done in place before a call could not be resolved, the registry is the same. -/
theorem serve_refused (hn : r.get? q.className = none) (ha : r.accepts q = false) :
    ∃ e, serve q.className q.sites r = .error e r := by
  obtain ⟨e, hrequest⟩ := request_error hn ha
  exact ⟨e, by rw [serve_eq_request, hrequest]⟩

/-- What is built by a run is what the requests that succeed bring, in no order. -/
theorem exists_serves (hh : r.hierarchy.DotFree) (hp : r.program.DotFree)
    (hd : (reqs.map (·.className)).Nodup) (hn : ∀ q ∈ reqs, r.get? q.className = none) :
    ∃ r', r.requestAll reqs = (r', reqs.filter r.accepts) ∧
      r.Serves r' (reqs.filter r.accepts) := by
  induction reqs generalizing r with
  | nil => exact ⟨r, rfl, .refl⟩
  | cons q rest ih =>
    obtain ⟨hfresh, hrest⟩ := List.nodup_cons.1 hd
    have hq := hn q List.mem_cons_self
    cases ha : r.accepts q with
    | false =>
      obtain ⟨e, he⟩ := serve_refused hq ha
      obtain ⟨r', hrun, h⟩ := ih hh hp hrest fun x hx => hn x (List.mem_cons_of_mem _ hx)
      rw [List.filter_cons_of_neg (by simp [ha])]
      exact ⟨r', by rw [requestAll, he]; exact hrun, h⟩
    | true =>
      obtain ⟨r₁, c, he, h⟩ := serve_accepted hh hp hq ha
      have hfacts : r₁.hierarchy = r.hierarchy ∧ r₁.program = r.program := by
        rw [h.same]
        exact ⟨rfl, rfl⟩
      have hn₁ : ∀ x ∈ rest, r₁.get? x.className = none := by
        refine fun x hx => h.get?_eq_none (hn x (List.mem_cons_of_mem _ hx)) fun y hy => ?_
        obtain rfl := List.mem_singleton.1 hy
        exact fun hname => hfresh (List.mem_map.2 ⟨x, hx, hname.symm⟩)
      obtain ⟨r', hrun, h'⟩ := ih (hfacts.1 ▸ hh) (hfacts.2 ▸ hp) hrest hn₁
      have haccepts : r₁.accepts = r.accepts := funext h.accepts_eq
      rw [List.filter_cons_of_pos ha]
      rw [haccepts] at hrun h'
      refine ⟨r', ?_, h.trans hh hp h'⟩
      rw [requestAll, he]
      simp only [hrun]

/-! ## Independence of the order -/

theorem accepts_of_same {q' : ClassRequest} (hs : q.Same q') : r.accepts q = r.accepts q' := by
  rw [Bool.eq_iff_iff, accepts, accepts, Scope.resolvesAll_iff, Scope.resolvesAll_iff, hs.1]
  simp only [hs.mem_methods_iff]

theorem graphsOf_of_same {q' : ClassRequest} (hs : q.Same q') : r.graphsOf q = r.graphsOf q' := by
  rw [graphsOf, graphsOf, hs.1]
  simp only [hs.mem_methods_iff]

theorem innerOf_of_same {q' : ClassRequest} (hs : q.Same q') : r.innerOf q = r.innerOf q' := by
  rw [innerOf, innerOf, graphsOf_of_same hs, hs.1]

theorem branchSet_new {hierarchy : Hierarchy} {p : Program} {session : Session} :
    (new hierarchy p session).branchSet = ∅ := by
  ext b
  simp [branchSet, get?, new]

/-- In whatever order classes with different names are requested, and in whatever order their call
sites are listed, the same requests succeed, the same graphs are involved in each class, the same
inner methods are handled, and the call sites of all classes together have the same branches: those
of all graphs that their calls can run, and those of all inner methods found in these. -/
theorem requestAll_reordered {hierarchy : Hierarchy} {p : Program} {session : Session}
    {reqs reqs' : List ClassRequest} (hh : hierarchy.DotFree) (hp : p.DotFree)
    (hd : (reqs.map (·.className)).Nodup) (ho : Reordered reqs reqs') :
    ∃ r done r' done', (new hierarchy p session).requestAll reqs = (r, done) ∧
      (new hierarchy p session).requestAll reqs' = (r', done') ∧
      Reordered done done' ∧
      (∀ name, (r.get? name).map Callee.involvedSet = (r'.get? name).map Callee.involvedSet) ∧
      r.handled.toSet = r'.handled.toSet ∧
      r.handled.toSet = innerKeys (⋃ q ∈ done, (new hierarchy p session).innerOf q) ∧
      r.branchSet = r'.branchSet ∧
      r.branchSet =
        (⋃ g ∈ ⋃ q ∈ done, (new hierarchy p session).graphsOf q, p.branchSet g) ∪
          p.innerBranches ∅ (⋃ q ∈ done, (new hierarchy p session).innerOf q) := by
  obtain ⟨r, hrun, h⟩ := exists_serves (r := new hierarchy p session) hh hp hd fun _ _ => rfl
  obtain ⟨r', hrun', h'⟩ := exists_serves (r := new hierarchy p session) hh hp
    (ho.nodup_classNames hd) fun _ _ => rfl
  have hdone := ho.filter fun _ _ => accepts_of_same (r := new hierarchy p session)
  have hgraphs := hdone.biUnion_eq fun _ _ => graphsOf_of_same (r := new hierarchy p session)
  have hinner := hdone.biUnion_eq fun _ _ => innerOf_of_same (r := new hierarchy p session)
  have hhandled : r.handled.toSet = r'.handled.toSet := by
    rw [h.adds.handled_eq, h'.adds.handled_eq, hinner]
  have hbranches : r.branchSet = r'.branchSet := by
    rw [h.adds.branches_eq, h'.adds.branches_eq, hgraphs, hinner]
  refine ⟨r, _, r', _, hrun, hrun', hdone, ?_, hhandled, ?_, hbranches, ?_⟩
  · intro name
    refine Option.ext fun graphs => ?_
    rw [h.built, h'.built]
    refine or_congr_right ⟨?_, ?_⟩
    · rintro ⟨q, hq, hname, hgraphs⟩
      obtain ⟨q', hq', hs⟩ := hdone.exists_same hq
      exact ⟨q', hq', hs.1 ▸ hname, graphsOf_of_same hs ▸ hgraphs⟩
    · rintro ⟨q', hq', hname, hgraphs⟩
      obtain ⟨q, hq, hs⟩ := hdone.symm.exists_same hq'
      exact ⟨q, hq, hs.1 ▸ hname, graphsOf_of_same hs ▸ hgraphs⟩
  · rw [h.adds.handled_eq]
    simp [new]
  · rw [h.adds.branches_eq, branchSet_new, Set.empty_union]
    simp [new]

open Callee

/-- The class without calls that can be resolved is built in neither order. -/
theorem nestingRegistry_requestAll : ∃ r done r' done',
    nestingRegistry.requestAll [outerRequest, ghostRequest, subRequest 2 3] = (r, done) ∧
    nestingRegistry.requestAll [subRequest 3 2, outerRequest, ghostRequest] = (r', done') ∧
    done = [outerRequest, subRequest 2 3] ∧ Reordered done done' ∧
    (∀ name, (r.get? name).map involvedSet = (r'.get? name).map involvedSet) ∧
    r.handled.toSet = {"Outer$In.go", "Outer$In.lost", "Outer$In.step"} ∧
    r'.handled.toSet = r.handled.toSet ∧
    r.branchSet = {runBranch, goBranch, stepBranch} ∧
    r'.branchSet = r.branchSet := by
  have ho : Reordered [outerRequest, ghostRequest, subRequest 2 3]
      [subRequest 3 2, outerRequest, ghostRequest] := by
    have hperm : ([outerRequest, ghostRequest] ++ [subRequest 2 3]).Perm
        ([subRequest 2 3] ++ [outerRequest, ghostRequest]) := List.perm_append_comm
    refine ⟨_, hperm, ?_⟩
    exact .cons ⟨rfl, .swap ..⟩ (.cons ⟨rfl, .refl _⟩ (.cons ⟨rfl, .refl _⟩ .nil))
  have hnames : ([outerRequest, ghostRequest, subRequest 2 3].map (·.className)).Nodup := by
    decide
  obtain ⟨r, done, r', done', hrun, hrun', hdone, hinvolved, hhandled, hkeys, hsame, hbranches⟩ :=
    requestAll_reordered nestingClasses_dotFree nestingProgram_dotFree hnames ho
  obtain ⟨r₁, hrun₁, -⟩ := exists_serves (r := nestingRegistry) nestingClasses_dotFree
    nestingProgram_dotFree hnames fun _ _ => rfl
  cases hrun.symm.trans hrun₁
  have hd : [outerRequest, ghostRequest, subRequest 2 3].filter nestingRegistry.accepts =
      [outerRequest, subRequest 2 3] := by
    simp [accepts_outerRequest, accepts_ghostRequest, accepts_subRequest]
  have hset : r.branchSet = {runBranch, goBranch, stepBranch} := by
    rw [hbranches, hd, ← nestingRegistry]
    ext b
    simp [graphsOf_outerRequest, graphsOf_subRequest, innerOf_outerRequest,
      innerOf_subRequest, branchSet_outerRun, innerBranches_outerRun]
  have hkeyed : r.handled.toSet = {"Outer$In.go", "Outer$In.lost", "Outer$In.step"} := by
    rw [hkeys, hd, ← nestingRegistry]
    ext x
    simp [innerOf_outerRequest, innerOf_subRequest, innerKeys, innerKey, eq_comm]
  exact ⟨r, _, r', done', hrun, hrun', hd, hdone, hinvolved, hkeyed, hhandled.symm, hset,
    hsame.symm⟩

end Registry

end CrashSearch
