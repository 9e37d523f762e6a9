import CrashSearch.Proofs.Builds
import CrashSearch.Proofs.Uses

/-!
# Requests that fail

While a class is being built, each call site adds to the inner methods that are handled, and nothing
takes them back if a later one fails. But all calls were resolved before, and whether a call can be
resolved depends on the class alone, so none fails by then.

## Main definitions

* `Registry.served`, `Registry.answers`: a registry after some requests, and what they answer.

## Main statements

* `Registry.collectEach_ok`: collecting cannot fail once all calls were resolved.
* `Registry.serve_eq_request`: a request that fails changes nothing.
* `Registry.serve_cases`: what a request can do.
* `Registry.serve_final`: failed requests leave no trace, and successful ones are final.
-/

namespace CrashSearch

namespace LiveCallee

variable {l l' : LiveCallee} {methods : List String} {site : CallSite}

@[simp] theorem callee_foldl_addCallSite (sites : List CallSite) :
    (sites.foldl addCallSite l).callee = sites.foldl Callee.addCallSite l.callee := by
  induction sites generalizing l with
  | nil => rfl
  | cons site rest ih => exact ih (l := l.addCallSite site)

theorem reach_of_resolveAll (h : resolveAll methods l = .ok () l') :
    ∀ m ∈ methods, ∃ found, l.callee.scope.reach m = .ok found := by
  induction methods generalizing l with
  | nil => simp
  | cons m rest ih =>
    cases hr : l.callee.scope.reach m with
    | error e =>
      rw [resolveAll_cons_error hr] at h
      cases h
    | ok found =>
      rw [resolveAll_cons_ok hr] at h
      exact List.forall_mem_cons.2 ⟨⟨found, hr⟩, ih (l := l.involve found) h⟩

theorem scope_of_resolveAll (h : resolveAll methods l = .ok () l') :
    l'.callee.scope = l.callee.scope := by
  have hgrown := grown_resolveAll (l := l) methods
  rw [InPlace.after, h] at hgrown
  exact hgrown.scope_eq

/-- A call that can be resolved can be collected for. -/
theorem collect_of_reach (h : ∃ found, l.callee.scope.reach site.target.methodName = .ok found)
    (handled : OrderedSet String) : ∃ inner l' handled',
      collect site (l, handled) = .ok inner (l', handled') ∧ l'.callee.scope = l.callee.scope ∧
        l.callee.collect site handled = .ok (l'.callee, handled', inner) := by
  obtain ⟨found, hr⟩ := h
  have hscope := (grown_step (l := l) (.collect site handled)).scope_eq
  have hcollect : l.callee.collect site handled = _ := collect_eq
  rw [step, InPlace.after] at hscope
  rw [InPlace.answer, InPlace.after] at hcollect
  cases hc : collect site (l, handled) with
  | error e state => cases hr.symm.trans (collect_eq_error_iff.1 hc).1
  | ok inner state =>
    rw [hc] at hscope hcollect
    exact ⟨inner, state.1, state.2, rfl, hscope, hcollect⟩

end LiveCallee

namespace Registry

variable {r r' : Registry} {q : ClassRequest} {c : Callee} {e : Error}

/-- Collecting for call sites whose calls can be resolved cannot fail. -/
theorem collectEach_ok {l : LiveCallee} {sites : List CallSite}
    (h : ∀ site ∈ sites, ∃ found, l.callee.scope.reach site.target.methodName = .ok found)
    (r : Registry) : ∃ l' handled, collectEach l sites r = .ok l' { r with handled := handled } ∧
      collectAll l.callee r.handled sites = .ok (l'.callee, handled) := by
  induction sites generalizing l r with
  | nil => exact ⟨l, r.handled, rfl, rfl⟩
  | cons site rest ih =>
    obtain ⟨hfirst, hrest⟩ := List.forall_mem_cons.1 h
    obtain ⟨inner, l₁, handled₁, hcollect, hscope, hpure⟩ :=
      LiveCallee.collect_of_reach hfirst r.handled
    obtain ⟨l', handled, heach, hall⟩ :=
      ih (l := l₁) (hscope ▸ hrest) { r with handled := handled₁ }
    refine ⟨l', handled, ?_, ?_⟩
    · rw [collectEach]
      simp only [bind, EStateM.bind, collectFor, hcollect]
      exact heach
    · rw [collectAll, hpure]
      exact hall

/-- The class of a request before any call is resolved. -/
def prepare (r : Registry) (q : ClassRequest) : LiveCallee :=
  q.sites.foldl LiveCallee.addCallSite (.ofScope (r.scopeOf q.className))

@[simp] theorem callee_prepare : (r.prepare q).callee = r.prepared q :=
  LiveCallee.callee_foldl_addCallSite q.sites

/-- What the first pass leaves for the second can be resolved. -/
theorem reach_of_involveCalled {l : LiveCallee}
    (h : LiveCallee.involveCalled (r.prepare q) = .ok () l) : ∀ site ∈ q.sites,
      ∃ found, l.callee.scope.reach site.target.methodName = .ok found := by
  intro site hs
  have hmethod : site.target.methodName ∈ (r.prepare q).callee.calledMethods := by
    rw [callee_prepare, mem_calledMethods_prepared]
    exact List.mem_map_of_mem hs
  rw [LiveCallee.scope_of_resolveAll h]
  exact LiveCallee.reach_of_resolveAll h _ hmethod

section Serve

variable {l l' : LiveCallee}

theorem involveNew_eq : involveNew q.className q.sites r =
    match LiveCallee.involveCalled (r.prepare q) with
    | .ok _ l => .ok l r
    | .error e _ => .error e r := rfl

theorem serve_known (hg : r.get? q.className = some c) :
    serve q.className q.sites r = .ok c r := by
  simp only [serve, bind, EStateM.bind, InPlace.get_apply, hg]
  rfl

theorem serve_error (hg : r.get? q.className = none)
    (h : LiveCallee.involveCalled (r.prepare q) = .error e l) :
    serve q.className q.sites r = .error e r := by
  have hnew : involveNew q.className q.sites r = .error e r := by rw [involveNew_eq, h]
  simp only [serve, bind, EStateM.bind, InPlace.get_apply, hg, hnew]

theorem serve_ok (hg : r.get? q.className = none)
    (h : LiveCallee.involveCalled (r.prepare q) = .ok () l)
    (hc : collectEach l q.sites r = .ok l' r') : serve q.className q.sites r =
      .ok l'.callee { r' with callees := r'.callees.insert q.className l'.callee } := by
  have hnew : involveNew q.className q.sites r = .ok l r := by rw [involveNew_eq, h]
  simp only [serve, bind, EStateM.bind, InPlace.get_apply, hg, hnew, hc]
  rfl

end Serve

/-- A request changes the registry in place if it succeeds and not at all if it fails. -/
theorem serve_eq_request : serve q.className q.sites r =
    match r.request q.className q.sites with
    | .ok (r', c) => .ok c r'
    | .error e => .error e r := by
  rw [request]
  cases hg : r.get? q.className with
  | some c => exact serve_known hg
  | none =>
    have hpure : (r.prepared q).involveCalled = _ := callee_prepare ▸ LiveCallee.involveCalled_eq
    rw [InPlace.after, InPlace.answer] at hpure
    cases hc : LiveCallee.involveCalled (r.prepare q) with
    | error e l =>
      rw [hc] at hpure
      rw [serve_error hg hc, build_eq, hpure]
      rfl
    | ok u l =>
      rw [hc] at hpure
      obtain ⟨l', handled, heach, hall⟩ := collectEach_ok (reach_of_involveCalled hc) r
      rw [serve_ok hg hc heach, build_eq, hpure]
      dsimp only
      rw [hall]
      rfl

/-- A request finds the class, or it fails and changes nothing, or the class is new and is kept. -/
theorem serve_cases (r : Registry) (q : ClassRequest) :
    (∃ c, r.get? q.className = some c ∧ serve q.className q.sites r = .ok c r) ∨
    (∃ e, r.get? q.className = none ∧ serve q.className q.sites r = .error e r) ∨
    ∃ c handled, r.get? q.className = none ∧ serve q.className q.sites r =
      .ok c { r with callees := r.callees.insert q.className c, handled := handled } := by
  cases hg : r.get? q.className with
  | some c => exact .inl ⟨c, rfl, serve_known hg⟩
  | none =>
    cases hc : LiveCallee.involveCalled (r.prepare q) with
    | error e l => exact .inr (.inl ⟨e, rfl, serve_error hg hc⟩)
    | ok u l =>
      obtain ⟨l', handled, heach, -⟩ := collectEach_ok (reach_of_involveCalled hc) r
      exact .inr (.inr ⟨l'.callee, handled, rfl, serve_ok hg hc heach⟩)

/-! ## Runs of requests -/

/-- A registry after some requests. -/
def served (r : Registry) (reqs : List ClassRequest) : Registry :=
  reqs.foldl (fun r q => (serve q.className q.sites).after r) r

/-- The answers to some requests. -/
def answers (r : Registry) : List ClassRequest → List (Except Error Callee)
  | [] => []
  | q :: rest =>
    (serve q.className q.sites).answer r :: ((serve q.className q.sites).after r).answers rest

variable {before after : List ClassRequest}

theorem served_append : r.served (before ++ after) = (r.served before).served after :=
  List.foldl_append

theorem answers_append :
    r.answers (before ++ after) = r.answers before ++ (r.served before).answers after := by
  induction before generalizing r with
  | nil => rfl
  | cons q rest ih => exact congrArg (_ :: ·) ih

/-- A failed request changes nothing. -/
theorem eq_of_serve_error (h : serve q.className q.sites r = .error e r') : r' = r := by
  rcases serve_cases r q with ⟨c, -, hs⟩ | ⟨e', -, hs⟩ | ⟨c, handled, -, hs⟩
  · cases h.symm.trans hs
  · cases h.symm.trans hs
    rfl
  · cases h.symm.trans hs

theorem run_cons_ok (h : serve q.className q.sites r = .ok c r') :
    r.served (q :: after) = r'.served after ∧
      r.answers (q :: after) = .ok c :: r'.answers after := by
  change ((serve q.className q.sites).after r).served after = _ ∧ _
  rw [answers, InPlace.after, InPlace.answer, h]
  exact ⟨rfl, rfl⟩

/-- After a failed request a run goes on as if it had not been made. -/
theorem run_cons_error (h : serve q.className q.sites r = .error e r') :
    r.served (q :: after) = r.served after ∧
      r.answers (q :: after) = .error e :: r.answers after := by
  obtain rfl := eq_of_serve_error h
  change ((serve q.className q.sites).after r').served after = _ ∧ _
  rw [answers, InPlace.after, InPlace.answer, h]
  exact ⟨rfl, rfl⟩

theorem get?_of_serve (h : serve q.className q.sites r = .ok c r') :
    r'.get? q.className = some c := by
  rcases serve_cases r q with ⟨c', hg, hs⟩ | ⟨e, -, hs⟩ | ⟨c', handled, -, hs⟩
  · cases h.symm.trans hs
    exact hg
  · cases h.symm.trans hs
  · cases h.symm.trans hs
    rw [get?_insert, if_pos rfl]

/-- A request leaves every class that was built. -/
theorem get?_after_serve {name : String} (h : r.get? name = some c) :
    ((serve q.className q.sites).after r).get? name = some c := by
  rcases serve_cases r q with ⟨c', -, hs⟩ | ⟨e, -, hs⟩ | ⟨c', handled, hn, hs⟩
  · rw [InPlace.after, hs]
    exact h
  · rw [InPlace.after, hs]
    exact h
  · rw [InPlace.after, hs]
    dsimp only
    have hne : name ≠ q.className := by
      rintro rfl
      cases hn.symm.trans h
    rw [get?_insert, if_neg hne, h]

theorem get?_served {name : String} (h : r.get? name = some c) (reqs : List ClassRequest) :
    (r.served reqs).get? name = some c := by
  induction reqs generalizing r with
  | nil => exact h
  | cons q rest ih => exact ih (get?_after_serve h)

/-- Requests to a registry that was new. One that fails leaves the registry as it was, so all later
requests have the answers and the effects that they have without it. One that succeeds is final:
after any further requests, the class is answered as it was built whatever the call sites, and the
registry does not change. -/
theorem serve_final (hierarchy : Hierarchy) (p : Program) (session : Session)
    (before : List ClassRequest) (q : ClassRequest) :
    let start := new hierarchy p session
    let r := start.served before
    (∀ e r', serve q.className q.sites r = .error e r' → r' = r ∧
      ∀ after, start.served (before ++ q :: after) = start.served (before ++ after) ∧
        start.answers (before ++ after) = start.answers before ++ r.answers after ∧
        start.answers (before ++ q :: after) =
          start.answers before ++ .error e :: r.answers after) ∧
    ∀ c r', serve q.className q.sites r = .ok c r' → ∀ after sites,
      serve q.className sites (r'.served after) = .ok c (r'.served after) := by
  intro start r
  constructor
  · intro e r' h
    refine ⟨eq_of_serve_error h, fun after => ⟨?_, answers_append, ?_⟩⟩
    · rw [served_append, served_append, (run_cons_error h).1]
    · rw [answers_append, (run_cons_error h).2]
  · intro c r' h after sites
    exact serve_known (q := ⟨q.className, sites⟩) (get?_served (get?_of_serve h) after)

open Callee

/-- Between two requests for one class another fails; the second finds what the first built. -/
theorem nestingRegistry_serve : ∃ c r e,
    serve outerRequest.className outerRequest.sites nestingRegistry = .ok c r ∧
    serve ghostRequest.className ghostRequest.sites r = .error e r ∧
    r.served [ghostRequest] = r ∧ serve "Outer" [] (r.served [ghostRequest]) = .ok c r ∧
    nestingRegistry.answers [outerRequest, ghostRequest, ⟨"Outer", []⟩] =
      [.ok c, .error e, .ok c] := by
  obtain ⟨r, c, hrequest, hserves⟩ := request_ok (r := nestingRegistry) nestingClasses_dotFree
    nestingProgram_dotFree rfl accepts_outerRequest
  have houter : serve outerRequest.className outerRequest.sites nestingRegistry = .ok c r := by
    rw [serve_eq_request, hrequest]
  have hnew : r.get? ghostRequest.className = none :=
    hserves.get?_eq_none rfl fun x hx => by
      obtain rfl := List.mem_singleton.1 hx
      decide
  obtain ⟨e, hfails⟩ := request_error hnew
    ((hserves.accepts_eq ghostRequest).trans accepts_ghostRequest)
  have hghost : serve ghostRequest.className ghostRequest.sites r = .error e r := by
    rw [serve_eq_request, hfails]
  have hrun : nestingRegistry.served [outerRequest] = r := (run_cons_ok houter).1
  have hfailed := (serve_final nestingClasses nestingProgram .default [outerRequest] ghostRequest).1
  have hfinal := (serve_final nestingClasses nestingProgram .default [] outerRequest).2
  have hagain : serve "Outer" [] (r.served [ghostRequest]) = .ok c (r.served [ghostRequest]) :=
    hfinal c r houter [ghostRequest] []
  rw [← nestingRegistry, hrun] at hfailed
  have hanswers := ((hfailed e r hghost).2 [⟨"Outer", []⟩]).2.2
  have hghosted : r.served [ghostRequest] = r := (run_cons_error hghost).1
  rw [hghosted] at hagain
  refine ⟨c, r, e, houter, hghost, hghosted, hghosted.symm ▸ hagain, ?_⟩
  rw [(run_cons_ok houter).2, (run_cons_ok (q := ⟨"Outer", []⟩) hagain).2] at hanswers
  exact hanswers

end Registry

end CrashSearch
