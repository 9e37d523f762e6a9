import CrashSearch.Callee.Live
import CrashSearch.Proofs.Nearest
import Mathlib.Data.Finset.Card

/-!
# Missing methods

Resolving a call fails if and only if it comes to a method that no class of the lineage declares or
for which the program has no graph, and it reports the first such method in depth-first order. A
failure leaves everything as it was.

## Main definitions

* `MissingIn`, `missingError`: a method that cannot be resolved, and how it is reported.
* `DepthFirst`: the order in which methods are come to.

## Main statements

* `DepthFirst.exists_order`, `DepthFirst.unique`: there is one such order.
* `Scope.Collects.follows`: a search follows it up to the first missing method.
* `LiveCallee.resolve_fails_iff`: when and how resolving fails.
-/

namespace CrashSearch

/-- No class of the lineage declares the method, or the nearest one that does has no graph of it. -/
def MissingIn (lineage : List CallGraph) (p : Program) (x : String) : Prop :=
  lineage.find? (·.declares x) = none ∨
    ∃ calls, lineage.find? (·.declares x) = some calls ∧ p.graph? calls.className x = none

/-- The report of a missing method, in the name of the nearest class that declares it. -/
def missingError (lineage : List CallGraph) (className x : String) : Error :=
  .methodNotInHierarchy ((lineage.find? (·.declares x)).elim className (·.className)) x

/-- The methods that the nearest declaration of a method calls, in order. -/
def calleesIn (lineage : List CallGraph) (x : String) : List String :=
  (lineage.find? (·.declares x)).elim [] (·.children x)

/-- The depth-first pre-order of some methods: each is followed by the methods that it calls, before
the next of its siblings. What was `seen` is passed over. -/
inductive DepthFirst (lineage : List CallGraph) : List String → List String → List String → Prop
  | done {seen} : DepthFirst lineage seen [] []
  | known {seen m rest order} : m ∈ seen → DepthFirst lineage seen rest order →
      DepthFirst lineage seen (m :: rest) order
  | entered {seen m rest below beside} : m ∉ seen →
      DepthFirst lineage (seen ++ [m]) (calleesIn lineage m) below →
      DepthFirst lineage (seen ++ m :: below) rest beside →
      DepthFirst lineage seen (m :: rest) (m :: below ++ beside)

/-- The methods that are declared and were not `seen`. -/
def unseen (lineage : List CallGraph) (seen : List String) : Finset String :=
  (lineage.flatMap (·.methods)).toFinset.filter (· ∉ seen)

section Order

variable {lineage : List CallGraph} {m x y : String} {seen methods order : List String}

theorem mem_calleesIn : y ∈ calleesIn lineage x ↔ CallsIn lineage x y := by
  unfold calleesIn CallsIn
  cases lineage.find? (·.declares x) <;> simp

theorem unseen_subset {seen' : List String} (h : seen ⊆ seen') :
    unseen lineage seen' ⊆ unseen lineage seen :=
  Finset.monotone_filter_right _ fun _ _ hx hseen => hx (h hseen)

theorem card_unseen_lt {calls : CallGraph} (hd : lineage.find? (·.declares m) = some calls)
    (hm : m ∉ seen) : (unseen lineage (seen ++ [m])).card < (unseen lineage seen).card := by
  have hdeclared : m ∈ lineage.flatMap (·.methods) :=
    List.mem_flatMap.2 ⟨calls, List.mem_of_find?_eq_some hd,
      CallGraph.declares_iff.1 (List.find?_some (p := fun g : CallGraph => g.declares m) hd)⟩
  refine Finset.card_lt_card ⟨unseen_subset (List.subset_append_left _ _), fun h => ?_⟩
  have hmem : m ∈ unseen lineage seen := Finset.mem_filter.2 ⟨by simpa using hdeclared, hm⟩
  simpa using (Finset.mem_filter.1 (h hmem)).2

/-- A method that is entered was declared, which happens finitely often, or it calls nothing. -/
theorem DepthFirst.exists_order (lineage : List CallGraph) (seen methods : List String) :
    ∃ order, DepthFirst lineage seen methods order := by
  match methods with
  | [] => exact ⟨[], .done⟩
  | m :: rest =>
    by_cases hm : m ∈ seen
    · obtain ⟨order, h⟩ := exists_order lineage seen rest
      exact ⟨order, .known hm h⟩
    · have hbelow : ∃ below, DepthFirst lineage (seen ++ [m]) (calleesIn lineage m) below := by
        cases hd : lineage.find? (·.declares m) with
        | none => exact ⟨[], by rw [calleesIn, hd]; exact .done⟩
        | some calls =>
          have hless := card_unseen_lt hd hm
          exact exists_order lineage (seen ++ [m]) (calleesIn lineage m)
      obtain ⟨below, hbelow⟩ := hbelow
      have hle : (unseen lineage (seen ++ m :: below)).card ≤ (unseen lineage seen).card :=
        Finset.card_le_card (unseen_subset (List.subset_append_left _ _))
      obtain ⟨beside, hbeside⟩ := exists_order lineage (seen ++ m :: below) rest
      exact ⟨_, .entered hm hbelow hbeside⟩
termination_by ((unseen lineage seen).card, methods.length)
decreasing_by
  · exact .right _ (by simp)
  · exact .left _ _ hless
  · exact .right' _ hle (by simp)

theorem DepthFirst.unique {order' : List String} (h : DepthFirst lineage seen methods order)
    (h' : DepthFirst lineage seen methods order') : order = order' := by
  induction h generalizing order' with
  | done =>
    cases h'
    rfl
  | known hm _ ih =>
    cases h' with
    | known _ h' => exact ih h'
    | entered hm' => exact absurd hm hm'
  | entered hm _ _ ihbelow ihbeside =>
    cases h' with
    | known hm' => exact absurd hm' hm
    | entered _ hbelow hbeside =>
      obtain rfl := ihbelow hbelow
      obtain rfl := ihbeside hbeside
      rfl

/-- What is come to is called from what was to be visited. -/
theorem DepthFirst.reaches (h : DepthFirst lineage seen methods order) (hx : x ∈ order) :
    ∃ m ∈ methods, ReachesIn lineage m x := by
  induction h with
  | done => cases hx
  | known _ _ ih =>
    obtain ⟨m, hm, hreach⟩ := ih hx
    exact ⟨m, List.mem_cons_of_mem _ hm, hreach⟩
  | @entered seen m rest below beside _ _ _ ihbelow ihbeside =>
    rcases List.mem_append.1 hx with hx | hx
    · refine ⟨m, List.mem_cons_self, ?_⟩
      rcases List.mem_cons.1 hx with rfl | hx
      · exact .refl
      · obtain ⟨y, hy, hreach⟩ := ihbelow hx
        exact hreach.head (mem_calleesIn.1 hy)
    · obtain ⟨y, hy, hreach⟩ := ihbeside hx
      exact ⟨y, List.mem_cons_of_mem _ hy, hreach⟩

/-- Nothing that is to be visited or called is left out. -/
theorem DepthFirst.closed (h : DepthFirst lineage seen methods order) :
    (∀ m ∈ methods, m ∈ seen ++ order) ∧
      ∀ x ∈ order, ∀ y, CallsIn lineage x y → y ∈ seen ++ order := by
  induction h with
  | done => simp
  | known hm _ ih =>
    refine ⟨?_, ih.2⟩
    rintro x (_ | ⟨_, hx⟩)
    · exact List.mem_append_left _ hm
    · exact ih.1 x hx
  | @entered seen m rest below beside _ _ _ ihbelow ihbeside =>
    simp only [List.mem_append, List.mem_cons] at ihbelow ihbeside ⊢
    constructor
    · rintro x (rfl | hx)
      · exact .inr (.inl (.inl rfl))
      · have := ihbeside.1 x hx
        grind
    · rintro x ((rfl | hx) | hx) y hy
      · have := ihbelow.1 y (mem_calleesIn.2 hy)
        grind
      · have := ihbelow.2 x hx y hy
        grind
      · have := ihbeside.2 x hx y hy
        grind

/-- The order that starts at a method holds the methods it reaches. -/
theorem DepthFirst.mem_iff (h : DepthFirst lineage [] [m] order) :
    x ∈ order ↔ ReachesIn lineage m x := by
  constructor
  · intro hx
    obtain ⟨y, hy, hreach⟩ := h.reaches hx
    exact List.mem_singleton.1 hy ▸ hreach
  · intro hx
    induction hx with
    | refl => exact h.closed.1 m List.mem_cons_self
    | tail _ hcall ih => exact h.closed.2 _ ih _ hcall

end Order

/-- The first missing method of an order. -/
def FirstMissing (lineage : List CallGraph) (p : Program) (order : List String) (x : String) :
    Prop :=
  ∃ before after, order = before ++ x :: after ∧ MissingIn lineage p x ∧
    ∀ y ∈ before, ¬ MissingIn lineage p y

namespace FirstMissing

variable {lineage : List CallGraph} {p : Program} {order front : List String} {x : String}

theorem append_left (h : FirstMissing lineage p order x)
    (hfront : ∀ y ∈ front, ¬ MissingIn lineage p y) :
    FirstMissing lineage p (front ++ order) x := by
  obtain ⟨before, after, rfl, hx, hbefore⟩ := h
  exact ⟨front ++ before, after, by simp, hx, List.forall_mem_append.2 ⟨hfront, hbefore⟩⟩

theorem append_right (h : FirstMissing lineage p order x) (back : List String) :
    FirstMissing lineage p (order ++ back) x := by
  obtain ⟨before, after, rfl, hx, hbefore⟩ := h
  exact ⟨before, after ++ back, by simp, hx, hbefore⟩

end FirstMissing

namespace Scope

variable {s : Scope} {m x : String} {e : Error} {found next : List FlowGraph}
  {methods order : List String} {r : Except Error (List FlowGraph)}

theorem lookup_eq_error_iff : s.lookup x = .error e ↔
    MissingIn s.lineage s.program x ∧ e = missingError s.lineage s.className x := by
  unfold lookup declaring? MissingIn missingError
  cases s.lineage.find? (·.declares x) with
  | none => simp [eq_comm]
  | some calls => cases hg : s.program.graph? calls.className x <;> simp [eq_comm, hg]

theorem not_missingIn_of_lookup {calls : CallGraph} {g : FlowGraph}
    (h : s.lookup x = .ok (calls, g)) : ¬ MissingIn s.lineage s.program x := by
  intro hm
  cases h.symm.trans (lookup_eq_error_iff.2 ⟨hm, rfl⟩)

theorem names_concat {calls : CallGraph} {g : FlowGraph} (hl : s.lookup m = .ok (calls, g)) :
    (found ++ [g]).map (·.methodName) = found.map (·.methodName) ++ [m] := by
  rw [List.map_append, List.map_singleton, methodName_of_lookup hl]

theorem calleesIn_of_lookup {calls : CallGraph} {g : FlowGraph}
    (hl : s.lookup m = .ok (calls, g)) : calleesIn s.lineage m = calls.children m := by
  have hd : s.lineage.find? (·.declares m) = some calls := declaring?_of_lookup hl
  rw [calleesIn, hd, Option.elim_some]

theorem Resolved.exists_lookup (hf : s.Resolved found) (hx : x ∈ found.map (·.methodName)) :
    ∃ calls g, s.lookup x = .ok (calls, g) := by
  obtain ⟨g, hg, rfl⟩ := List.mem_map.1 hx
  obtain ⟨calls, hl⟩ := hf g hg
  exact ⟨calls, g, hl⟩

theorem Resolved.not_missingIn (hf : s.Resolved found) (hx : x ∈ found.map (·.methodName)) :
    ¬ MissingIn s.lineage s.program x := by
  obtain ⟨calls, g, hl⟩ := hf.exists_lookup hx
  exact not_missingIn_of_lookup hl

theorem Resolved.concat {calls : CallGraph} {g : FlowGraph} (hf : s.Resolved found)
    (hl : s.lookup m = .ok (calls, g)) : s.Resolved (found ++ [g]) := by
  intro f hmem
  rcases List.mem_append.1 hmem with hmem | hmem
  · exact hf f hmem
  · obtain rfl := List.mem_singleton.1 hmem
    exact ⟨calls, methodName_of_lookup hl ▸ hl⟩

/-- An outcome follows an order: either all its methods were found, or the first missing one is
reported. -/
def Follows (s : Scope) (found : List FlowGraph) (order : List String) :
    Except Error (List FlowGraph) → Prop
  | .ok next => s.Resolved next ∧ next.map (·.methodName) = found.map (·.methodName) ++ order
  | .error e => ∃ x, FirstMissing s.lineage s.program order x ∧
      e = missingError s.lineage s.className x

theorem Collects.follows (h : s.Collects found methods r) (hf : s.Resolved found)
    (ho : DepthFirst s.lineage (found.map (·.methodName)) methods order) :
    s.Follows found order r := by
  induction h generalizing order with
  | done =>
    cases ho
    exact ⟨hf, by simp⟩
  | missing hl =>
    obtain ⟨hmissing, he⟩ := lookup_eq_error_iff.1 hl
    cases ho with
    | known hm =>
      obtain ⟨calls, g, hg⟩ := hf.exists_lookup hm
      cases hl.symm.trans hg
    | entered _ _ _ => exact ⟨_, ⟨[], _, rfl, hmissing, by simp⟩, he⟩
  | known hl hn _ ih =>
    cases ho with
    | known _ ho => exact ih hf ho
    | entered hm => exact absurd ((hf.known_iff hl).1 hn) hm
  | @failed found m rest calls g e hl hn _ ih =>
    cases ho with
    | known hm => cases hn.symm.trans ((hf.known_iff hl).2 hm)
    | entered _ hbelow _ =>
      rw [← names_concat hl, calleesIn_of_lookup hl] at hbelow
      obtain ⟨x, hx, he⟩ := ih (hf.concat hl) hbelow
      have hm : ∀ y ∈ [m], ¬ MissingIn s.lineage s.program y := by
        simpa using not_missingIn_of_lookup hl
      exact ⟨x, (hx.append_left hm).append_right _, he⟩
  | @entered found m rest calls g next r hl hn _ _ ihc ihr =>
    cases ho with
    | known hm => cases hn.symm.trans ((hf.known_iff hl).2 hm)
    | @entered _ _ _ below beside _ hbelow hbeside =>
      rw [← names_concat hl, calleesIn_of_lookup hl] at hbelow
      obtain ⟨hnext, hnames⟩ := ihc (hf.concat hl) hbelow
      rw [names_concat hl, List.append_assoc, List.singleton_append] at hnames
      rw [← hnames] at hbeside
      have hrest := ihr hnext hbeside
      cases r with
      | ok last =>
        obtain ⟨hlast, hlastNames⟩ := hrest
        refine ⟨hlast, ?_⟩
        rw [hlastNames, hnames, List.append_assoc]
      | error e =>
        obtain ⟨x, hx, he⟩ := hrest
        refine ⟨x, hx.append_left fun y hy => ?_, he⟩
        -- Whatever was come to before the siblings was found.
        exact hnext.not_missingIn (hnames ▸ List.mem_append_right _ hy)

/-- Of the methods reached only the first can be one that no class declares. -/
theorem eq_of_undeclared {h : Hierarchy} {className : String}
    (hx : ReachesIn (h.lineage className) m x)
    (hd : (h.lineage className).find? (·.declares x) = none) : x = m := by
  rcases hx.cases_tail with rfl | ⟨y, -, calls, hy, hcall⟩
  · rfl
  · -- The class in which `x` is called declares it.
    obtain ⟨name, -, rfl⟩ := List.mem_map.1 (List.mem_of_find?_eq_some hy)
    have hdeclares := Hierarchy.closed_callGraph y x hcall
    cases (List.find?_eq_none.1 hd _ (List.mem_of_find?_eq_some hy)) hdeclares

end Scope

namespace LiveCallee

/-- Resolving a call fails if and only if the called method reaches a missing one. Only the called
method can be one that no class of the lineage declares. The report is of the first missing method
in depth-first order. Where resolving fails, or collecting for a call site, it changes neither the
class nor what is drawn of it nor the names that are handled. -/
theorem resolve_fails_iff {h : Hierarchy} {p : Program} {session : Session} {className : String}
    (l : LiveCallee) (hl : l.callee.scope = .ofClass h p session className) (m : String) :
    let lineage := h.lineage className
    ((∃ e l', resolve m l = .error e l') ↔ ∃ x, ReachesIn lineage m x ∧ MissingIn lineage p x) ∧
    (∀ x, ReachesIn lineage m x → lineage.find? (·.declares x) = none → x = m) ∧
    (∃ order, (∀ o, DepthFirst lineage [] [m] o ↔ o = order) ∧
      (∀ x, x ∈ order ↔ ReachesIn lineage m x) ∧
      ∀ e l', resolve m l = .error e l' →
        ∃ x, FirstMissing lineage p order x ∧ e = missingError lineage className x) ∧
    (∀ e l', resolve m l = .error e l' → l' = l) ∧
    ∀ site handled e state, collect site (l, handled) = .error e state → state = (l, handled) := by
  intro lineage
  obtain ⟨order, horder⟩ := DepthFirst.exists_order lineage [] [m]
  have hcollects := Scope.collects_visit (s := .ofClass h p session className) [] [m]
  have hfollows := hcollects.follows (by simp [Scope.Resolved]) horder
  rw [← Scope.reach] at hfollows
  simp only [resolve_eq_error_iff, hl]
  refine ⟨?_, fun x => Scope.eq_of_undeclared, ⟨order, ?_, fun x => horder.mem_iff, ?_⟩, ?_, ?_⟩
  · cases hr : (Scope.ofClass h p session className).reach m with
    | ok found =>
      rw [hr] at hfollows
      obtain ⟨hfound, hnames⟩ := hfollows
      constructor
      · rintro ⟨e, l', he, -⟩
        cases he
      · rintro ⟨x, hx, hmissing⟩
        have hmem : x ∈ found.map (·.methodName) := hnames ▸ horder.mem_iff.2 hx
        exact absurd hmissing (hfound.not_missingIn hmem)
    | error e =>
      rw [hr] at hfollows
      obtain ⟨x, ⟨before, after, hsplit, hmissing, -⟩, -⟩ := hfollows
      refine ⟨fun _ => ⟨x, ?_, hmissing⟩, fun _ => ⟨e, l, rfl, rfl⟩⟩
      exact horder.mem_iff.1 (by simp [hsplit])
  · exact fun o => ⟨fun ho => ho.unique horder, fun ho => ho ▸ horder⟩
  · rintro e l' ⟨hr, -⟩
    rw [hr] at hfollows
    exact hfollows
  · exact fun e l' h => h.2
  · exact fun site handled e state h => (collect_eq_error_iff.1 h).2

/-- The broken method comes to its helper first, which is found, and then to the lost one. -/
theorem unfinished_resolve_fails :
    (ofScope unfinishedScope).callee.scope =
      .ofClass (.ofClasses unfinished) unfinishedProgram .default "Derived" ∧
    MissingIn unfinishedScope.lineage unfinishedProgram "lost" ∧
    (∃ e, resolve "broken" (ofScope unfinishedScope) = .error e (ofScope unfinishedScope) ∧
      e = .methodNotInHierarchy "Base" "lost") ∧
    ∃ order, FirstMissing unfinishedScope.lineage unfinishedProgram order "lost" ∧
      ∀ x, x ∈ order ↔ ReachesIn unfinishedScope.lineage "broken" x := by
  have hcalls : CallsIn unfinishedScope.lineage "broken" "lost" := by
    rw [lineage_unfinished]
    exact ⟨(Hierarchy.ofClasses unfinished).callGraph "Base", rfl, by decide⟩
  have hlost : MissingIn unfinishedScope.lineage unfinishedProgram "lost" := by
    rw [lineage_unfinished]
    exact .inr ⟨(Hierarchy.ofClasses unfinished).callGraph "Base", rfl, rfl⟩
  obtain ⟨hiff, -, ⟨order, -, hmem, hfirst⟩, hsame, -⟩ :=
    resolve_fails_iff (ofScope unfinishedScope) rfl "broken"
  obtain ⟨e, l', hfails⟩ := hiff.2 ⟨"lost", .single hcalls, hlost⟩
  obtain ⟨x, hx, he⟩ := hfirst e l' hfails
  obtain rfl := hsame e l' hfails
  have he' : e = .methodNotInHierarchy "Base" "lost" :=
    Except.error.inj ((resolve_eq_error_iff.1 hfails).1.symm.trans reach_unfinished_broken)
  obtain rfl : x = "lost" := by
    rw [he, missingError] at he'
    exact (Error.methodNotInHierarchy.inj he').2
  exact ⟨rfl, hlost, ⟨e, hfails, he'⟩, order, hx, hmem⟩

end LiveCallee

end CrashSearch
