import CrashSearch.Proofs.InnerCalls

/-!
# The walk through an inner class

From the method that is called, the call graph of an inner class is walked with a queue. A method
may be queued several times, but only its first turn finds it, and only then its callees are
queued. So each call in the class is queued at most once and the walk ends, also where calls go
round in a circle. What was found before has its callees found too, so nothing is lost where the
walk turns back.

## Main definitions

* `CallGraph.Walks`: the walk, round by round.
* `CallGraph.openCalls`: how many calls may still be queued.

## Main statements

* `CallGraph.Walks.rounds_le`: a walk takes at most one round for each queued method and each open
  call.
* `CallGraph.walks_iff`: every queue is walked to its end, with the outcome of `spread`.
* `Scope.addInner_exact`: what the walk of an inner class finds, and what it leaves alone.
-/

namespace CrashSearch

namespace CallGraph

/-- `g.Walks found queue rounds result`: from the methods `found`, the queue is empty after that
many rounds, and then `result` is found. A round takes the first method of the queue. If it is new,
it is found, and those of its callees are queued that are not found. -/
inductive Walks (g : CallGraph) : OrderedSet String → List String → Nat → OrderedSet String → Prop
  | done {found} : Walks g found [] 0 found
  | known {found m rest rounds result} : m ∈ found → Walks g found rest rounds result →
      Walks g found (m :: rest) (rounds + 1) result
  | new {found m rest rounds result} : m ∉ found →
      Walks g (found.insert m) (rest ++ (g.children m).filter (· ∉ found.insert m)) rounds result →
      Walks g found (m :: rest) (rounds + 1) result

/-- How many calls are made by the methods that are not found. -/
def openCalls (g : CallGraph) (found : OrderedSet String) : Nat :=
  ((g.nodes.filter (·.method ∉ found)).flatMap (·.callees)).length

variable {g : CallGraph} {found result : OrderedSet String} {queue : List String} {m : String}
  {rounds : Nat}

theorem saturated_ofList {methods : List String}
    (h : ∀ x ∈ methods, ∀ y ∈ g.children x, y ∈ methods) : g.Saturated (.ofList methods) := by
  simpa [Saturated] using h

theorem length_callees_le {nodes : List CallNode} {n : CallNode} (hn : n ∈ nodes) :
    n.callees.length ≤ (nodes.flatMap (·.callees)).length := by
  have hcallees : n.callees ∈ nodes.map (·.callees) := List.mem_map_of_mem hn
  rw [List.flatMap]
  exact (List.sublist_flatten_of_mem hcallees).length_le

/-- When a method is found, its calls are open no more. -/
theorem openCalls_insert (hm : m ∉ found) :
    g.openCalls (found.insert m) + (g.children m).length ≤ g.openCalls found := by
  -- The methods that are not found are `m` and those that are not found when `m` is.
  have hrest : g.nodes.filter (·.method ∉ found.insert m) =
      (g.nodes.filter (·.method ∉ found)).filter (·.method ≠ m) := by
    rw [List.filter_filter]
    refine List.filter_congr fun n _ => ?_
    simp [not_or]
  have hcalls : (g.children m).length ≤ (((g.nodes.filter (·.method ∉ found)).filter
      fun n => !decide (n.method ≠ m)).flatMap (·.callees)).length := by
    unfold children
    cases hn : g.node? m with
    | none => exact Nat.zero_le _
    | some n =>
      have hname : n.method = m := by simpa using List.find?_some hn
      have hopen : n ∈ g.nodes.filter (·.method ∉ found) :=
        List.mem_filter.2 ⟨List.mem_of_find?_eq_some hn, by simpa [hname] using hm⟩
      exact length_callees_le (List.mem_filter.2 ⟨hopen, by simp [hname]⟩)
  have hsplit := ((List.filter_append_perm (fun n : CallNode => decide (n.method ≠ m))
    (g.nodes.filter (·.method ∉ found))).flatMap_right (·.callees)).length_eq
  rw [List.flatMap_append, List.length_append] at hsplit
  unfold openCalls
  rw [hrest]
  omega

/-- A method that is new trades its open calls for callees in the queue. -/
theorem Walks.rounds_le (h : g.Walks found queue rounds result) :
    rounds ≤ queue.length + g.openCalls found := by
  induction h with
  | done => exact Nat.zero_le _
  | known _ _ ih =>
    rw [List.length_cons]
    omega
  | @new found m rest rounds result hm _ ih =>
    have hopen := openCalls_insert (g := g) hm
    have hqueued := List.length_filter_le (· ∉ found.insert m) (g.children m)
    rw [List.length_append] at ih
    rw [List.length_cons]
    omega

/-- Every queue is walked to its end, and in one way only. -/
theorem walks_iff : (∃ rounds, g.Walks found queue rounds result) ↔
    g.spread found queue = result := by
  constructor
  · rintro ⟨rounds, h⟩
    induction h with
    | done => exact spread_nil
    | known hm _ ih => rw [spread_cons, if_pos hm, ih]
    | new hm _ ih => rw [spread_cons, if_neg hm, ih]
  · rintro rfl
    fun_induction g.spread found queue with
    | case1 found => exact ⟨0, .done⟩
    | case2 found m rest hm ih =>
      obtain ⟨rounds, h⟩ := ih
      exact ⟨rounds + 1, .known hm h⟩
    | case3 found m rest hm _ ih =>
      obtain ⟨rounds, h⟩ := ih
      exact ⟨rounds + 1, .new hm h⟩

end CallGraph

namespace Scope

variable {s : Scope} {found : InnerMethods} {c d m : String} {g : FlowGraph}

theorem addInner_of_none (hg : s.program.graph? c m = none) : s.addInner found c m = found := by
  simp [addInner, hg]

theorem get?_addInner (hg : s.program.graph? c m = some g) : (s.addInner found c m).get? d =
    if d = c then some ((s.hierarchy.callGraph c).spread (found.methods c) [m])
    else found.get? d := by
  simp [addInner, hg, Assoc.get?_insert]

theorem methods_addInner (hg : s.program.graph? c m = some g) : (s.addInner found c m).methods c =
    (s.hierarchy.callGraph c).spread (found.methods c) [m] := by
  rw [InnerMethods.methods, get?_addInner hg, if_pos rfl, Option.getD_some]

/-- The walk of an inner class from one of its methods, where whatever the methods found call is
found too. Without a graph of the method nothing changes. Otherwise the walk ends after at most one
round for the method and one for each open call; it adds the methods that are reached and no
others, their callees are found, and nothing changes for other classes. -/
theorem addInner_exact (s : Scope) (found : InnerMethods) (c m : String)
    (hs : (s.hierarchy.callGraph c).Saturated (found.methods c)) :
    (s.program.graph? c m = none → s.addInner found c m = found) ∧
    ∀ g, s.program.graph? c m = some g →
      (∃ rounds ≤ 1 + (s.hierarchy.callGraph c).openCalls (found.methods c),
        (s.hierarchy.callGraph c).Walks (found.methods c) [m] rounds
          ((s.addInner found c m).methods c)) ∧
      (∀ x, x ∈ (s.addInner found c m).methods c ↔
        x ∈ found.methods c ∨ (s.hierarchy.callGraph c).Reaches m x) ∧
      (s.hierarchy.callGraph c).Saturated ((s.addInner found c m).methods c) ∧
      ∀ d, d ≠ c → (s.addInner found c m).get? d = found.get? d := by
  refine ⟨addInner_of_none, fun g hg => ?_⟩
  rw [methods_addInner hg]
  refine ⟨?ends, ?finds, hs.spread, ?others⟩
  case ends =>
    obtain ⟨rounds, hwalk⟩ := CallGraph.walks_iff.2 rfl
    exact ⟨rounds, by simpa using hwalk.rounds_le, hwalk⟩
  case finds =>
    intro x
    simp [CallGraph.mem_spread hs]
  case others =>
    intro d hd
    rw [get?_addInner hg, if_neg hd]

/-! ## A reader that opens again -/

/-- Opening and reading call each other, and reading closes too. -/
def reader : ClassInfo :=
  (((ClassInfo.named "Outer$1").withCall "open" "read").withCall "read" "open").withCall
    "read" "close"

/-- Only opening has a graph. -/
def readerScope : Scope :=
  .ofClass (.ofClasses [reader])
    (Program.empty.insertGraph (.make "Outer$1" "open" [⟨0, none, .return⟩])) .default "Outer"

def readerCalls : CallGraph := readerScope.hierarchy.callGraph "Outer$1"

/-- Closing was found before. -/
def closeFound : InnerMethods := Assoc.empty.insert "Outer$1" (.ofList ["close"])

theorem reaches_readerCalls_iff (x : String) :
    readerCalls.Reaches "open" x ↔ x ∈ ["open", "read", "close"] := by
  constructor
  · intro hx
    have hall : readerCalls.Saturated (.ofList ["open", "read", "close"]) :=
      CallGraph.saturated_ofList (by decide)
    exact OrderedSet.mem_ofList.1 (hall.mem_of_reaches (by decide) hx)
  · have hopen : "read" ∈ readerCalls.children "open" := by decide
    have hread : "close" ∈ readerCalls.children "read" := by decide
    simp only [List.mem_cons, List.not_mem_nil, or_false]
    rintro (rfl | rfl | rfl)
    · exact .refl
    · exact .single hopen
    · exact (Relation.ReflTransGen.single hopen).tail hread

/-- The walk goes round the circle once and adds opening and reading. -/
theorem reader_addInner :
    readerCalls.Saturated (closeFound.methods "Outer$1") ∧
    (∃ g, readerScope.program.graph? "Outer$1" "open" = some g) ∧
    (∃ rounds ≤ 4, readerCalls.Walks (.ofList ["close"]) ["open"] rounds
      ((readerScope.addInner closeFound "Outer$1" "open").methods "Outer$1")) ∧
    (∀ x, x ∈ (readerScope.addInner closeFound "Outer$1" "open").methods "Outer$1" ↔
      x ∈ ["open", "read", "close"]) ∧
    ∀ d, d ≠ "Outer$1" → (readerScope.addInner closeFound "Outer$1" "open").get? d = none := by
  have hclosed : readerCalls.Saturated (closeFound.methods "Outer$1") :=
    CallGraph.saturated_ofList (show ∀ x ∈ ["close"], _ by decide)
  obtain ⟨-, hwalk⟩ := addInner_exact readerScope closeFound "Outer$1" "open" hclosed
  obtain ⟨hends, hfinds, -, hothers⟩ := hwalk _ rfl
  refine ⟨hclosed, ⟨_, rfl⟩, hends, fun x => ?_, fun d hd => ?_⟩
  · have hfound : x ∈ closeFound.methods "Outer$1" ↔ x ∈ ["close"] := OrderedSet.mem_ofList
    have hreaches := reaches_readerCalls_iff x
    rw [hfinds, hfound]
    grind [readerCalls]
  · rw [hothers d hd]
    simp [closeFound, Assoc.get?_insert, hd]

end Scope

end CrashSearch
