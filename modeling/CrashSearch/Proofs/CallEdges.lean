import CrashSearch.Proofs.Involved

/-!
# Call edges

The calls in the joined graph of a class under call lead where resolving leads. Two tables decide
where a call leads, one for calls whose method a nearer class declares and one by name; as only
graphs of nearest declarations are involved, the second cannot lead to a method that was taken over.

## Main statements

* `JoinedGraph.mem_edges_join_iff`: the call edges of a joined graph.
* `Callee.callee?_eq_some_iff`: which graph a call leads to.
* `LiveCallee.call_edges_of_uses`: the call edges after any uses of a class.
-/

namespace CrashSearch

/-- A call leads to an involved graph: it names a class of the lineage, and the graph is the one of
the nearest class that declares the method. -/
def CallLeads (h : Hierarchy) (className : String) (involved : List FlowGraph) (target : CallTarget)
    (d : FlowGraph) : Prop :=
  target.className ∈ className :: h.superclasses className ∧
    ∃ calls, (h.lineage className).find? (·.declares target.methodName) = some calls ∧
      d ∈ involved ∧ d.key = (calls.className, target.methodName)

theorem CallLeads.unique {h : Hierarchy} {className : String} {involved : List FlowGraph}
    {target : CallTarget} {d d' : FlowGraph} (hd : (involved.map FlowGraph.key).Nodup)
    (hleads : CallLeads h className involved target d)
    (hleads' : CallLeads h className involved target d') : d = d' := by
  obtain ⟨-, calls, hcalls, hmem, hkey⟩ := hleads
  obtain ⟨-, calls', hcalls', hmem', hkey'⟩ := hleads'
  obtain rfl : calls = calls' := Option.some.inj (hcalls.symm.trans hcalls')
  exact List.inj_on_of_nodup_map hd hmem hmem' (hkey.trans hkey'.symm)

/-- The class and the method that a call names. -/
def CallTarget.key (t : CallTarget) : String × String := (t.className, t.methodName)

theorem FlowGraph.mem_callSites {g : FlowGraph} {call : CallSite} : call ∈ g.callSites ↔
    ∃ i ∈ g.instructions, i.opcode = .invoke call.target ∧ call.instruction = g.idOf i.index := by
  rw [callSites, List.mem_filterMap]
  refine exists_congr fun i => and_congr_right fun _ => ?_
  cases hop : i.opcode with
  | invoke target =>
    simp only [Option.some.injEq, Opcode.invoke.injEq]
    constructor
    · rintro rfl
      exact ⟨rfl, rfl⟩
    · rintro ⟨rfl, hi⟩
      rw [← hi]
  | _ => simp

/-- Instructions of graphs of different methods are different. -/
theorem FlowGraph.idOf_inj {f g : FlowGraph} {i j : UInt32} :
    f.idOf i = g.idOf j ↔ f.key = g.key ∧ i = j := by
  simp [idOf, key, and_assoc]

theorem FlowGraph.exists_entry?_iff {g : FlowGraph} :
    (∃ entry, g.entry? = some entry) ↔ g.instructions ≠ [] := by
  cases h : g.instructions <;> simp [ entry?, h]

namespace JoinedGraph

variable {graphs : List FlowGraph} {dispatch : Dispatch} {i entry : InstructionId}

theorem mem_callEdges {g callee : FlowGraph} {index : UInt32} :
    ⟨i, entry, .call⟩ ∈ g.callEdges callee index ↔
      i = g.idOf index ∧ callee.entry? = some entry := by
  unfold FlowGraph.callEdges
  cases callee.entry? with
  | none => simp
  | some e => simp [eq_comm]

/-- A call edge leads from a call to the entry of the graph that the call leads to. -/
theorem mem_edges_join_iff : ⟨i, entry, .call⟩ ∈ (join graphs dispatch).edges ↔
    ∃ g ∈ graphs, ∃ call ∈ g.callSites, call.instruction = i ∧
      ∃ d, callee? graphs dispatch call.target = some d ∧ d.entry? = some entry := by
  have hintra : ∀ g : FlowGraph, (⟨i, entry, .call⟩ : Edge) ∉ g.intraEdges := by
    simp [FlowGraph.intraEdges]
  simp only [join, List.mem_flatMap, List.mem_append, hintra, false_or, outerEdges]
  refine exists_congr fun g => and_congr_right fun _ => exists_congr fun call =>
    and_congr_right fun hcall => ?_
  obtain ⟨j, -, -, hj⟩ := FlowGraph.mem_callSites.1 hcall
  have hid : g.idOf call.instruction.index = call.instruction := by rw [hj]; rfl
  cases callee? graphs dispatch call.target with
  | none => simp
  | some d => simp [mem_callEdges, hid, eq_comm]

theorem mem_edges_of_leaving {g : JoinedGraph} {e : Edge} (he : e ∈ g.leaving i)
    (hk : e.kind = .call) : ⟨i, e.target, .call⟩ ∈ g.edges := by
  obtain ⟨hmem, hi⟩ := List.mem_filter.1 he
  rw [← of_decide_eq_true hi, ← hk]
  exact hmem

theorem graphOf?_eq_some_iff (h : (graphs.map FlowGraph.key).Nodup) {className methodName : String}
    {g : FlowGraph} : graphOf? graphs className methodName = some g ↔
      g ∈ graphs ∧ g.key = (className, methodName) := by
  have hrev : (graphs.reverse.map FlowGraph.key).Nodup := by simpa using h
  rw [← List.mem_reverse, ← find?_key_iff FlowGraph.key hrev, graphOf?]
  simp [FlowGraph.key]

end JoinedGraph

/-- Of values that depend on their keys alone it does not matter which one is written last. -/
theorem Assoc.get?_foldl_insert {α κ ν : Type} [DecidableEq κ] (key : α → κ) {value : α → Option ν}
    (hv : ∀ a b, key a = key b → value a = value b) (l : List α) (m : Assoc κ ν) (a : α) :
    (l.foldl (fun m a => (value a).elim m (m.insert (key a))) m).get? (key a) =
      if key a ∈ l.map key then (value a).or (m.get? (key a)) else m.get? (key a) := by
  induction l generalizing m with
  | nil => simp
  | cons b rest ih =>
    rw [List.foldl_cons, ih]
    by_cases hkey : key a = key b
    · rw [← hv a b hkey]
      cases value a <;> simp [hkey, Assoc.get?_insert]
    · have hother : ((value b).elim m (m.insert (key b))).get? (key a) = m.get? (key a) := by
        cases value b <;> simp [hkey, Assoc.get?_insert]
      rw [hother]
      simp [hkey]

namespace Callee

variable {classes : List ClassInfo} {p : Program} {session : Session} {className : String}
  {resolved : List String} {c : Callee} {target : CallTarget} {call : CallSite} {d g : FlowGraph}

theorem redirect?_eq_some_iff (hs : c.scope = .ofClass (.ofClasses classes) p session className)
    (hd : (c.involved.map FlowGraph.key).Nodup) : c.redirect? target = some d ↔
      CallLeads (.ofClasses classes) className c.involved target d ∧
        d.className ≠ target.className := by
  have hlineage : c.scope.lineage = (Hierarchy.ofClasses classes).lineage className := by
    rw [hs]
    rfl
  have hany : (c.scope.lineage.any (·.className = target.className)) = true ↔
      target.className ∈ className :: (Hierarchy.ofClasses classes).superclasses className := by
    rw [hlineage, ← Hierarchy.map_className_lineage]
    simp
  unfold redirect? CallLeads
  rw [Scope.declaring?, ← hlineage]
  split
  · rename_i h
    cases c.scope.lineage.find? (·.declares target.methodName) with
    | none => simp
    | some calls =>
      have hfind := find?_key_iff FlowGraph.key hd (k := (calls.className, target.methodName))
        (a := d)
      simp only [FlowGraph.key, Prod.mk.injEq] at hfind
      simp only [hany.1 h, true_and, Option.some.injEq, exists_eq_left', FlowGraph.key,
        Prod.mk.injEq]
      grind
  · rename_i h
    simp [hany.not.1 h]

/-- As calls of one target are directed alike, the table gives where each of them is directed. -/
theorem get?_dispatch (hg : g ∈ c.involved) (hcall : call ∈ g.callSites) :
    c.dispatch.get? call.target.key = c.redirect? call.target := by
  have hdispatch : c.dispatch = (c.involved.flatMap (·.callSites)).foldl
      (fun m call => (c.redirect? call.target).elim m (m.insert call.target.key)) .empty := by
    unfold dispatch
    congr 1
    funext m call
    cases c.redirect? call.target <;> rfl
  have hvalue : ∀ a b : CallSite, a.target.key = b.target.key →
      c.redirect? a.target = c.redirect? b.target := by
    intro a b hab
    obtain ⟨hclass, hmethod⟩ := Prod.mk.inj hab
    simp only [redirect?, hclass, hmethod]
  have hmem : call.target.key ∈ (c.involved.flatMap (·.callSites)).map (·.target.key) :=
    List.mem_map_of_mem (List.mem_flatMap.2 ⟨g, hg, hcall⟩)
  rw [hdispatch, Assoc.get?_foldl_insert (fun call : CallSite => call.target.key) hvalue,
    if_pos hmem, Assoc.get?_empty, Option.or_none]

/-- Whether the table directs a call or its name does, it leads to the nearest declaration. -/
theorem callee?_eq_some_iff (hs : c.scope = .ofClass (.ofClasses classes) p session className)
    (hi : Involves (.ofClasses classes) p className resolved c.involved)
    (hg : g ∈ c.involved) (hcall : call ∈ g.callSites) :
    JoinedGraph.callee? c.involved c.dispatch call.target = some d ↔
      CallLeads (.ofClasses classes) className c.involved call.target d := by
  have hd := hi.nodup_keys
  have hredirect (f : FlowGraph) : c.redirect? call.target = some f ↔ _ :=
    redirect?_eq_some_iff hs hd
  have hget := get?_dispatch hg hcall
  rw [CallTarget.key] at hget
  rw [JoinedGraph.callee?, hget]
  cases hr : c.redirect? call.target with
  | some f =>
    have hleads := ((hredirect f).1 hr).1
    constructor
    · rintro ⟨⟩
      exact hleads
    · exact fun hleads' => congrArg some (hleads.unique hd hleads')
  | none =>
    dsimp only
    rw [JoinedGraph.graphOf?_eq_some_iff hd]
    constructor
    · rintro ⟨hmem, hkey⟩
      obtain ⟨hclass, hmethod⟩ := Prod.mk.inj hkey
      obtain ⟨calls, hcalls, hgraph⟩ := hi.nearest d hmem
      have howner : d.className = calls.className :=
        congrArg Prod.fst (Program.key_of_graph? hgraph)
      rw [hmethod] at hcalls
      refine ⟨?_, calls, hcalls, hmem, Prod.ext howner hmethod⟩
      rw [← hclass, howner, ← Hierarchy.map_className_lineage]
      exact List.mem_map_of_mem (List.mem_of_find?_eq_some hcalls)
    · intro hleads
      -- A graph of another class would have been in the table.
      have hsame : d.className = call.target.className := by
        by_contra hne
        cases hr.symm.trans ((hredirect d).2 ⟨hleads, hne⟩)
      obtain ⟨-, calls, -, hmem, hkey⟩ := hleads
      exact ⟨hmem, Prod.ext hsame (congrArg Prod.snd hkey :)⟩

/-- A call has the edge that the graph it leads to gives it. -/
theorem mem_edges_joined_iff (hs : c.scope = .ofClass (.ofClasses classes) p session className)
    (hi : Involves (.ofClasses classes) p className resolved c.involved)
    (hg : g ∈ c.involved) (hindex : (g.instructions.map (·.index)).Nodup) {i : Instruction}
    (hmem : i ∈ g.instructions) (ht : i.opcode = .invoke target) {entry : InstructionId} :
    ⟨g.idOf i.index, entry, .call⟩ ∈ c.joined.edges ↔
      ∃ d, CallLeads (.ofClasses classes) className c.involved target d ∧
        d.entry? = some entry := by
  rw [joined, JoinedGraph.mem_edges_join_iff]
  constructor
  · rintro ⟨f, hf, call, hcall, hid, d, hcallee, hentry⟩
    -- The edge may come from any call with this identity, but there is only one.
    obtain ⟨j, hj, hop, hjd⟩ := FlowGraph.mem_callSites.1 hcall
    obtain ⟨hkey, hij⟩ := FlowGraph.idOf_inj.1 (hjd.symm.trans hid)
    obtain rfl : f = g := List.inj_on_of_nodup_map hi.nodup_keys hf hg hkey
    obtain rfl : j = i := List.inj_on_of_nodup_map hindex hj hmem hij
    obtain rfl : call.target = target := Opcode.invoke.inj (hop.symm.trans ht)
    exact ⟨d, (callee?_eq_some_iff hs hi hg hcall).1 hcallee, hentry⟩
  · rintro ⟨d, hleads, hentry⟩
    have hcall : ⟨g.idOf i.index, target⟩ ∈ g.callSites :=
      FlowGraph.mem_callSites.2 ⟨i, hmem, ht, rfl⟩
    exact ⟨g, hg, _, hcall, rfl, d, (callee?_eq_some_iff hs hi hg hcall).2 hleads, hentry⟩

end Callee

/-- The call edges in the joined graph of a class after any uses, some of which may have drawn it
before. An invoking instruction of an involved graph has one if and only if it names a class of the
lineage, and the nearest class that declares the method has an involved graph of it with an
instruction. All call edges of the instruction lead to the entry of this graph. -/
theorem LiveCallee.call_edges_of_uses (classes : List ClassInfo) (p : Program) (session : Session)
    (className : String) (uses : List Use)
    (hindex : ∀ g ∈ p.graphs, (g.instructions.map (·.index)).Nodup) :
    let h := Hierarchy.ofClasses classes
    let l := (ofClasses classes p session className).run uses
    ∀ g ∈ l.callee.involved, ∀ i ∈ g.instructions, ∀ target, i.opcode = .invoke target →
      ((∃ e ∈ l.joined.1.leaving (g.idOf i.index), e.kind = .call) ↔
        ∃ d, CallLeads h className l.callee.involved target d ∧ d.instructions ≠ []) ∧
      ∀ e ∈ l.joined.1.leaving (g.idOf i.index), e.kind = .call →
        ∀ d, CallLeads h className l.callee.involved target d → d.entry? = some e.target := by
  intro h l g hg i hi target ht
  have hinvolves : Involves h p className _ l.callee.involved := involves_run uses
  have hmem : g ∈ p.graphs := List.mem_of_find?_eq_some (hinvolves.nearest g hg).has
  have hjoined : l.joined.1 = l.callee.joined :=
    fst_joined ((grown_run uses).current current_ofScope)
  have hedge (entry : InstructionId) : ⟨g.idOf i.index, entry, .call⟩ ∈ l.callee.joined.edges ↔ _ :=
    Callee.mem_edges_joined_iff (scope_run uses) hinvolves hg (hindex g hmem) hi ht
  rw [hjoined]
  constructor
  · constructor
    · rintro ⟨e, he, hk⟩
      obtain ⟨d, hleads, hentry⟩ := (hedge e.target).1 (JoinedGraph.mem_edges_of_leaving he hk)
      exact ⟨d, hleads, FlowGraph.exists_entry?_iff.1 ⟨_, hentry⟩⟩
    · rintro ⟨d, hleads, hd⟩
      obtain ⟨entry, hentry⟩ := FlowGraph.exists_entry?_iff.2 hd
      exact ⟨_, List.mem_filter.2 ⟨(hedge entry).2 ⟨d, hleads, hentry⟩, by simp⟩, rfl⟩
  · intro e he hk d hleads
    obtain ⟨d', hleads', hentry⟩ := (hedge e.target).1 (JoinedGraph.mem_edges_of_leaving he hk)
    exact hleads.unique hinvolves.nodup_keys hleads' ▸ hentry

/-- Although it was drawn before, the drawing has the call, which leads to the nearer helper. -/
theorem LiveCallee.unfinished_call_edges :
    (∀ g ∈ unfinishedProgram.graphs, (g.instructions.map (·.index)).Nodup) ∧
    ∃ l, (ofClasses unfinished unfinishedProgram .default "Derived").run someUses = l ∧
      ∃ e ∈ l.joined.1.leaving ⟨"Base", "run", 0⟩, e.kind = .call ∧
        e.target = ⟨"Derived", "helper", 0⟩ := by
  have hindex : ∀ g ∈ unfinishedProgram.graphs, (g.instructions.map (·.index)).Nodup := by decide
  obtain ⟨l, hl, -, -, hinvolved⟩ := run_someUses
  have hedges := call_edges_of_uses unfinished unfinishedProgram .default "Derived" someUses hindex
  rw [hl] at hedges
  obtain ⟨hiff, htarget⟩ := hedges runGraph (by simp [hinvolved]) ⟨0, none, _⟩ List.mem_cons_self
    ⟨"Base", "helper", []⟩ rfl
  have hleads : CallLeads (.ofClasses unfinished) "Derived" l.callee.involved
      ⟨"Base", "helper", []⟩ (helperGraph "Derived") := by
    rw [CallLeads, superclasses_unfinished, hinvolved]
    refine ⟨by decide, (Hierarchy.ofClasses unfinished).callGraph "Derived", ?_, by simp, rfl⟩
    change unfinishedScope.lineage.find? _ = _
    rw [lineage_unfinished]
    rfl
  obtain ⟨e, he, hk⟩ := hiff.2 ⟨_, hleads, by decide⟩
  exact ⟨hindex, l, hl, e, he, hk, (Option.some.inj (htarget e he hk _ hleads)).symm⟩

end CrashSearch
