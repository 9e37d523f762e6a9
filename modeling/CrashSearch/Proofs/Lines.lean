import CrashSearch.Fitness.Frame
import Mathlib.Data.List.Nodup

/-!
# Source lines and their goals

However the facts of a program were recorded, a method has one graph, so the method that owns a
line also has an instruction there, and the line has a goal or is an error.

## Main definitions

* `Program.Built`: a program whose facts were recorded one by one.
* `Program.Owns`: some method of a class has an instruction on a line.

## Main statements

* `Program.Built.nodup_keys`: a method has one graph.
* `Target.lineGoals_ne_nil`: an owned line that is no error has a goal.
-/

namespace CrashSearch

namespace Program

/-- The programs that recording facts can build. -/
inductive Built : Program → Prop
  | empty : Built .empty
  | insertGraph {p} (g : FlowGraph) : Built p → Built (p.insertGraph g)
  | addBranch {p} (b : Branch) : Built p → Built (p.addBranch b)
  | addSwitch {p} (i : InstructionId) (cases : List Branch) : Built p → Built (p.addSwitch i cases)
  | addDependencies {p} (i : InstructionId) (ds : List ControlDependency) :
      Built p → Built (p.addDependencies i ds)
  | markRoot {p} (i : InstructionId) : Built p → Built (p.markRoot i)

/-- Some method of the class has an instruction on the line. -/
def Owns (p : Program) (className : String) (line : UInt32) : Prop :=
  ∃ g ∈ p.graphs, g.className = className ∧ g.containsLine line = true

variable {p : Program} {g : FlowGraph} {className method : String} {line : UInt32}

theorem nodup_keys_insertGraph (h : (p.graphs.map FlowGraph.key).Nodup) :
    ((p.insertGraph g).graphs.map FlowGraph.key).Nodup := by
  rw [insertGraph, List.map_cons, List.nodup_cons]
  constructor
  · intro hm
    obtain ⟨f, hf, hk⟩ := List.mem_map.1 hm
    have hs : g.sameMethod f = true := FlowGraph.sameMethod_iff.2 hk.symm
    have := (List.mem_filter.1 hf).2
    simp [hs] at this
  · exact (List.filter_sublist.map _).nodup h

/-- Every way to record a fact keeps one graph for each method. -/
theorem Built.nodup_keys (h : p.Built) : (p.graphs.map FlowGraph.key).Nodup := by
  induction h with
  | empty => exact List.nodup_nil
  | insertGraph _ _ ih => exact nodup_keys_insertGraph ih
  | addBranch _ _ ih => exact ih
  | addSwitch _ _ _ ih => exact ih
  | addDependencies _ _ _ ih => exact ih
  | markRoot _ _ ih => exact ih

theorem Built.graph?_of_mem (h : p.Built) (hg : g ∈ p.graphs) :
    p.graph? g.className g.methodName = some g := by
  unfold graph?
  cases hf : p.graphs.find? fun f => f.className = g.className ∧ f.methodName = g.methodName with
  | none =>
    have := List.find?_eq_none.1 hf g hg
    simp at this
  | some f =>
    have hk : f.key = g.key := by
      have := List.find?_some hf
      simpa [FlowGraph.key] using this
    rw [List.inj_on_of_nodup_map h.nodup_keys (List.mem_of_find?_eq_some hf) hg hk]

theorem mem_methodsAtLine : method ∈ p.methodsAtLine className line ↔
    ∃ g ∈ p.graphs, g.className = className ∧ g.containsLine line = true ∧
      g.methodName = method := by
  simp [methodsAtLine, and_assoc]

theorem exists_methodAtLine? (h : p.Owns className line) :
    ∃ method, p.methodAtLine? className line = some method := by
  obtain ⟨g, hg, hc, hl⟩ := h
  have hm : g.methodName ∈ p.methodsAtLine className line :=
    mem_methodsAtLine.2 ⟨g, hg, hc, hl, rfl⟩
  have hne : (p.methodsAtLine className line).mergeSort (· ≤ ·) ≠ [] :=
    List.ne_nil_of_mem (List.mem_mergeSort.2 hm)
  exact ⟨_, List.head?_eq_some_head hne⟩

theorem mem_of_methodAtLine? (h : p.methodAtLine? className line = some method) :
    method ∈ p.methodsAtLine className line :=
  List.mem_mergeSort.1 (List.mem_of_head? h)

theorem exists_firstAtLine? (h : g.containsLine line = true) :
    ∃ i, g.firstAtLine? line = some i := by
  obtain ⟨i, hi, hl⟩ := List.any_eq_true.1 h
  have hs : (g.instructions.find? (·.line = some line)).isSome = true :=
    List.find?_isSome.2 ⟨i, hi, hl⟩
  obtain ⟨j, hj⟩ := Option.isSome_iff_exists.1 hs
  exact ⟨_, by rw [FlowGraph.firstAtLine?, hj]; rfl⟩

/-- A line with an instruction depends on something, or its instruction is a root. -/
theorem goals_ne_nil {i : InstructionId} {goals : List Goal}
    (hi : p.firstAtLine? className method line = some i)
    (hg : p.goals className method line = .ok goals) : goals ≠ [] := by
  unfold Program.goals at hg
  rw [hi] at hg
  dsimp only at hg
  split at hg
  · cases hg
  · rename_i hne
    rintro rfl
    obtain ⟨hd, hr⟩ := List.append_eq_nil_iff.1 (Except.ok.inj hg)
    exact hne ⟨List.map_eq_nil_iff.1 hd, by simpa using hr⟩

theorem Built.goals_ne_nil (h : p.Built) {goals : List Goal}
    (hm : p.methodAtLine? className line = some method)
    (hg : p.goals className method line = .ok goals) : goals ≠ [] := by
  obtain ⟨g, hmem, rfl, hl, rfl⟩ := mem_methodsAtLine.1 (mem_of_methodAtLine? hm)
  obtain ⟨i, hi⟩ := exists_firstAtLine? hl
  exact Program.goals_ne_nil (by rw [firstAtLine?, h.graph?_of_mem hmem]; exact hi) hg

end Program

theorem Target.lineGoals_ne_nil {t : Target} (h : t.program.Built) {className : String}
    {line : UInt32} (ho : t.program.Owns className line) {goals : List Goal}
    (hg : t.lineGoals className line = .ok goals) : goals ≠ [] := by
  obtain ⟨method, hm⟩ := Program.exists_methodAtLine? ho
  rw [lineGoals, hm] at hg
  exact h.goals_ne_nil hm hg

end CrashSearch
