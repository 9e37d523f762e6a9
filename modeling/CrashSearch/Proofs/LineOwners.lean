import CrashSearch.Proofs.Lines

/-!
# The owner of a source line

Several methods of a class may have instructions on one line. The first of them by name owns the
line, whichever method a frame on that line shows.

## Main definitions

* `Program.Covers`: a method has an instruction on a line.
* `Program.FirstCovering`: no method that comes first by name has one.

## Main statements

* `Program.Built.methodAtLine?_eq_some_iff`: the owner of a line is the first method that covers it.
* `Program.Built.methodAtLine?_eq_none_iff`: a line has no owner just if no method covers it.
-/

namespace CrashSearch

theorem FlowGraph.containsLine_of_firstAtLine? {g : FlowGraph} {line : UInt32} {i : InstructionId}
    (h : g.firstAtLine? line = some i) : g.containsLine line = true := by
  obtain ⟨instruction, hfind, -⟩ := Option.map_eq_some_iff.1 h
  have hline := List.find?_some hfind
  exact List.any_eq_true.2 ⟨instruction, List.mem_of_find?_eq_some hfind, hline⟩

namespace Program

/-- The graph of the method has an instruction on the line. -/
def Covers (p : Program) (className : String) (line : UInt32) (method : String) : Prop :=
  ∃ g, p.graph? className method = some g ∧ g.containsLine line = true

/-- The method covers the line, and all methods of the class that do come behind it by name. -/
def FirstCovering (p : Program) (className : String) (line : UInt32) (method : String) : Prop :=
  p.Covers className line method ∧ ∀ other, p.Covers className line other → method ≤ other

variable {p : Program} {className method : String} {line : UInt32}

/-- However the facts were recorded, looking a method up by name and looking through all graphs come
to the same. -/
theorem Built.mem_methodsAtLine_iff (hp : p.Built) :
    method ∈ p.methodsAtLine className line ↔ p.Covers className line method := by
  rw [mem_methodsAtLine]
  constructor
  · rintro ⟨g, hg, rfl, hl, rfl⟩
    exact ⟨g, hp.graph?_of_mem hg, hl⟩
  · rintro ⟨g, hg, hl⟩
    have hname := List.find?_some hg
    simp only [decide_eq_true_eq] at hname
    exact ⟨g, List.mem_of_find?_eq_some hg, hname.1, hl, hname.2⟩

end Program

/-! ## Names in order -/

theorem pairwise_mergeSort_names (names : List String) :
    (names.mergeSort (· ≤ ·)).Pairwise (· ≤ ·) := by
  have h := @List.pairwise_mergeSort _ (fun a b : String => decide (a ≤ b))
    (by simpa using fun a b c => String.le_trans) (by simpa using String.le_total) names
  simpa using h

/-- The first of some names in order is the least of them. -/
theorem head?_mergeSort_names {names : List String} {name : String} :
    (names.mergeSort (· ≤ ·)).head? = some name ↔
      name ∈ names ∧ ∀ other ∈ names, name ≤ other := by
  have hleast : ∀ {a}, (names.mergeSort (· ≤ ·)).head? = some a → ∀ other ∈ names, a ≤ other := by
    intro a ha other ho
    obtain ⟨rest, hrest⟩ := List.head?_eq_some_iff.1 ha
    have hsorted := pairwise_mergeSort_names names
    rw [hrest] at hsorted
    rcases List.mem_cons.1 (hrest ▸ List.mem_mergeSort.2 ho) with rfl | ho
    · exact String.le_refl _
    · exact List.rel_of_pairwise_cons hsorted ho
  constructor
  · exact fun h => ⟨List.mem_mergeSort.1 (List.mem_of_head? h), hleast h⟩
  · rintro ⟨hmem, hle⟩
    obtain ⟨a, ha⟩ : ∃ a, (names.mergeSort (· ≤ ·)).head? = some a :=
      ⟨_, List.head?_eq_some_head (List.ne_nil_of_mem (List.mem_mergeSort.2 hmem))⟩
    have haMem : a ∈ names := List.mem_mergeSort.1 (List.mem_of_head? ha)
    rw [ha, String.le_antisymm (hleast ha name hmem) (hle a haMem)]

namespace Program.Built

variable {p : Program} {className method : String} {line : UInt32} (hp : p.Built)
include hp

theorem methodAtLine?_eq_some_iff : p.methodAtLine? className line = some method ↔
    p.FirstCovering className line method := by
  simp only [methodAtLine?, head?_mergeSort_names, hp.mem_methodsAtLine_iff, FirstCovering]

theorem methodAtLine?_eq_none_iff : p.methodAtLine? className line = none ↔
    ∀ method, ¬ p.Covers className line method := by
  simp only [methodAtLine?, List.head?_eq_none_iff, List.eq_nil_iff_forall_not_mem,
    List.mem_mergeSort, hp.mem_methodsAtLine_iff]

end Program.Built

end CrashSearch
