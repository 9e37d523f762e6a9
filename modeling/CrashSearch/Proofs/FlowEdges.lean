import CrashSearch.Ordered.Distinct
import CrashSearch.Proofs.Documents
import CrashSearch.Proofs.JoinedEdges

/-!
# The edges of one method

The edges of falling through come from the instructions, the others from jumps, and only a jump is
left out if its edge is there. Since no two instructions have the same index, control falls through
from each of them once at most, and so no edge is there twice, whatever the jumps are.

## Main definitions

* `FlowGraph.falls`: the pairs of instructions between which control falls through.
* `FlowGraph.fallsTo?`: where control falls through to from one instruction.
* `FlowGraph.Spelled`: the members of a document are those of a graph.

## Main statements

* `FlowGraph.edges_foldl_addEdge`: the edges after some jumps.
* `FlowGraph.ofJson_eq_ok_iff`: which documents are graphs.
* `FlowGraph.edges_of_jumps`: the edges of a graph and the successors of its instructions.
-/

namespace CrashSearch

open Json

namespace FlowGraph

variable {instructions : List Instruction} {jumps : List (UInt32 × UInt32)} {index : UInt32}

/-- The pairs of consecutive instructions of which the first is no return, by their indexes. -/
def falls (instructions : List Instruction) : List (UInt32 × UInt32) :=
  ((instructions.zip instructions.tail).filter (·.1.opcode ≠ .return)).map
    fun (a, b) => (a.index, b.index)

/-- The instruction behind the one with an index, unless that one returns. -/
def fallsTo? (index : UInt32) : List Instruction → Option UInt32
  | a :: b :: rest =>
    if a.index = index then if a.opcode = .return then none else some b.index
    else fallsTo? index (b :: rest)
  | _ => none

/-- The targets of the jumps from an instruction. -/
def targets (jumps : List (UInt32 × UInt32)) (index : UInt32) : List UInt32 :=
  (jumps.filter (·.1 = index)).map (·.2)

theorem falls_cons_cons (a b : Instruction) (rest : List Instruction) :
    falls (a :: b :: rest) = if a.opcode = .return then falls (b :: rest)
      else (a.index, b.index) :: falls (b :: rest) := by
  by_cases hreturn : a.opcode = .return <;> simp [falls, hreturn]

theorem falls_eq_nil (h : ∀ a b rest, instructions ≠ a :: b :: rest) : falls instructions = [] := by
  match instructions, h with
  | [], _ => rfl
  | [_], _ => rfl
  | a :: b :: rest, h => exact absurd rfl (h a b rest)

theorem fallThrough_eq_falls (instructions : List Instruction) :
    fallThrough instructions = falls instructions := by
  fun_induction fallThrough instructions with
  | case1 a b rest hreturn ih => rw [falls_cons_cons, if_pos hreturn, ih]
  | case2 a b rest hreturn ih => rw [falls_cons_cons, if_neg hreturn, ih]
  | case3 l hshort =>
    rw [falls_eq_nil hshort]

theorem fst_mem_of_mem_falls {e : UInt32 × UInt32} (he : e ∈ falls instructions) :
    e.1 ∈ instructions.map (·.index) := by
  obtain ⟨⟨a, b⟩, hab, rfl⟩ := List.mem_map.1 he
  exact List.mem_map_of_mem (List.of_mem_zip (List.mem_of_mem_filter hab)).1

/-- With distinct indexes control falls through from an instruction to one other at most. -/
theorem targets_falls (hindexes : (instructions.map (·.index)).Nodup) (index : UInt32) :
    targets (falls instructions) index = (fallsTo? index instructions).toList := by
  have hnone {l : List Instruction} (hl : index ∉ l.map (·.index)) :
      targets (falls l) index = [] := by
    simp only [targets, List.map_eq_nil_iff, List.filter_eq_nil_iff, decide_eq_true_eq]
    rintro e he rfl
    exact hl (fst_mem_of_mem_falls he)
  fun_induction fallsTo? index instructions with
  | case1 a b rest hindex hreturn =>
    rw [falls_cons_cons, if_pos hreturn]
    exact hnone (by grind)
  | case2 a b rest hindex hreturn =>
    rw [falls_cons_cons, if_neg hreturn, targets, List.filter_cons_of_pos (by simpa),
      List.map_cons, ← targets, hnone (by grind)]
    rfl
  | case3 a b rest hindex ih =>
    rw [← ih (by grind), falls_cons_cons]
    split
    · rfl
    · rw [targets, List.filter_cons_of_neg (by simpa), ← targets]
  | case4 l hshort =>
    rw [falls_eq_nil hshort]
    rfl

theorem nodup_falls (hindexes : (instructions.map (·.index)).Nodup) :
    (falls instructions).Nodup := by
  rw [← fallThrough_eq_falls]
  fun_induction fallThrough instructions with
  | case1 a b rest hreturn ih => grind
  | case2 a b rest hreturn ih =>
    rw [fallThrough_eq_falls] at ih ⊢
    have hfst := @fst_mem_of_mem_falls (b :: rest)
    grind
  | case3 => exact .nil

/-! ## Jumps -/

/-- Of the jumps the first occurrences are added, as far as they are not there yet. -/
theorem edges_foldl_addEdge (jumps : List (UInt32 × UInt32)) (g : FlowGraph) :
    (jumps.foldl addEdge g).edges = g.edges ++ (jumps.filter (· ∉ g.edges)).eraseDups := by
  induction jumps generalizing g with
  | nil => simp
  | cons e jumps ih =>
    rw [List.foldl_cons, ih]
    by_cases he : e ∈ g.edges
    · simp [addEdge, he]
    · have hfilter : jumps.filter (· ∉ g.edges ++ [e]) =
          (jumps.filter (· ∉ g.edges)).filter (!· == e) := by
        rw [List.filter_filter]
        exact List.filter_congr (by grind)
      simp only [addEdge, if_neg he]
      rw [hfilter, List.filter_cons_of_pos (by simpa), List.eraseDups_cons, List.append_assoc,
        List.singleton_append]

variable {className methodName : String}

theorem edges_withJumps : (withJumps className methodName instructions jumps).edges =
    falls instructions ++ (jumps.filter (· ∉ falls instructions)).eraseDups := by
  rw [withJumps, edges_foldl_addEdge, make, fallThrough_eq_falls]

theorem nodup_edges_withJumps (hindexes : (instructions.map (·.index)).Nodup) :
    (withJumps className methodName instructions jumps).edges.Nodup := by
  rw [edges_withJumps]
  refine (nodup_falls hindexes).append (nodup_eraseDups _) fun e he hj => ?_
  simp_all [List.mem_eraseDups]

theorem successors_withJumps (hindexes : (instructions.map (·.index)).Nodup) (index : UInt32) :
    (withJumps className methodName instructions jumps).successors index =
      (fallsTo? index instructions).toList ++
        ((targets jumps index).filter (fallsTo? index instructions ≠ some ·)).eraseDups := by
  have hfall (x : UInt32) : (index, x) ∈ falls instructions ↔
      fallsTo? index instructions = some x := by
    rw [← Option.mem_toList, ← targets_falls hindexes]
    simp [targets]
  have hinj : ∀ a ∈ jumps.filter (·.1 = index), ∀ b ∈ jumps.filter (·.1 = index),
      a.2 = b.2 → a = b := by
    grind
  have hnew : (targets jumps index).filter (fallsTo? index instructions ≠ some ·) =
      targets (jumps.filter (· ∉ falls instructions)) index := by
    rw [targets, List.filter_map, List.filter_filter, targets, List.filter_filter]
    refine congrArg _ (List.filter_congr ?_)
    grind
  rw [successors, edges_withJumps, List.filter_append, List.map_append, ← targets,
    targets_falls hindexes, hnew, ← filter_eraseDups, targets, map_eraseDups]
  grind

theorem mem_successors_withJumps_iff {x : UInt32} :
    x ∈ (withJumps className methodName instructions jumps).successors index ↔
      (index, x) ∈ falls instructions ∨ (index, x) ∈ jumps := by
  rw [mem_successors, edges_withJumps, List.mem_append, List.mem_eraseDups, List.mem_filter]
  grind

/-- Two lists of the same jumps give the same successors in another order at most. -/
theorem successors_withJumps_perm (hindexes : (instructions.map (·.index)).Nodup)
    {jumps' : List (UInt32 × UInt32)} (hjumps : ∀ e, e ∈ jumps' ↔ e ∈ jumps) (index : UInt32) :
    ((withJumps className methodName instructions jumps').successors index).Perm
      ((withJumps className methodName instructions jumps).successors index) := by
  have hnodup (l : List (UInt32 × UInt32)) :
      ((withJumps className methodName instructions l).successors index).Nodup := by
    refine ((nodup_edges_withJumps hindexes).filter _).map_on ?_
    grind
  refine (List.perm_ext_iff_of_nodup (hnodup _) (hnodup _)).2 fun x => ?_
  rw [mem_successors_withJumps_iff, mem_successors_withJumps_iff, hjumps]

/-! ## Documents -/

/-- The members of a document are those of a graph. The jumps may be missing. -/
def Spelled (j : Json) (className methodName : String) (instructions : List Instruction)
    (jumps : List (UInt32 × UInt32)) : Prop :=
  ∃ fs, fields ["class_name", "method_name", "instructions", "jumps"] j = .ok fs ∧
    fs.required "class_name" asText = .ok className ∧
    fs.required "method_name" asText = .ok methodName ∧
    fs.required "instructions" (asList Instruction.ofJson) = .ok instructions ∧
    fs.optional "jumps" (asList (asPair asWord32)) [] = .ok jumps

/-- A document is a graph just if it spells one, and then its jumps are added one by one. -/
theorem ofJson_eq_ok_iff {j : Json} {g : FlowGraph} : ofJson j = .ok g ↔
    ∃ className methodName instructions jumps, Spelled j className methodName instructions jumps ∧
      g = withJumps className methodName instructions jumps := by
  constructor
  · intro h
    unfold ofJson at h
    obtain ⟨fs, hfs, h⟩ := exists_of_bind_eq_ok h
    obtain ⟨className, hclass, h⟩ := exists_of_bind_eq_ok h
    obtain ⟨methodName, hmethod, h⟩ := exists_of_bind_eq_ok h
    obtain ⟨instructions, hinstructions, h⟩ := exists_of_bind_eq_ok h
    obtain ⟨jumps, hjumps, h⟩ := exists_of_bind_eq_ok h
    exact ⟨className, methodName, instructions, jumps,
      ⟨fs, hfs, hclass, hmethod, hinstructions, hjumps⟩, (Except.ok.inj h).symm⟩
  · rintro ⟨className, methodName, instructions, jumps,
      ⟨fs, hfs, hclass, hmethod, hinstructions, hjumps⟩, rfl⟩
    simp only [ofJson, hfs, ok_bind, hclass, hmethod, hinstructions, hjumps]
    rfl

/-- Every graph can be spelled, by a document with all members. -/
theorem exists_spelled (className methodName : String) (instructions : List Instruction)
    (jumps : List (UInt32 × UInt32)) :
    ∃ j, Spelled j className methodName instructions jumps := by
  obtain ⟨fs, hfs, hm⟩ := (Rearranged.refl (record [("class_name", text className),
      ("method_name", text methodName),
      ("instructions", .array (instructions.map Instruction.toJson)),
      ("jumps", edgesToJson jumps)])).exists_fields
    ["class_name", "method_name", "instructions", "jumps"] rfl (by decide)
  have hpairs : ReadsBack edgesToJson (asList (asPair asWord32)) := .list (.pair .word32)
  exact ⟨_, fs, hfs, hm.required .text (by simp), hm.required .text (by simp),
    hm.required (.list Instruction.readsBack) (by simp), hm.optional hpairs (by simp) _⟩

/-! ## Edges and successors -/

/-- Take a graph with distinct indexes, read from a document or made by adding its jumps one by one.
No edge is there twice. First come the edges of falling through, in the order of the instructions,
then the jumps that are not there yet, in the order in which they occur first. So an instruction is
followed by the one that control falls through to and then by the other targets of its jumps, and
the order of the jumps decides nothing but the order of these. -/
theorem edges_of_jumps (className methodName : String)
    (hindexes : (instructions.map (·.index)).Nodup) (jumps : List (UInt32 × UInt32)) :
    (∃ j, Spelled j className methodName instructions jumps) ∧
      (∀ j, Spelled j className methodName instructions jumps →
        ofJson j = .ok (jumps.foldl addEdge (make className methodName instructions))) ∧
      (withJumps className methodName instructions jumps).edges.Nodup ∧
      (withJumps className methodName instructions jumps).edges =
        falls instructions ++ (jumps.filter (· ∉ falls instructions)).eraseDups ∧
      (∀ index, (withJumps className methodName instructions jumps).successors index =
        (fallsTo? index instructions).toList ++
          ((targets jumps index).filter (fallsTo? index instructions ≠ some ·)).eraseDups) ∧
      ∀ jumps' : List (UInt32 × UInt32), (∀ e, e ∈ jumps' ↔ e ∈ jumps) → ∀ index,
        ((withJumps className methodName instructions jumps').successors index).Perm
          ((withJumps className methodName instructions jumps).successors index) :=
  ⟨exists_spelled .., fun _ hj => ofJson_eq_ok_iff.2 ⟨_, _, _, _, hj, rfl⟩,
    nodup_edges_withJumps hindexes, edges_withJumps, successors_withJumps hindexes,
    fun _ hjumps => successors_withJumps_perm hindexes hjumps⟩

/-- A loop with a way out of it, and a return behind the return. -/
def loop : List Instruction :=
  [⟨0, none, .branch⟩, ⟨5, none, .plain⟩, ⟨2, none, .return⟩, ⟨3, none, .return⟩]

def loopJumps : List (UInt32 × UInt32) := [(0, 2), (0, 5), (5, 0), (0, 2), (2, 3)]

/-- A jump that was there before is left out, and so is one to where control falls through anyway. A
jump from a return is added like any other. -/
theorem loop_edges :
    (loop.map (·.index)).Nodup ∧
      (withJumps "A" "m" loop loopJumps).edges = [(0, 5), (5, 2), (0, 2), (5, 0), (2, 3)] ∧
      (withJumps "A" "m" loop loopJumps).successors 0 = [5, 2] ∧
      ((withJumps "A" "m" loop loopJumps.reverse).successors 5).Perm [2, 0] := by
  have hindexes : (loop.map (·.index)).Nodup := by decide
  obtain ⟨-, -, -, hedges, hsuccessors, hperm⟩ := edges_of_jumps "A" "m" hindexes loopJumps
  exact ⟨hindexes, hedges.trans (by decide), (hsuccessors 0).trans (by decide),
    (hperm loopJumps.reverse (fun _ => List.mem_reverse) 5).trans
      (.of_eq ((hsuccessors 5).trans (by decide)))⟩

end FlowGraph

end CrashSearch
