import CrashSearch.Model.Scenario
import CrashSearch.Proofs.ClassGraphs
import CrashSearch.Proofs.LineOwners

/-!
# What a scenario loads

The facts of a scenario are recorded one after the other. Of several graphs of one method, several
branches at one instruction, several switches or several classes of one name the last is answered;
a switch is answered before any branch; dependencies of one instruction add up. What the lines of a
class belong to is looked up among the graphs that are left in the end.

## Main definitions

* `Scenario.lastGraph?`, `Scenario.lastBranch?`, `Scenario.lastSwitch?`, `Scenario.lastClass?`: the
  last entries of a scenario.
* `Program.addEntry`: records a dependency entry.
* `Scenario.Answers`: what a program and a hierarchy answer about a scenario.

## Main statements

* `foldl_writes`: the last of several writes is answered.
* `Scenario.built_program`: the program of a scenario is recorded fact by fact.
* `Scenario.loaded_answers`: what is loaded answers what the scenario says.
-/

namespace CrashSearch

/-! ## Entries of a scenario -/

namespace Scenario

/-- The last graph of a method. -/
def lastGraph? (s : Scenario) (className method : String) : Option FlowGraph :=
  (s.graphs.filter fun g => g.className = className ∧ g.methodName = method).getLast?

/-- The last branch at an instruction. -/
def lastBranch? (s : Scenario) (i : InstructionId) : Option Branch :=
  (s.branches.filter (·.instruction = i)).getLast?

/-- The last switch at an instruction. -/
def lastSwitch? (s : Scenario) (i : InstructionId) : Option SwitchEntry :=
  (s.switches.filter (·.instruction = i)).getLast?

/-- The last class of a name. -/
def lastClass? (s : Scenario) (name : String) : Option ClassInfo :=
  (s.classes.filter (·.name = name)).getLast?

end Scenario

/-! ## Folds of writes -/

section Folds

variable {σ α ν β : Type} (write : σ → α → σ)

/-- A state is asked for something that some writes replace and all others leave as it is. After
several writes it answers the last of those. -/
theorem foldl_writes (answer : σ → Option ν) (writes : α → Bool) (value : α → ν)
    (hwrite : ∀ s a, answer (write s a) = if writes a then some (value a) else answer s)
    (s : σ) (l : List α) :
    answer (l.foldl write s) = ((l.filter writes).getLast?.map value).or (answer s) := by
  induction l generalizing s with
  | nil => rfl
  | cons a l ih =>
    rw [List.foldl_cons, ih, hwrite]
    cases ha : writes a with
    | false => rw [List.filter_cons_of_neg (by simp [ha]), if_neg Bool.false_ne_true]
    | true =>
      rw [List.filter_cons_of_pos ha, List.getLast?_cons, if_pos rfl]
      cases (l.filter writes).getLast? <;> rfl

theorem foldl_unchanged (part : σ → β) (hwrite : ∀ s a, part (write s a) = part s) (s : σ)
    (l : List α) : part (l.foldl write s) = part s :=
  List.foldlRecOn (motive := fun s' => part s' = part s) l write rfl
    fun s' h a _ => (hwrite s' a).trans h

end Folds

/-! ## Facts of a program -/

namespace Program

variable {p : Program} {i : InstructionId} {className method : String}

/-- Records a dependency entry. -/
def addEntry (p : Program) (e : DependencyEntry) : Program :=
  if e.rootDependent then (p.addDependencies e.instruction e.dependencies).markRoot e.instruction
  else p.addDependencies e.instruction e.dependencies

theorem graph?_insertGraph {g : FlowGraph} : (p.insertGraph g).graph? className method =
    if g.className = className ∧ g.methodName = method then some g
    else p.graph? className method := by
  unfold graph? insertGraph
  split
  · rename_i h
    exact List.find?_cons_of_pos (decide_eq_true h)
  · rename_i h
    rw [List.find?_cons_of_neg (by simpa using h), List.find?_filter]
    -- A graph of the method asked for is none of the method that was replaced.
    refine congrArg (List.find? · p.graphs) (funext fun f => ?_)
    by_cases hf : f.className = className ∧ f.methodName = method
    · obtain ⟨rfl, rfl⟩ := hf
      simpa [FlowGraph.sameMethod, -not_and, not_and_or] using h
    · simp [hf]

/-- Whatever does not depend on the roots is as after the dependencies alone. -/
theorem part_addEntry {β : Type} (part : Program → β)
    (hroot : ∀ p i, part (markRoot p i) = part p) (e : DependencyEntry) :
    part (p.addEntry e) = part (p.addDependencies e.instruction e.dependencies) := by
  unfold addEntry
  split
  · exact hroot _ _
  · rfl

theorem graph?_addEntry (e : DependencyEntry) :
    (p.addEntry e).graph? className method = p.graph? className method :=
  part_addEntry (·.graph? className method) (fun _ _ => rfl) e

theorem kinds_addEntry (e : DependencyEntry) : (p.addEntry e).kinds = p.kinds :=
  part_addEntry kinds (fun _ _ => rfl) e

theorem dependencies_addEntry (e : DependencyEntry) : (p.addEntry e).dependencies i =
    if e.instruction = i then p.dependencies i ++ e.dependencies else p.dependencies i := by
  rw [part_addEntry (·.dependencies i) (fun _ _ => rfl), dependencies, addDependencies,
    Assoc.get?_insert]
  by_cases hi : i = e.instruction
  · simp [hi]
  · simp [hi, Ne.symm hi, dependencies]

theorem isRoot_addEntry (e : DependencyEntry) : (p.addEntry e).isRoot i = true ↔
    p.isRoot i = true ∨ e.instruction = i ∧ e.rootDependent = true := by
  unfold addEntry isRoot
  cases e.rootDependent with
  | true =>
    simp only [if_pos, markRoot, addDependencies, List.mem_cons, decide_eq_true_eq, and_true]
    exact or_comm.trans (or_congr_right eq_comm)
  | false => simp [addDependencies]

theorem dependencies_foldl_addEntry (p : Program) (entries : List DependencyEntry) :
    (entries.foldl addEntry p).dependencies i =
      p.dependencies i ++ (entries.filter (·.instruction = i)).flatMap (·.dependencies) := by
  induction entries generalizing p with
  | nil => simp
  | cons e entries ih =>
    rw [List.foldl_cons, ih, dependencies_addEntry]
    by_cases hi : e.instruction = i <;> simp [hi]

theorem isRoot_foldl_addEntry (p : Program) (entries : List DependencyEntry) :
    (entries.foldl addEntry p).isRoot i = true ↔
      p.isRoot i = true ∨ ∃ e ∈ entries, e.instruction = i ∧ e.rootDependent = true := by
  induction entries generalizing p with
  | nil => simp
  | cons e entries ih =>
    rw [List.foldl_cons, ih, isRoot_addEntry, List.exists_mem_cons_iff, or_assoc]

theorem Built.addEntry (hp : p.Built) (e : DependencyEntry) : (p.addEntry e).Built := by
  unfold Program.addEntry
  split
  · exact .markRoot _ (.addDependencies _ _ hp)
  · exact .addDependencies _ _ hp

end Program

/-! ## Facts of a hierarchy -/

namespace Hierarchy

variable {h : Hierarchy} {name : String}

theorem find?_insert {c : ClassInfo} : (h.insert c).find? name =
    if c.name = name then some c else h.find? name := by
  rw [find?, insert, Assoc.get?_insert]
  exact if_congr eq_comm rfl rfl

theorem nodup_keys_ofClasses (classes : List ClassInfo) :
    (ofClasses classes).classes.keys.Nodup :=
  List.foldlRecOn (motive := fun h : Hierarchy => h.classes.keys.Nodup) classes insert .nil
    fun _ hn _ _ => Assoc.nodup_keys_insert hn

theorem mem_keys_ofClasses {classes : List ClassInfo} :
    name ∈ (ofClasses classes).classes.keys ↔ ∃ c ∈ classes, c.name = name := by
  have hfold : ∀ (l : List ClassInfo) (h : Hierarchy), name ∈ (l.foldl insert h).classes.keys ↔
      name ∈ h.classes.keys ∨ ∃ c ∈ l, c.name = name := by
    intro l
    induction l with
    | nil => simp
    | cons c l ih =>
      intro h
      rw [List.foldl_cons, ih, insert, Assoc.mem_keys_insert, List.exists_mem_cons_iff,
        ← or_assoc, @eq_comm _ c.name, @or_comm (name = c.name)]
  have hempty : name ∉ empty.classes.keys := List.not_mem_nil
  rw [ofClasses, hfold, or_iff_right hempty]

theorem mem_loaded_iff {classes : List ClassInfo} :
    name ∈ (ofClasses classes).loaded ↔ ∃ c ∈ classes, c.name = name := by
  rw [loaded, List.mem_mergeSort, mem_keys_ofClasses]

/-- The names are in order, and each of them is there once. -/
theorem pairwise_loaded (classes : List ClassInfo) :
    (ofClasses classes).loaded.Pairwise (· < ·) := by
  have hnodup : (ofClasses classes).loaded.Nodup :=
    (List.mergeSort_perm _ _).nodup_iff.2 (nodup_keys_ofClasses classes)
  refine (pairwise_mergeSort_names _).imp₂ (fun a b hle hne => ?_) hnodup
  exact Std.lt_of_le_of_ne hle hne

end Hierarchy

/-! ## What is answered -/

namespace Scenario

/-- What a program and a hierarchy answer, told by the entries of a scenario. -/
structure Answers (s : Scenario) (p : Program) (h : Hierarchy) : Prop where
  graph?_eq (className method : String) :
    p.graph? className method = s.lastGraph? className method
  /-- A switch counts whatever branches there are at its instruction. -/
  branchKind_eq (i : InstructionId) : p.branchKind i =
    match s.lastSwitch? i, s.lastBranch? i with
    | some entry, _ => .switch entry.cases
    | none, some branch => .normal branch
    | none, none => .unknown
  dependencies_eq (i : InstructionId) : p.dependencies i =
    (s.dependencies.filter (·.instruction = i)).flatMap (·.dependencies)
  isRoot_iff (i : InstructionId) : p.isRoot i = true ↔
    ∃ e ∈ s.dependencies, e.instruction = i ∧ e.rootDependent = true
  methodAtLine?_eq_some_iff (className : String) (line : UInt32) (method : String) :
    p.methodAtLine? className line = some method ↔ p.FirstCovering className line method
  methodAtLine?_eq_none_iff (className : String) (line : UInt32) :
    p.methodAtLine? className line = none ↔ ∀ method, ¬ p.Covers className line method
  callGraph_eq (name : String) :
    h.callGraph name = ((s.lastClass? name).map (·.callGraph name)).getD (.empty name)
  declares_iff (name m : String) : (h.callGraph name).declares m = true ↔
    ∃ c, s.lastClass? name = some c ∧
      (m ∈ c.methods ∨ ∃ call ∈ c.calls, m = call.1 ∨ m = call.2)
  mem_children_iff (name x y : String) : y ∈ (h.callGraph name).children x ↔
    ∃ c, s.lastClass? name = some c ∧ (x, y) ∈ c.calls
  superclass?_eq (name : String) : h.superclass? name = s.lastClass? name >>= (·.superclass)
  interfacesOf_eq (name : String) :
    h.interfacesOf name = ((s.lastClass? name).map (·.interfaces)).getD []
  isInterface_eq (name : String) :
    h.isInterface name = ((s.lastClass? name).map (·.isInterface)).getD false
  /-- The names are in order, and none is there twice. -/
  pairwise_loaded : h.loaded.Pairwise (· < ·)
  mem_loaded_iff (name : String) : name ∈ h.loaded ↔ ∃ c ∈ s.classes, c.name = name

variable (s : Scenario)

/-- Records a switch. -/
def addSwitchEntry (p : Program) (e : SwitchEntry) : Program := p.addSwitch e.instruction e.cases

/-- The program with its graphs and with what is known of its branching instructions. -/
def withKinds (s : Scenario) : Program :=
  s.switches.foldl addSwitchEntry
    (s.branches.foldl Program.addBranch (s.graphs.foldl Program.insertGraph .empty))

theorem program_eq : s.program = s.dependencies.foldl Program.addEntry s.withKinds := rfl

/-- What neither a graph nor a branch nor a switch changes is still as in the empty program. -/
theorem part_withKinds {β : Type} (part : Program → β)
    (hgraph : ∀ p g, part (Program.insertGraph p g) = part p)
    (hbranch : ∀ p b, part (Program.addBranch p b) = part p)
    (hswitch : ∀ p e, part (addSwitchEntry p e) = part p) : part s.withKinds = part .empty := by
  rw [withKinds, foldl_unchanged _ part hswitch, foldl_unchanged _ part hbranch,
    foldl_unchanged _ part hgraph]

theorem built_program : s.program.Built := by
  have hgraphs : (s.graphs.foldl Program.insertGraph .empty).Built :=
    List.foldlRecOn s.graphs _ .empty fun _ hp g _ => .insertGraph g hp
  have hbranches : (s.branches.foldl Program.addBranch _).Built :=
    List.foldlRecOn s.branches _ hgraphs fun _ hp b _ => .addBranch b hp
  have hkinds : s.withKinds.Built :=
    List.foldlRecOn s.switches _ hbranches fun _ hp e _ => .addSwitch e.instruction e.cases hp
  exact List.foldlRecOn s.dependencies _ hkinds fun _ hp e _ => hp.addEntry e

theorem graph?_program (className method : String) :
    s.program.graph? className method = s.lastGraph? className method := by
  let answer (p : Program) : Option FlowGraph := p.graph? className method
  have hgraphs : answer (s.graphs.foldl Program.insertGraph .empty) = _ :=
    foldl_writes _ answer (fun g => g.className = className ∧ g.methodName = method) id
      (fun _ _ => by simpa using Program.graph?_insertGraph) _ _
  calc s.program.graph? className method
      = answer s.withKinds :=
        foldl_unchanged _ answer (fun _ e => Program.graph?_addEntry e) _ _
    _ = answer (s.branches.foldl Program.addBranch _) :=
        foldl_unchanged addSwitchEntry answer (fun _ _ => rfl) _ _
    _ = answer (s.graphs.foldl Program.insertGraph .empty) :=
        foldl_unchanged Program.addBranch answer (fun _ _ => rfl) _ _
    _ = s.lastGraph? className method := by
        rw [hgraphs, Option.map_id_fun, id, show answer .empty = none from rfl, Option.or_none]
        rfl

/-- The switches are recorded last, over the branches. -/
theorem branchKind_program (i : InstructionId) : s.program.branchKind i =
    match s.lastSwitch? i, s.lastBranch? i with
    | some entry, _ => .switch entry.cases
    | none, some branch => .normal branch
    | none, none => .unknown := by
  let answer (p : Program) : Option BranchKind := p.kinds.get? i
  have hentries : answer s.program = answer s.withKinds :=
    foldl_unchanged _ answer (fun _ e => congrArg (·.get? i) (Program.kinds_addEntry e)) _ _
  have hswitches : answer s.withKinds = ((s.lastSwitch? i).map (.switch ·.cases)).or
      (answer (s.branches.foldl Program.addBranch _)) :=
    foldl_writes addSwitchEntry answer (·.instruction = i) (.switch ·.cases)
      (fun _ _ => by simp [answer, addSwitchEntry, Program.addSwitch, Assoc.get?_insert, eq_comm])
      _ _
  have hbranches : answer (s.branches.foldl Program.addBranch _) =
      ((s.lastBranch? i).map .normal).or
        (answer (s.graphs.foldl Program.insertGraph .empty)) :=
    foldl_writes Program.addBranch answer (·.instruction = i) .normal
      (fun _ _ => by simp [answer, Program.addBranch, Assoc.get?_insert, eq_comm]) _ _
  have hgraphs : answer (s.graphs.foldl Program.insertGraph .empty) = none :=
    foldl_unchanged Program.insertGraph answer (fun _ _ => rfl) _ _
  change (answer s.program).getD .unknown = _
  rw [hentries, hswitches, hbranches, hgraphs]
  cases s.lastSwitch? i <;> cases s.lastBranch? i <;> rfl

theorem dependencies_program (i : InstructionId) : s.program.dependencies i =
    (s.dependencies.filter (·.instruction = i)).flatMap (·.dependencies) := by
  have hnone : s.withKinds.dependencies i = [] :=
    s.part_withKinds (·.dependencies i) (fun _ _ => rfl) (fun _ _ => rfl) fun _ _ => rfl
  rw [program_eq, Program.dependencies_foldl_addEntry, hnone, List.nil_append]

theorem isRoot_program (i : InstructionId) : s.program.isRoot i = true ↔
    ∃ e ∈ s.dependencies, e.instruction = i ∧ e.rootDependent = true := by
  have hnone : s.withKinds.isRoot i = false :=
    s.part_withKinds (·.isRoot i) (fun _ _ => rfl) (fun _ _ => rfl) fun _ _ => rfl
  rw [program_eq, Program.isRoot_foldl_addEntry, hnone, or_iff_right Bool.false_ne_true]

theorem find?_hierarchy (name : String) : s.hierarchy.find? name = s.lastClass? name := by
  have h : s.hierarchy.find? name = ((s.lastClass? name).map id).or (Hierarchy.empty.find? name) :=
    foldl_writes Hierarchy.insert (·.find? name) (·.name = name) id
      (fun _ _ => by simpa using Hierarchy.find?_insert) _ _
  rw [h, Option.map_id_fun, id, show Hierarchy.empty.find? name = none from rfl, Option.or_none]

/-- What a scenario loads answers what the scenario says. -/
theorem loaded_answers : s.Answers s.program s.hierarchy where
  graph?_eq := s.graph?_program
  branchKind_eq := s.branchKind_program
  dependencies_eq := s.dependencies_program
  isRoot_iff := s.isRoot_program
  methodAtLine?_eq_some_iff _ _ _ := s.built_program.methodAtLine?_eq_some_iff
  methodAtLine?_eq_none_iff _ _ := s.built_program.methodAtLine?_eq_none_iff
  callGraph_eq name := by
    rw [Hierarchy.callGraph, find?_hierarchy]
    cases s.lastClass? name <;> rfl
  declares_iff name m := by
    rw [Hierarchy.callGraph, find?_hierarchy]
    cases s.lastClass? name with
    | none => simp [CallGraph.declares, CallGraph.node?, CallGraph.empty]
    | some c => simpa using ClassInfo.declares_callGraph
  mem_children_iff name x y := by
    rw [Hierarchy.mem_children_callGraph, find?_hierarchy]
  superclass?_eq name := by rw [Hierarchy.superclass?, find?_hierarchy]
  interfacesOf_eq name := by
    rw [Hierarchy.interfacesOf, find?_hierarchy]
    cases s.lastClass? name <;> rfl
  isInterface_eq name := by
    rw [Hierarchy.isInterface, find?_hierarchy]
    cases s.lastClass? name <;> rfl
  pairwise_loaded := Hierarchy.pairwise_loaded s.classes
  mem_loaded_iff _ := Hierarchy.mem_loaded_iff

end Scenario

end CrashSearch
