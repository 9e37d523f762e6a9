import CrashSearch.Distance
import CrashSearch.Execution
import CrashSearch.Flow.Branch

/-!
# Programs

The control-flow graphs of a program under test with their branches and control dependencies.

## Main definitions

* `Program`: the facts; `Program.insertGraph`, `Program.addBranch`, `Program.addSwitch`,
  `Program.addDependencies` and `Program.markRoot` record them.
* `Program.graph?`, `Program.branchKind`, `Program.dependencies`, `Program.isRoot`: what is
  recorded.
* `Program.methodAtLine?`: the method that a source line belongs to.
* `Program.goalDistance`: how far an execution is from a goal.
-/

namespace CrashSearch

/-- The facts of a program under test. -/
structure Program where
  /-- One graph for each method. -/
  graphs : List FlowGraph
  kinds : Assoc InstructionId BranchKind
  controlDependencies : Assoc InstructionId (List ControlDependency)
  /-- The instructions that are executed whenever their method is entered. -/
  roots : List InstructionId

namespace Program

/-- The program of which nothing is known. -/
def empty : Program := ⟨[], .empty, .empty, []⟩

/-- Records the graph of a method, in the place of an earlier one. -/
def insertGraph (p : Program) (g : FlowGraph) : Program :=
  { p with graphs := g :: p.graphs.filter (!g.sameMethod ·) }

/-- Records a branch with two ways. -/
def addBranch (p : Program) (b : Branch) : Program :=
  { p with kinds := p.kinds.insert b.instruction (.normal b) }

/-- Records a switch with its cases. -/
def addSwitch (p : Program) (i : InstructionId) (cases : List Branch) : Program :=
  { p with kinds := p.kinds.insert i (.switch cases) }

/-- The outcomes on which the execution of an instruction depends. -/
def dependencies (p : Program) (i : InstructionId) : List ControlDependency :=
  (p.controlDependencies.get? i).getD []

/-- Records further dependencies of an instruction. -/
def addDependencies (p : Program) (i : InstructionId) (ds : List ControlDependency) : Program :=
  { p with controlDependencies := p.controlDependencies.insert i (p.dependencies i ++ ds) }

/-- Records that an instruction is executed whenever its method is entered. -/
def markRoot (p : Program) (i : InstructionId) : Program := { p with roots := i :: p.roots }

/-- The graph of a method. -/
def graph? (p : Program) (className methodName : String) : Option FlowGraph :=
  p.graphs.find? fun g => g.className = className ∧ g.methodName = methodName

/-- What is known of a branching instruction. -/
def branchKind (p : Program) (i : InstructionId) : BranchKind := (p.kinds.get? i).getD .unknown

/-- Whether an instruction is executed whenever its method is entered. -/
def isRoot (p : Program) (i : InstructionId) : Bool := decide (i ∈ p.roots)

/-- The first instruction of a method that belongs to a source line. -/
def firstAtLine? (p : Program) (className methodName : String) (line : UInt32) :
    Option InstructionId :=
  p.graph? className methodName >>= (·.firstAtLine? line)

/-- The names of the methods of a class that a source line belongs to. -/
def methodsAtLine (p : Program) (className : String) (line : UInt32) : List String :=
  (p.graphs.filter fun g => g.className = className ∧ g.containsLine line).map (·.methodName)

/-- The method of a class that a source line belongs to; of several the first by name. -/
def methodAtLine? (p : Program) (className : String) (line : UInt32) : Option String :=
  ((p.methodsAtLine className line).mergeSort (· ≤ ·)).head?

/-- How far an execution is from a goal. An evaluated branch has a recorded distance; one that was
not evaluated is one level away, or two if its method was not entered. -/
def goalDistance {R : Type} [Scale R] : Goal → Execution R → Distance R
  | .dependency d, e =>
    match e.branchDistance? d.branch.id d.expressionValue with
    | some distance => ⟨0, distance⟩
    | none =>
      let i := d.branch.instruction
      .unevaluated (if e.entered i.className i.methodName then 1 else 2)
  | .root className methodName, e =>
    if e.entered className methodName then .covered else .unevaluated 1

end Program

end CrashSearch
