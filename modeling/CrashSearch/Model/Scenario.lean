import CrashSearch.Json.Reader
import CrashSearch.Model.Classes
import CrashSearch.Model.Execution
import CrashSearch.Model.Flow
import CrashSearch.Program

/-!
# Scenarios

A scenario is a whole problem in one document: the model of a program, the crash to be
reproduced, and the executions to be scored.

## Main definitions

* `Scenario`: the problem; `Scenario.ofText?` reads it.
* `Scenario.program`, `Scenario.hierarchy`: the model of the program.
-/

namespace CrashSearch

open Json

/-- The cases of a switch. -/
structure SwitchEntry where
  instruction : InstructionId
  cases : List Branch

/-- Dependencies of an instruction. -/
structure DependencyEntry where
  instruction : InstructionId
  dependencies : List ControlDependency
  rootDependent : Bool

/-- A program model with a crash and executions. -/
structure Scenario where
  classes : List ClassInfo
  graphs : List FlowGraph
  branches : List Branch
  switches : List SwitchEntry
  dependencies : List DependencyEntry
  crash : StackTrace
  executions : List (Execution Float)

def SwitchEntry.ofJson (j : Json) : Read SwitchEntry := do
  let fs ← fields ["instruction", "cases"] j
  let instruction ← fs.required "instruction" InstructionId.ofJson
  let cases ← fs.required "cases" (asList Branch.ofJson)
  return ⟨instruction, cases⟩

def DependencyEntry.ofJson (j : Json) : Read DependencyEntry := do
  let fs ← fields ["instruction", "dependencies", "root_dependent"] j
  let instruction ← fs.required "instruction" InstructionId.ofJson
  let dependencies ← fs.optional "dependencies" (asList ControlDependency.ofJson) []
  let rootDependent ← fs.optional "root_dependent" asBool false
  return ⟨instruction, dependencies, rootDependent⟩

namespace Scenario

/-- One member of a scenario. -/
inductive Part where
  | classes (classes : List ClassInfo)
  | graphs (graphs : List FlowGraph)
  | branches (branches : List Branch)
  | switches (switches : List SwitchEntry)
  | dependencies (dependencies : List DependencyEntry)
  | crash (crash : StackTrace)
  | executions (executions : List (Execution Float))

/-- The names of the members. -/
def memberNames : List String :=
  ["classes", "cfgs", "branches", "switches", "control_dependencies", "crash", "executions"]

/-- Reads the member of a name. -/
def Part.ofJson (name : String) (j : Json) : Read Part :=
  match name with
  | "classes" => .classes <$> asList ClassInfo.ofJson j
  | "cfgs" => .graphs <$> asList FlowGraph.ofJson j
  | "branches" => .branches <$> asList Branch.ofJson j
  | "switches" => .switches <$> asList SwitchEntry.ofJson j
  | "control_dependencies" => .dependencies <$> asList DependencyEntry.ofJson j
  | "crash" => .crash <$> StackTrace.ofJson j
  | "executions" => .executions <$> asList (Execution.ofJson asFloat) j
  | _ => .error .form

/-- A member takes its place in the scenario. -/
def withPart (s : Scenario) : Part → Scenario
  | .classes classes => { s with classes := classes }
  | .graphs graphs => { s with graphs := graphs }
  | .branches branches => { s with branches := branches }
  | .switches switches => { s with switches := switches }
  | .dependencies dependencies => { s with dependencies := dependencies }
  | .crash crash => { s with crash := crash }
  | .executions executions => { s with executions := executions }

/-- The crash among the members. -/
def crash? (parts : List (String × Part)) : Option StackTrace :=
  parts.findSome? fun
    | (_, .crash crash) => some crash
    | _ => none

/-- A scenario. Its members are read in the order they are written; all but the crash may be
missing. -/
def ofJson (j : Json) : Read Scenario := do
  let parts ← readFields memberNames Part.ofJson j
  match crash? parts with
  | some crash => return parts.foldl (fun s p => s.withPart p.2) ⟨[], [], [], [], [], crash, []⟩
  | none => throw .form

/-- The program that the scenario describes. -/
def program (s : Scenario) : Program :=
  let withGraphs := s.graphs.foldl Program.insertGraph .empty
  let withBranches := s.branches.foldl Program.addBranch withGraphs
  let withSwitches := s.switches.foldl (fun p e => p.addSwitch e.instruction e.cases) withBranches
  s.dependencies.foldl (fun p e =>
    let p := p.addDependencies e.instruction e.dependencies
    if e.rootDependent then p.markRoot e.instruction else p) withSwitches

/-- The classes that the scenario describes. -/
def hierarchy (s : Scenario) : Hierarchy := .ofClasses s.classes

end Scenario

/-- Reads a value from a text that holds one document and nothing else. A fault of the value is
found before anything behind the document. -/
def Json.readText {α : Type} (read : Json → Read α) (s : String) : Read α := do
  let (document, followed) := Json.ofText s
  let value ← read document
  if followed then throw .form else return value

/-- The scenario of a text. -/
def Scenario.ofText? (s : String) : Read Scenario := readText ofJson s

end CrashSearch
