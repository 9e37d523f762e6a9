import CrashSearch.Error
import CrashSearch.Program

/-!
# Goals of a source line

## Main definitions

* `Program.goals`: what an execution has to reach in order to execute a line.
* `Goal.distance`: how far an execution is from a goal, as one number.
* `Goal.least`: the distance from the nearest of some goals.
-/

namespace CrashSearch

/-- The goals of a line of a method: the dependencies of its first instruction, and entering the
method if the instruction is marked as executed whenever the method is entered, whether it has
dependencies or not. One with neither is an error; a line without instructions has no goals. -/
def Program.goals (p : Program) (className methodName : String) (line : UInt32) :
    Except Error (List Goal) :=
  match p.firstAtLine? className methodName line with
  | none => .ok []
  | some i =>
    let dependencies := p.dependencies i
    let root := p.isRoot i
    if dependencies = [] ∧ root = false then
      .error (.noControlDependency className methodName line)
    else
      .ok (dependencies.map .dependency ++
        if root then [.root i.className i.methodName] else [])

namespace Goal

variable {R : Type} [Scale R]

/-- The distance of an execution from a goal. A goal that was reached although its line was not
counts a whole unit: most likely something was thrown in between. -/
def distance (goal : Goal) (e : Execution R) : R :=
  let value := (Program.goalDistance goal e).fitness
  if value == Scale.zero then Scale.one else Scale.normalize value

/-- The distance from the nearest goal; without goals it is the greatest of all. -/
def least (goals : List Goal) (e : Execution R) : R :=
  (goals.map (distance · e)).foldl Scale.least Scale.greatest

end Goal

end CrashSearch
