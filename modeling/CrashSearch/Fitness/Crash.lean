import CrashSearch.Fitness.Frame

/-!
# Fitness of an execution

The frames are walked from the target level down to the crash site. The first one that was not
reached gives its distance, each one below it counts one more, and so does the missing exception.
Zero means that the crash was reproduced.

## Main definitions

* `Target.walk`: the fitness of the frames.
* `Target.exceptionCoverage`: whether the right exception was thrown at the crash site.
* `Target.fitness`: the fitness of an execution.
* `Target.scoreInto`: the same, told to a sink.
* `Target.scores`: the fitness of each execution of a population.
-/

namespace CrashSearch

namespace Target

variable {R : Type} [Scale R]

/-- Adds so many units, one after the other. -/
def addUnits (value : R) : Nat → R
  | 0 => value
  | n + 1 => addUnits (value + Scale.one) n

/-- The distance of the first unreached frame at or below a level, with a unit for each level
below it; nothing if all were reached. -/
def walk (t : Target) (e : Execution R) (state : FrameState) : Nat → Except Error R
  | 0 => .ok Scale.zero
  | level + 1 =>
    match t.evaluateFrame state e (UInt64.ofNat (level + 1)) with
    | (_, .error error) => .error error
    | (next, .ok distance) =>
      if distance == Scale.zero then t.walk e next level else .ok (addUnits distance level)

/-- An exception of the crash: its first frame outside the library is at the crash site, and its
type is that of the crash. -/
def isCrash (t : Target) (thrown : Thrown) : Bool :=
  match thrown.frames.find? (!t.session.isLibrary ·.className) with
  | none => false
  | some frame =>
    frame.line = t.crash.crashSite.line ∧ frame.className = t.crash.crashSite.className ∧
      thrown.exceptionType = t.crash.exceptionType

/-- Nothing if the exception of the crash was thrown, and else a unit. -/
def exceptionCoverage (t : Target) (e : Execution R) : R :=
  if e.thrown.any t.isCrash then Scale.zero else Scale.one

/-- How far an execution is from reproducing the crash; the less the better. -/
def fitness (t : Target) (e : Execution R) : Except Error R :=
  if t.sameException e then .ok Scale.zero
  else (t.walk e .initial t.crash.targetLevel.toNat).map fun value =>
    if value == Scale.zero then t.exceptionCoverage e else value + Scale.one

/-- The fitness of an execution, of which a sink is informed before it is returned. Of an error the
sink learns nothing. -/
def scoreInto {σ : Type} (t : Target) (inform : R → σ → σ) (e : Execution R) :
    ExceptT Error (StateM σ) R := do
  let value ← t.fitness e
  modify (inform value)
  return value

/-- The fitness of each execution. -/
def scores (t : Target) (executions : List (Execution R)) : List (Except Error R) :=
  executions.map t.fitness

end Target

end CrashSearch
