import CrashSearch.Ordered.Assoc
import CrashSearch.Ordered.Set
import CrashSearch.Trace.Basic

/-!
# Executions

What the run of one candidate left behind: its method calls, the lines it covered, the exceptions
it threw, and how far it was from each outcome of each branch it evaluated.

## Main definitions

* `CallRecord`, `Thrown`, `Execution`: the traces of a run.
* `Execution.branchDistance?`, `Execution.entered`: what they answer.
-/

namespace CrashSearch

/-- One finished method call. -/
structure CallRecord where
  methodId : UInt64
  callerId : UInt64
  callDepth : UInt32
  /-- Empty if the class is not known. -/
  className : String
  methodName : String
  /-- The lines covered inside the call. -/
  lineTrace : OrderedSet UInt32
  deriving DecidableEq

/-- The caller of the calls that the test itself makes. -/
def CallRecord.testId : UInt64 := 0

/-- An exception, with its innermost frame first. -/
structure Thrown where
  exceptionType : String
  frames : List Frame
  deriving DecidableEq

/-- What the run of one candidate left behind. -/
structure Execution (R : Type) where
  methodCalls : List CallRecord
  coveredLines : OrderedSet UInt32
  /-- The exceptions by the statement that threw them. -/
  exceptions : Assoc UInt64 Thrown
  /-- By the number of a branch, the distance to its true outcome. -/
  trueDistances : Assoc UInt32 R
  /-- By the number of a branch, the distance to its false outcome. -/
  falseDistances : Assoc UInt32 R

namespace Execution

variable {R : Type}

/-- A run that did nothing. -/
def empty : Execution R := ⟨[], .empty, .empty, .empty, .empty⟩

instance : Inhabited (Execution R) := ⟨empty⟩

/-- The exceptions thrown. -/
def thrown (e : Execution R) : List Thrown := e.exceptions.entries.map (·.2)

/-- The recorded distance to an outcome of a branch, if the branch was evaluated. -/
def branchDistance? (e : Execution R) (branch : UInt32) (outcome : Bool) : Option R :=
  if outcome then e.trueDistances.get? branch else e.falseDistances.get? branch

/-- Whether some call entered a method; a call of an unknown class may have been to any. -/
def entered (e : Execution R) (className methodName : String) : Bool :=
  e.methodCalls.any fun call =>
    call.methodName = methodName ∧ (call.className = "" ∨ call.className = className)

end Execution

end CrashSearch
