import CrashSearch.Fitness.Crash
import CrashSearch.Fitness.Progress

/-!
# Scoring a population at once

The executions of a population are scored side by side, and all evaluations report to one sink. A
report changes the sink twice, and between any two changes other evaluations may change it. Which
evaluation goes on is up to a schedule.

## Main definitions

* `Evaluation`: how far the evaluation of an execution has come.
* `Pool`: the evaluations of a population with their sink.
* `Pool.run`: the pool after a schedule.
-/

namespace CrashSearch

/-- How far the evaluation of an execution has come. -/
inductive Evaluation (R : Type) where
  /-- It has not begun. -/
  | waiting (execution : Execution R)
  /-- Its fitness was counted, and is still to be compared with the least one. -/
  | counted (value : R)
  /-- Its result is there. -/
  | done (score : Except Error R)

/-- The evaluations of a population, in the order of its executions, and the sink of all. -/
structure Pool (R : Type) where
  evaluations : List (Evaluation R)
  sink : Progress R

variable {R : Type} [Scale R]

namespace Evaluation

/-- What the next change makes of an evaluation. -/
def next (t : Target) : Evaluation R → Evaluation R
  | waiting execution =>
    match t.fitness execution with
    | .ok value => counted value
    | .error error => done (.error error)
  | counted value => done (.ok value)
  | done score => done score

/-- What it makes of the sink. -/
def inform (t : Target) : Evaluation R → Progress R → Progress R
  | waiting execution, sink =>
    match t.fitness execution with
    | .ok _ => sink.count
    | .error _ => sink
  | counted value, sink => sink.lower value
  | done _, sink => sink

end Evaluation

namespace Pool

/-- No evaluation has begun, and nothing was reported. -/
def start (executions : List (Execution R)) : Pool R :=
  ⟨executions.map .waiting, .initial⟩

/-- The evaluation with index `i` goes on. -/
def advance (t : Target) (pool : Pool R) (i : Nat) : Pool R where
  evaluations := pool.evaluations.modify i (·.next t)
  sink := match pool.evaluations[i]? with
    | none => pool.sink
    | some evaluation => evaluation.inform t pool.sink

/-- The pool after the evaluations went on in the order of a schedule. -/
def run (t : Target) (pool : Pool R) (schedule : List Nat) : Pool R :=
  schedule.foldl (advance t) pool

/-- All evaluations are done, with these results. -/
def Finished (pool : Pool R) (results : List (Except Error R)) : Prop :=
  pool.evaluations = results.map .done

end Pool

end CrashSearch
