import CrashSearch.Callee.Live
import CrashSearch.Command.Arguments
import CrashSearch.Fitness.Crash
import CrashSearch.Fitness.Progress
import CrashSearch.Flow.Dot
import CrashSearch.Model.Scenario
import CrashSearch.Settings

/-!
# Running commands

A command reads its files, prints its result and may leave a file behind. What is in the files is
given to it as a function, so that running a command is a computation.

## Main definitions

* `Report`: what a command prints, and the file it leaves behind.
* `Invocation.run`: the report of an invocation, or the reason why there is none.
* `RunError.message`: the wording of the reason.
-/

namespace CrashSearch

/-- Why a command fails. -/
inductive RunError where
  | unreadableConfig (path : String)
  | invalidConfig (path : String) (error : SettingsError)
  | unreadableScenario (path : String)
  | invalidScenario (path : String) (error : ReadError)
  | unresolved (className methodName : String) (error : Error)
  | unwritable (path : String)

namespace RunError

/-- What could not be done. -/
def summary : RunError → String
  | unreadableConfig path => "Cannot read config file " ++ path
  | invalidConfig path _ => "Invalid config in " ++ path
  | unreadableScenario path => "Failed to read scenario " ++ path
  | invalidScenario path _ => "Invalid scenario " ++ path
  | unresolved className methodName _ => "Cannot resolve " ++ className ++ "." ++ methodName
  | unwritable path => "Cannot write " ++ path

/-- Why it could not be done. -/
def cause : RunError → String
  | unreadableConfig _ | unreadableScenario _ => "the file cannot be read"
  | invalidConfig _ error => error.message
  | invalidScenario _ .form => "the text has not the form of a scenario"
  | invalidScenario _ (.invalid error) => error.message
  | unresolved _ _ error => error.message
  | unwritable _ => "the file cannot be written"

/-- The wording of an error: what failed, and set in below it why. -/
def message (e : RunError) : String :=
  "Error: " ++ e.summary ++ "\n\nCaused by:\n    " ++ e.cause.replace "\n" "\n    "

end RunError

/-- What a command prints, and the file it leaves behind with its name. -/
structure Report where
  output : String
  file : Option (String × String)

/-- The line for the score of one execution. -/
def scoreLine (score : Except Error Float) (index : Nat) : String :=
  let result := match score with
    | .ok value => ("fitness", Json.number (Layout.json.render value).toList)
    | .error error => ("error", Json.text error.message)
  (Json.record [result, ("index", Json.nat index)]).render

/-- The line below the scores. -/
def summaryLine (scores : List (Except Error Float)) : String :=
  let progress := Progress.initial.reportAll scores
  let failed := toString (scores.filter fun s => s.toOption.isNone).length
  match progress.best? with
  | some best =>
    "Evaluated " ++ toString progress.evaluations ++ " executions (" ++ failed ++
      " failed), best fitness " ++ Layout.plain.render best
  | none => "No execution could be scored (" ++ failed ++ " failed)"

/-- Lines, each with its end. -/
def unlines (lines : List String) : String := String.join (lines.map (· ++ "\n"))

namespace Scenario

/-- Scores the executions. -/
def fitnessReport (s : Scenario) (session : Session) : Report :=
  let scores := Target.scores ⟨s.crash, s.program, session⟩ s.executions
  ⟨unlines (scores.zipIdx.map (fun (score, i) => scoreLine score i) ++ [summaryLine scores]), none⟩

/-- Lists the methods that a call can reach, with their graph for the file `dot`. -/
def resolveReport (s : Scenario) (session : Session) (className methodName : String)
    (dot : Option String) : Except RunError Report :=
  let fresh := LiveCallee.ofScope (.ofClass s.hierarchy s.program session className)
  match LiveCallee.resolve methodName fresh with
  | .error error _ => .error (.unresolved className methodName error)
  | .ok found callee =>
    let names := found.map fun g => g.className ++ "." ++ g.methodName
    .ok ⟨unlines [Json.renderTexts names], dot.map ((·, callee.joined.1.dot))⟩

end Scenario

/-- Reads the settings of a file, the usual ones if none is named. -/
def readSession (read : String → Option String) : Option String → Except RunError Session
  | none => .ok .default
  | some path =>
    match read path with
    | none => .error (.unreadableConfig path)
    | some text => (Session.ofText? text).mapError (.invalidConfig path)

/-- Reads the scenario of a file. -/
def readScenario (read : String → Option String) (path : String) : Except RunError Scenario :=
  match read path with
  | none => .error (.unreadableScenario path)
  | some text => (Scenario.ofText? text).mapError (.invalidScenario path)

/-- The report of an invocation. The settings are read before the scenario. -/
def Invocation.run (i : Invocation) (read : String → Option String) : Except RunError Report := do
  let session ← readSession read i.config
  match i.request with
  | .fitness path => return (← readScenario read path).fitnessReport session
  | .resolve path className methodName dot =>
    (← readScenario read path).resolveReport session className methodName dot

/-- The files that an invocation reads. -/
def Invocation.inputs (i : Invocation) : List String :=
  i.config.toList ++ match i.request with
    | .fitness path => [path]
    | .resolve path .. => [path]

end CrashSearch
