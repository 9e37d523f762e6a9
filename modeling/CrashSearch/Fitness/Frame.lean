import CrashSearch.Fitness.Chains
import CrashSearch.Fitness.Goals
import CrashSearch.Session

/-!
# Fitness of a frame

Whether a frame of the crash was reached through the right chain of calls, and otherwise how far
the execution is from its line.

## Main definitions

* `Target`: a crash with the program and the settings of the search.
* `FrameState`: what is carried from frame to frame.
* `Target.depth`: the depth at which the call of a level is expected.
* `Target.evaluateFrame`: the distance of an execution from one frame.
* `Target.lineCoverage`, `Target.sameException`: two tests that need no chains.
-/

namespace CrashSearch

/-- A crash to be reproduced. -/
structure Target where
  crash : StackTrace
  program : Program
  session : Session

/-- What is carried from frame to frame while a crash is walked: the chains of calls, and the
counter of the levels that were passed over. It is a machine word, and so begins again at zero
behind its greatest value. -/
structure FrameState where
  chains : Chains
  counter : UInt64
  deriving DecidableEq

namespace FrameState

/-- The state before the first frame. -/
def initial : FrameState := ⟨.empty, 0⟩

/-- How many levels were passed over, as the counter has it. -/
def passed (s : FrameState) : Nat := s.counter.toNat

@[simp] theorem passed_initial : initial.passed = 0 := rfl

theorem passed_count (s : FrameState) :
    ({ s with counter := s.counter + 1 } : FrameState).passed = (s.passed + 1) % UInt64.size :=
  UInt64.toNat_add s.counter 1

theorem passed_count_of_lt {s : FrameState} (h : s.passed + 1 < UInt64.size) :
    ({ s with counter := s.counter + 1 } : FrameState).passed = s.passed + 1 := by
  rw [passed_count, Nat.mod_eq_of_lt h]

end FrameState

/-- A record matches a frame if its method, its depth and the line agree. -/
def CallRecord.fits (call : CallRecord) (method : String) (line : UInt32) (depth : Int) : Bool :=
  (call.callDepth.toNat : Int) = depth ∧ call.methodName = method ∧ line ∈ call.lineTrace

/-- The chains after a fitting record, if its caller continues one of them. At depth one the
caller has to be the test itself. -/
def Chains.follow (chains : Chains) (call : CallRecord) (depth : Int) : Option Chains :=
  if depth = 1 then
    if call.callerId = CallRecord.testId then some (chains.start call.methodId) else none
  else if 1 < depth then chains.extend? call.callerId call.methodId
  else none

/-- Follows all fitting records in turn; the flag tells whether one continued a chain. -/
def Chains.followAll (method : String) (line : UInt32) (depth : Int) :
    Chains × Bool → List CallRecord → Chains × Bool
  | state, [] => state
  | (chains, found), call :: rest =>
    if call.fits method line depth then
      match chains.follow call depth with
      | some next => followAll method line depth (next, true) rest
      | none => followAll method line depth (chains, found) rest
    else followAll method line depth (chains, found) rest

namespace Target

variable {R : Type} [Scale R]

/-- The depth at which the call of a level is expected, counted from the test. It is reckoned in
signed machine words, to which the levels and the counter are cast bit by bit. -/
def depth (t : Target) (state : FrameState) (level : UInt64) : Int :=
  (t.crash.targetLevel.toInt64 - level.toInt64 + 1 - state.counter.toInt64).toInt

/-- The goals of a line of a class, if a method of it owns the line. -/
def lineGoals (t : Target) (className : String) (line : UInt32) : Except Error (List Goal) :=
  match t.program.methodAtLine? className line with
  | some method => t.program.goals className method line
  | none => .ok []

/-- Matches the calls of an execution with a frame. If none fits all chains are given up. -/
def matchFrame (t : Target) (state : FrameState) (e : Execution R) (frame : Frame)
    (level : UInt64) : FrameState × Bool :=
  match t.program.methodAtLine? frame.className frame.line with
  | none => (.initial, false)
  | some method =>
    match Chains.followAll method frame.line (t.depth state level) (state.chains, false)
        e.methodCalls with
    | (chains, true) => ({ state with chains := chains }, true)
    | (_, false) => (.initial, false)

/-- The distance of an execution from covering the line of a frame at the depth its level implies,
and the state for the next frame. -/
def evaluateFrame (t : Target) (state : FrameState) (e : Execution R) (level : UInt64) :
    FrameState × Except Error R :=
  match t.crash.frame? level with
  | none => (state, .error (.frameOutOfRange level t.crash.frames.length))
  | some frame =>
    if t.crash.isIrrelevant level then
      ({ state with counter := state.counter + 1 }, .ok Scale.zero)
    else
      let (next, found) := t.matchFrame state e frame level
      (next, (t.lineGoals frame.className frame.line).map fun goals =>
        if found then Scale.zero else Goal.least goals e)

/-- The distance of an execution from covering a line, guided by the line of the last frame. -/
def lineCoverage (t : Target) (e : Execution R) (line : UInt32) : Except Error R :=
  let frame := t.crash.outermost
  (t.lineGoals frame.className frame.line).map fun goals =>
    if line ∈ e.coveredLines then Scale.zero else Goal.least goals e

/-- The frames of an exception from the first one outside the library. -/
def applicationFrames (t : Target) (thrown : Thrown) : List Frame :=
  thrown.frames.dropWhile (t.session.isLibrary ·.className)

/-- An execution threw the exception of the crash through exactly the frames of the crash. -/
def sameException (t : Target) (e : Execution R) : Bool :=
  e.thrown.any fun thrown =>
    thrown.exceptionType = t.crash.exceptionType ∧
      t.crash.targetFrames.isPrefixOf (t.applicationFrames thrown)

end Target

end CrashSearch
