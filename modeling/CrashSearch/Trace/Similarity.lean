import CrashSearch.Scale
import CrashSearch.Session
import CrashSearch.Trace.Basic

/-!
# Similarity of traces

A target trace is aligned with the trace of an execution: each target frame is matched with the
closest generated frame at or behind the match of the frame before it, so the alignment never
moves backwards.

## Main definitions

* `Frame.distance`: how different two frames are.
* `closest`: the best match for one frame, and where to go on from it.
* `alignment`: the sum of the distances of all matches.
* `StackTrace.similarity`: the alignment of a trace with a list of frames, as one number.
-/

namespace CrashSearch

variable {R : Type} [Scale R]

namespace Frame

/-- The class that encloses an inner class: the name up to the first `$`. -/
def enclosingClass (className : String) : String :=
  String.ofList (className.toList.takeWhile (· ≠ '$'))

/-- The frames belong to the same class; an inner class of the target also agrees with the class
around it. -/
def sameClass (target generated : Frame) : Bool :=
  target.className = generated.className ∨
    ('$' ∈ target.className.toList ∧ enclosingClass target.className = generated.className)

/-- How many lines apart two frames are. -/
def lineGap (target generated : Frame) : Nat :=
  max target.line.toNat generated.line.toNat - min target.line.toNat generated.line.toNat

/-- The distance of two frames: another class weighs three, another method two, and in the same
method the gap between the lines counts less than one. -/
def distance (target generated : Frame) : R :=
  Scale.normalize <|
    if sameClass target generated then
      if target.methodName = generated.methodName then
        Scale.normalize (Scale.ofNat (lineGap target generated))
      else Scale.ofNat 2
    else Scale.ofNat 3

end Frame

/-- The least distance below `best` among the frames that are not ignored, and the frames from
the first one with that distance on. -/
def closest (distance : Frame → R) (ignored : Frame → Bool) (best : R) (start : List Frame) :
    List Frame → R × List Frame
  | [] => (best, start)
  | frame :: rest =>
    if ignored frame then closest distance ignored best start rest
    else if distance frame < best then
      closest distance ignored (distance frame) (frame :: rest) rest
    else closest distance ignored best start rest

/-- Adds to `sum` the distances of the target frames, each to its closest generated frame. A
frame without any counts one. -/
def alignment (skipped ignored : Frame → Bool) (sum : R) (generated : List Frame) :
    List Frame → R
  | [] => sum
  | target :: rest =>
    if skipped target then alignment skipped ignored sum generated rest
    else
      let (best, start) := closest target.distance ignored Scale.one generated generated
      alignment skipped ignored (sum + best) start rest

/-- How far a list of frames is from a trace. Frames of reflection classes in the trace, and
frames of instrumentation classes in the list, do not count. -/
def StackTrace.similarity (session : Session) (t : StackTrace) (generated : List Frame) : R :=
  Scale.normalize <|
    alignment (session.isReflection ·.className) (session.isInstrumentation ·.className)
      Scale.zero generated t.frames

end CrashSearch
