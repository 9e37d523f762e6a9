import CrashSearch.Json.Decode
import CrashSearch.Trace.Basic

/-!
# Traces as documents

## Main definitions

* `Frame.toJson`, `Frame.ofJson`, `StackTrace.toJson`, `StackTrace.ofJson`: the document of a value,
  and the value of a document.
-/

namespace CrashSearch

open Json

/-- The document of a set of 32-bit numbers. -/
def OrderedSet.words32 (s : OrderedSet UInt32) : Json := .array (s.toList.map fun n => nat n.toNat)

/-- The document of a set of 64-bit numbers. -/
def OrderedSet.words64 (s : OrderedSet UInt64) : Json := .array (s.toList.map fun n => nat n.toNat)

/-- A set of 32-bit numbers; the order does not matter, nor do repetitions. -/
def Json.asSet32 (j : Json) : Read (OrderedSet UInt32) := .ofList <$> asList asWord32 j

/-- A set of 64-bit numbers; the order does not matter, nor do repetitions. -/
def Json.asSet64 (j : Json) : Read (OrderedSet UInt64) := .ofList <$> asList asWord64 j

namespace Frame

def toJson (f : Frame) : Json :=
  record [("class_name", text f.className), ("method_name", text f.methodName),
    ("line_number", nat f.line.toNat)]

def ofJson (j : Json) : Read Frame := do
  let fs ← fields ["class_name", "method_name", "line_number"] j
  let className ← fs.required "class_name" asText
  let methodName ← fs.required "method_name" asText
  let line ← fs.required "line_number" asWord32
  return ⟨className, methodName, line⟩

end Frame

namespace StackTrace

def toJson (t : StackTrace) : Json :=
  record [("exception_type", text t.exceptionType), ("frames", .array (t.frames.map Frame.toJson)),
    ("target_frame_level", nat t.targetLevel.toNat),
    ("irrelevant_frames", t.irrelevant.words64)]

/-- A trace. Its target level is checked when everything else has been read. -/
def ofJson (j : Json) : Read StackTrace := do
  let fs ← fields ["exception_type", "frames", "target_frame_level", "irrelevant_frames"] j
  let exceptionType ← fs.required "exception_type" asText
  let frames ← fs.required "frames" (asList Frame.ofJson)
  let level ← fs.required "target_frame_level" asWord64
  let irrelevant ← fs.optional "irrelevant_frames" asSet64 .empty
  match make? exceptionType frames level with
  | .ok t => return t.withIrrelevant irrelevant
  | .error e => throw (.invalid e)

end StackTrace

end CrashSearch
