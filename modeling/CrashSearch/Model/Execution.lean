import CrashSearch.Distance
import CrashSearch.Execution
import CrashSearch.Model.Trace

/-!
# Executions as documents

How a distance is written is left to whoever writes the document.

## Main definitions

* `toJson` and `ofJson` for `CallRecord`, `Thrown`, `Execution` and `Distance`.
-/

namespace CrashSearch

open Json

namespace CallRecord

def toJson (c : CallRecord) : Json :=
  record [("method_id", nat c.methodId.toNat), ("caller_id", nat c.callerId.toNat),
    ("call_depth", nat c.callDepth.toNat), ("class_name", text c.className),
    ("method_name", text c.methodName), ("line_trace", c.lineTrace.words32)]

def ofJson (j : Json) : Read CallRecord := do
  let fs ← fields
    ["method_id", "caller_id", "call_depth", "class_name", "method_name", "line_trace"] j
  let methodId ← fs.required "method_id" asWord64
  let callerId ← fs.required "caller_id" asWord64
  let callDepth ← fs.required "call_depth" asWord32
  let className ← fs.optional "class_name" asText ""
  let methodName ← fs.required "method_name" asText
  let lineTrace ← fs.optional "line_trace" asSet32 .empty
  return ⟨methodId, callerId, callDepth, className, methodName, lineTrace⟩

end CallRecord

namespace Thrown

def toJson (t : Thrown) : Json :=
  record [("exception_type", text t.exceptionType), ("frames", .array (t.frames.map Frame.toJson))]

def ofJson (j : Json) : Read Thrown := do
  let fs ← fields ["exception_type", "frames"] j
  let exceptionType ← fs.required "exception_type" asText
  let frames ← fs.optional "frames" (asList Frame.ofJson) []
  return ⟨exceptionType, frames⟩

end Thrown

/-- A map with 32-bit keys; of several entries of a key the last counts. -/
def Json.asMap32 {α : Type} (read : Json → Read α) (j : Json) : Read (Assoc UInt32 α) := do
  return .ofList ((← asNumbered UInt32.size read j).map fun (k, x) => (UInt32.ofNat k, x))

/-- A map with 64-bit keys; of several entries of a key the last counts. -/
def Json.asMap64 {α : Type} (read : Json → Read α) (j : Json) : Read (Assoc UInt64 α) := do
  return .ofList ((← asNumbered UInt64.size read j).map fun (k, x) => (UInt64.ofNat k, x))

namespace Execution

variable {R : Type}

/-- The document of a map from numbers. -/
def mapToJson {κ α : Type} (key : κ → Nat) (write : α → Json) (m : Assoc κ α) : Json :=
  record (m.entries.map fun (k, x) => (toString (key k), write x))

def toJson (write : R → Json) (e : Execution R) : Json :=
  record [("method_calls", .array (e.methodCalls.map CallRecord.toJson)),
    ("covered_lines", e.coveredLines.words32),
    ("exceptions", mapToJson UInt64.toNat Thrown.toJson e.exceptions),
    ("true_distances", mapToJson UInt32.toNat write e.trueDistances),
    ("false_distances", mapToJson UInt32.toNat write e.falseDistances)]

/-- An execution; every member may be missing. -/
def ofJson (read : Json → Read R) (j : Json) : Read (Execution R) := do
  let fs ← fields
    ["method_calls", "covered_lines", "exceptions", "true_distances", "false_distances"] j
  let methodCalls ← fs.optional "method_calls" (asList CallRecord.ofJson) []
  let coveredLines ← fs.optional "covered_lines" asSet32 .empty
  let exceptions ← fs.optional "exceptions" (asMap64 Thrown.ofJson) .empty
  let trueDistances ← fs.optional "true_distances" (asMap32 read) .empty
  let falseDistances ← fs.optional "false_distances" (asMap32 read) .empty
  return ⟨methodCalls, coveredLines, exceptions, trueDistances, falseDistances⟩

end Execution

namespace Distance

variable {R : Type}

def toJson (write : R → Json) (d : Distance R) : Json :=
  record [("approach_level", nat d.approachLevel.toNat),
    ("branch_distance", write d.branchDistance)]

def ofJson (read : Json → Read R) (j : Json) : Read (Distance R) := do
  let fs ← fields ["approach_level", "branch_distance"] j
  let level ← fs.required "approach_level" asWord32
  let distance ← fs.required "branch_distance" read
  return ⟨level, distance⟩

end Distance

end CrashSearch
