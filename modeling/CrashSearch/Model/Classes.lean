import CrashSearch.Classes.Hierarchy
import CrashSearch.Json.Decode

/-!
# Classes as documents

## Main definitions

* `toJson` and `ofJson` for `ClassInfo`, `CallNode` and `CallGraph`.
-/

namespace CrashSearch

open Json

namespace ClassInfo

/-- The document of a text that may be missing. -/
def optionToJson : Option String → Json
  | none => .null
  | some s => text s

def toJson (c : ClassInfo) : Json :=
  record [("name", text c.name), ("superclass", optionToJson c.superclass),
    ("interfaces", .array (c.interfaces.map text)), ("is_interface", .bool c.isInterface),
    ("methods", .array (c.methods.map text)),
    ("calls", .array (c.calls.map fun (a, b) => .array [text a, text b]))]

/-- A class; every member may be missing. -/
def ofJson (j : Json) : Read ClassInfo := do
  let fs ← fields ["name", "superclass", "interfaces", "is_interface", "methods", "calls"] j
  let name ← fs.optional "name" asText ""
  let superclass ← fs.optional "superclass" (asOption asText) none
  let interfaces ← fs.optional "interfaces" (asList asText) []
  let isInterface ← fs.optional "is_interface" asBool false
  let methods ← fs.optional "methods" (asList asText) []
  let calls ← fs.optional "calls" (asList (asPair asText)) []
  return ⟨name, superclass, interfaces, isInterface, methods, calls⟩

end ClassInfo

namespace CallNode

def toJson (n : CallNode) : Json :=
  record [("method", text n.method), ("callees", .array (n.callees.map text))]

def ofJson (j : Json) : Read CallNode := do
  let fs ← fields ["method", "callees"] j
  let method ← fs.required "method" asText
  let callees ← fs.required "callees" (asList asText)
  return ⟨method, callees⟩

end CallNode

namespace CallGraph

def toJson (g : CallGraph) : Json :=
  record [("class_name", text g.className), ("nodes", .array (g.nodes.map CallNode.toJson))]

def ofJson (j : Json) : Read CallGraph := do
  let fs ← fields ["class_name", "nodes"] j
  let className ← fs.required "class_name" asText
  let nodes ← fs.required "nodes" (asList CallNode.ofJson)
  return ⟨className, nodes⟩

end CallGraph

end CrashSearch
