import CrashSearch.Flow.Branch
import CrashSearch.Json.Decode

/-!
# Control flow as documents

An instruction is one record together with its opcode: the member `op` names the kind, and a call
has its target beside it.

## Main definitions

* `toJson` and `ofJson` for `InstructionId`, `CallTarget`, `Instruction`, `CallSite`, `FlowGraph`,
  `Branch` and `ControlDependency`.
-/

namespace CrashSearch

open Json

namespace InstructionId

def toJson (i : InstructionId) : Json :=
  record [("class_name", text i.className), ("method_name", text i.methodName),
    ("index", nat i.index.toNat)]

def ofJson (j : Json) : Read InstructionId := do
  let fs ← fields ["class_name", "method_name", "index"] j
  let className ← fs.required "class_name" asText
  let methodName ← fs.required "method_name" asText
  let index ← fs.required "index" asWord32
  return ⟨className, methodName, index⟩

end InstructionId

namespace CallTarget

def toJson (t : CallTarget) : Json :=
  record [("class_name", text t.className), ("method_name", text t.methodName),
    ("arg_types", .array (t.argTypes.map text))]

def ofJson (j : Json) : Read CallTarget := do
  let fs ← fields ["class_name", "method_name", "arg_types"] j
  let className ← fs.required "class_name" asText
  let methodName ← fs.required "method_name" asText
  let argTypes ← fs.optional "arg_types" (asList asText) []
  return ⟨className, methodName, argTypes⟩

end CallTarget

namespace Opcode

/-- The members that an opcode adds to its instruction. -/
def members : Opcode → List (String × Json)
  | plain => [("op", text "plain")]
  | branch => [("op", text "branch")]
  | switch => [("op", text "switch")]
  | invoke target => [("op", text "invoke"), ("target", target.toJson)]
  | .return => [("op", text "return")]

/-- The names of the kinds, in the order of their numbers. -/
def kinds : List String := ["plain", "branch", "switch", "invoke", "return"]

/-- The name of a kind, which may also be given by its number. -/
def kindOfJson (j : Json) : Read String :=
  match j with
  | .string _ => asText j
  | _ => do
    let n ← asNat kinds.length j
    return kinds.getD n ""

/-- The members with a name. -/
def named (name : String) (members : List (Spelling × Json)) : List Json :=
  (members.filter fun m => Quoted.decode m.1 = some name).map (·.2)

/-- The only member with a name. -/
def only (name : String) (members : List (Spelling × Json)) : Read Json :=
  match named name members with
  | [j] => .ok j
  | _ => .error .form

/-- The opcode that stands among the members of an instruction. -/
def ofMembers (members : List (Spelling × Json)) : Read Opcode := do
  let kind ← kindOfJson (← only "op" members)
  match kind with
  | "plain" => return plain
  | "branch" => return branch
  | "switch" => return switch
  | "invoke" => return invoke (← CallTarget.ofJson (← only "target" members))
  | "return" => return .return
  | _ => throw .form

end Opcode

namespace Instruction

/-- The document of a line. -/
def lineToJson : Option UInt32 → Json
  | none => .null
  | some line => nat line.toNat

def toJson (i : Instruction) : Json :=
  record ([("index", nat i.index.toNat), ("line", lineToJson i.line)] ++ i.opcode.members)

/-- The members that say what an instruction does are all read, known or not. -/
def opcodeMembers (members : List (Spelling × Json)) : Read (List (Spelling × Json)) :=
  let others := members.filter fun m =>
    Quoted.decode m.1 ≠ some "index" ∧ Quoted.decode m.1 ≠ some "line"
  if readableMembers others then .ok others else .error .form

def ofJson : Json → Read Instruction
  | .object members => do
    let fs ← fields ["index", "line"] (.object members)
    let others ← opcodeMembers members
    let index ← fs.required "index" asWord32
    let line ← fs.optional "line" (asOption asWord32) none
    let opcode ← Opcode.ofMembers others
    return ⟨index, line, opcode⟩
  | _ => throw .form

end Instruction

namespace CallSite

def toJson (s : CallSite) : Json :=
  record [("instruction", s.instruction.toJson), ("target", s.target.toJson)]

def ofJson (j : Json) : Read CallSite := do
  let fs ← fields ["instruction", "target"] j
  let instruction ← fs.required "instruction" InstructionId.ofJson
  let target ← fs.required "target" CallTarget.ofJson
  return ⟨instruction, target⟩

end CallSite

namespace FlowGraph

/-- The document of pairs of indexes. -/
def edgesToJson (edges : List (UInt32 × UInt32)) : Json :=
  .array (edges.map fun (a, b) => .array [nat a.toNat, nat b.toNat])

/-- A graph with all its edges. -/
def toJson (g : FlowGraph) : Json :=
  record [("class_name", text g.className), ("method_name", text g.methodName),
    ("instructions", .array (g.instructions.map Instruction.toJson)),
    ("edges", edgesToJson g.edges)]

/-- A graph, given by its instructions and jumps. -/
def ofJson (j : Json) : Read FlowGraph := do
  let fs ← fields ["class_name", "method_name", "instructions", "jumps"] j
  let className ← fs.required "class_name" asText
  let methodName ← fs.required "method_name" asText
  let instructions ← fs.required "instructions" (asList Instruction.ofJson)
  let jumps ← fs.optional "jumps" (asList (asPair asWord32)) []
  return withJumps className methodName instructions jumps

end FlowGraph

namespace SwitchCase

def toJson : Option SwitchCase → Json
  | none => .null
  | some .default => text "default"
  | some (.value n) => record [("value", int n.toInt)]

/-- The name of the default case alone, or an object with a case as its only member. -/
def ofJson : Json → Read SwitchCase
  | .object [(name, content)] =>
    match Quoted.decode name with
    | some "value" => .value <$> asInt32 content
    | some "default" =>
      match content with
      | .null => .ok .default
      | _ => .error .form
    | _ => .error .form
  | j => do if (← asText j) = "default" then return .default else throw .form

end SwitchCase

namespace Branch

def toJson (b : Branch) : Json :=
  record [("id", nat b.id.toNat), ("instruction", b.instruction.toJson),
    ("switch_case", SwitchCase.toJson b.switchCase)]

def ofJson (j : Json) : Read Branch := do
  let fs ← fields ["id", "instruction", "switch_case"] j
  let id ← fs.required "id" asWord32
  let instruction ← fs.required "instruction" InstructionId.ofJson
  let switchCase ← fs.optional "switch_case" (asOption SwitchCase.ofJson) none
  return ⟨id, instruction, switchCase⟩

end Branch

namespace ControlDependency

def toJson (d : ControlDependency) : Json :=
  record [("branch", d.branch.toJson), ("expression_value", .bool d.expressionValue)]

def ofJson (j : Json) : Read ControlDependency := do
  let fs ← fields ["branch", "expression_value"] j
  let branch ← fs.required "branch" Branch.ofJson
  let value ← fs.required "expression_value" asBool
  return ⟨branch, value⟩

end ControlDependency

end CrashSearch
