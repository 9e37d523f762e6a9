/-!
# Control-flow graphs

The graph of one method: its instructions in order, and the pairs of instructions that may follow
one another.

## Main definitions

* `InstructionId`, `Opcode`, `Instruction`, `CallSite`: what a method is made of.
* `FlowGraph`: the graph of a method; `FlowGraph.make` adds the edges of falling through, and
  `FlowGraph.addEdge` those of jumps.
-/

namespace CrashSearch

/-- Which instruction of which method. -/
structure InstructionId where
  className : String
  methodName : String
  index : UInt32
  deriving DecidableEq

/-- An instruction in text: the method and the index in it. -/
def InstructionId.label (i : InstructionId) : String :=
  i.className ++ "." ++ i.methodName ++ "#" ++ toString i.index.toNat

/-- The method that an instruction calls. -/
structure CallTarget where
  className : String
  methodName : String
  argTypes : List String
  deriving DecidableEq

/-- What an instruction does to the flow of control. -/
inductive Opcode where
  | plain
  /-- A conditional jump with two ways. -/
  | branch
  /-- A jump with a way for each case. -/
  | switch
  | invoke (target : CallTarget)
  | return
  deriving DecidableEq

/-- An instruction, and the source line it belongs to. -/
structure Instruction where
  index : UInt32
  line : Option UInt32
  opcode : Opcode
  deriving DecidableEq

/-- A calling instruction together with the method it calls. -/
structure CallSite where
  instruction : InstructionId
  target : CallTarget
  deriving DecidableEq

/-- The control-flow graph of one method. -/
structure FlowGraph where
  className : String
  methodName : String
  instructions : List Instruction
  /-- Pairs of indexes. -/
  edges : List (UInt32 × UInt32)
  deriving DecidableEq

namespace FlowGraph

/-- The edges between consecutive instructions; control does not fall through a return. -/
def fallThrough : List Instruction → List (UInt32 × UInt32)
  | a :: b :: rest =>
    if a.opcode = .return then fallThrough (b :: rest)
    else (a.index, b.index) :: fallThrough (b :: rest)
  | _ => []

/-- The graph of a method without jumps. -/
def make (className methodName : String) (instructions : List Instruction) : FlowGraph :=
  ⟨className, methodName, instructions, fallThrough instructions⟩

/-- Adds an edge, unless it is there. -/
def addEdge (g : FlowGraph) (edge : UInt32 × UInt32) : FlowGraph :=
  if edge ∈ g.edges then g else { g with edges := g.edges ++ [edge] }

/-- The graph of a method with its jumps. -/
def withJumps (className methodName : String) (instructions : List Instruction)
    (jumps : List (UInt32 × UInt32)) : FlowGraph :=
  jumps.foldl addEdge (make className methodName instructions)

/-- Two graphs belong to the same method. -/
def sameMethod (g h : FlowGraph) : Bool :=
  g.className = h.className ∧ g.methodName = h.methodName

/-- The class and the method that the graph belongs to. -/
def key (g : FlowGraph) : String × String := (g.className, g.methodName)

theorem sameMethod_iff {g h : FlowGraph} : g.sameMethod h ↔ g.key = h.key := by
  simp [sameMethod, key]

/-- The instruction with an index. -/
def idOf (g : FlowGraph) (index : UInt32) : InstructionId := ⟨g.className, g.methodName, index⟩

/-- The first instruction with an index. -/
def instruction? (g : FlowGraph) (index : UInt32) : Option Instruction :=
  g.instructions.find? (·.index = index)

/-- Where the method begins. -/
def entry? (g : FlowGraph) : Option InstructionId := g.instructions.head?.map (g.idOf ·.index)

/-- The instructions that may follow one. -/
def successors (g : FlowGraph) (index : UInt32) : List UInt32 :=
  (g.edges.filter (·.1 = index)).map (·.2)

/-- The calls of the method, in the order of its instructions. -/
def callSites (g : FlowGraph) : List CallSite :=
  g.instructions.filterMap fun i =>
    match i.opcode with
    | .invoke target => some ⟨g.idOf i.index, target⟩
    | _ => none

/-- The instructions at which control takes one of several ways. -/
def branchInstructions (g : FlowGraph) : List InstructionId :=
  (g.instructions.filter fun i => i.opcode = .branch ∨ i.opcode = .switch).map (g.idOf ·.index)

/-- The instructions at which the method ends. -/
def returnInstructions (g : FlowGraph) : List InstructionId :=
  (g.instructions.filter (·.opcode = .return)).map (g.idOf ·.index)

/-- The first instruction that belongs to a source line. -/
def firstAtLine? (g : FlowGraph) (line : UInt32) : Option InstructionId :=
  (g.instructions.find? (·.line = some line)).map (g.idOf ·.index)

/-- Whether some instruction belongs to a source line. -/
def containsLine (g : FlowGraph) (line : UInt32) : Bool :=
  g.instructions.any (·.line = some line)

end FlowGraph

end CrashSearch
