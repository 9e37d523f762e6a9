import CrashSearch.Flow.Basic

/-!
# Branches and control dependencies

## Main definitions

* `Branch`: an outcome of a branching instruction that a search may aim at.
* `BranchKind`: how a branching instruction is known.
* `ControlDependency`: the outcome on which the execution of an instruction depends.
* `Goal`: something that a distance can be measured towards.
* `Branch.sort`: branches in order.
-/

namespace CrashSearch

/-- A case of a switch. -/
inductive SwitchCase where
  | value (value : Int32)
  | default
  deriving DecidableEq

/-- A branch, with its number; a branch of a switch stands for one of the cases. -/
structure Branch where
  id : UInt32
  instruction : InstructionId
  switchCase : Option SwitchCase
  deriving DecidableEq

/-- What is known of a branching instruction. -/
inductive BranchKind where
  | normal (branch : Branch)
  /-- A switch with a branch for each case. -/
  | switch (cases : List Branch)
  | unknown
  deriving DecidableEq

/-- The outcome of a branch on which the execution of an instruction depends. -/
structure ControlDependency where
  branch : Branch
  expressionValue : Bool
  deriving DecidableEq

/-- Something that a distance can be measured towards. -/
inductive Goal where
  | dependency (dependency : ControlDependency)
  /-- The method is entered at all. -/
  | root (className methodName : String)
  deriving DecidableEq

/-- Instructions are ordered by class, method and index. -/
def InstructionId.compare (a b : InstructionId) : Ordering :=
  (compareOfLessAndEq a.className b.className).then <|
    (compareOfLessAndEq a.methodName b.methodName).then <|
      compareOfLessAndEq a.index b.index

/-- Cases are ordered by value, with no case first and the default last. -/
def SwitchCase.compare : Option SwitchCase → Option SwitchCase → Ordering
  | none, none => .eq
  | none, some _ => .lt
  | some _, none => .gt
  | some (.value a), some (.value b) => compareOfLessAndEq a b
  | some (.value _), some .default => .lt
  | some .default, some (.value _) => .gt
  | some .default, some .default => .eq

/-- Branches are ordered by number, instruction and case. -/
def Branch.compare (a b : Branch) : Ordering :=
  (compareOfLessAndEq a.id b.id).then <|
    (InstructionId.compare a.instruction b.instruction).then <|
      SwitchCase.compare a.switchCase b.switchCase

/-- Branches in order. -/
def Branch.sort (branches : List Branch) : List Branch :=
  branches.mergeSort fun a b => (Branch.compare a b).isLE

end CrashSearch
