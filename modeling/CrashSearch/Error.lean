/-!
# Errors

What can go wrong in a model of a program or a crash, and in reading one.

## Main definitions

* `Error`: the causes; `Error.message` is their wording.
* `ReadError`: a document that does not fit, or one that fits but describes no valid crash.
-/

namespace CrashSearch

/-- Why a crash log cannot be read. -/
inductive LogFault where
  | empty
  | noFrames (exceptionType : String)
  | unreadableFrame (text : String)
  deriving DecidableEq

/-- The wording of a fault. -/
def LogFault.message : LogFault → String
  | empty => "empty log"
  | noFrames exceptionType => "no frames found for " ++ exceptionType
  | unreadableFrame text => "cannot read frame \x60" ++ text ++ "\x60"

/-- What is wrong with a program model or a crash. -/
inductive Error where
  /-- A method has no graph anywhere in the hierarchy, or is not declared there. -/
  | methodNotInHierarchy (className methodName : String)
  /-- An instruction has neither control dependencies nor root dependence. -/
  | noControlDependency (className methodName : String) (line : UInt32)
  | frameOutOfRange (level : UInt64) (frames : Nat)
  | invalidTargetFrame (level : UInt64) (frames : Nat)
  | malformedTrace (fault : LogFault)
  deriving DecidableEq

/-- The wording of an error. -/
def Error.message : Error → String
  | methodNotInHierarchy c m => "method " ++ m ++ " is not available in the hierarchy of " ++ c
  | noControlDependency c m line =>
    "instruction at " ++ c ++ "." ++ m ++ ":" ++ toString line.toNat ++
      " has no control dependency and is not root dependent"
  | frameOutOfRange level frames =>
    "frame level " ++ toString level.toNat ++ " is outside the stack trace (1..=" ++
      toString frames ++ ")"
  | invalidTargetFrame level frames =>
    "target frame level " ++ toString level.toNat ++ " is invalid for a trace of " ++
      toString frames ++ " frames"
  | malformedTrace fault => "malformed stack trace: " ++ fault.message

/-- Why a document was not read. -/
inductive ReadError where
  /-- It is no JSON, or does not have the form of what was asked for. -/
  | form
  /-- It has the form, but what it describes is not valid. -/
  | invalid (error : Error)
  deriving DecidableEq

end CrashSearch
