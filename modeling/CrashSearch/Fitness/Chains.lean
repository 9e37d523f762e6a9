/-!
# Chains of calls

While the frames of a crash are walked, each chain holds the calls that were matched with them so
far, each made by the one before it.

## Main definitions

* `Chains`: the chains under way.
* `Chains.start`, `Chains.extend`, `Chains.clear`: their operations.
-/

namespace CrashSearch

/-- Chains of calls, each with its last call at the end. -/
structure Chains where
  toList : List (List UInt64)
  deriving DecidableEq

namespace Chains

/-- No chains. -/
def empty : Chains := ⟨[]⟩

/-- Begins a chain with a call. -/
def start (c : Chains) (id : UInt64) : Chains := ⟨c.toList ++ [[id]]⟩

/-- Puts a call behind the first chain that ends with its caller. -/
def extendFirst (caller id : UInt64) : List (List UInt64) → Option (List (List UInt64))
  | [] => none
  | chain :: rest =>
    if chain.getLast? = some caller then some ((chain ++ [id]) :: rest)
    else (extendFirst caller id rest).map (chain :: ·)

/-- The chains after a call by `caller`, if one of them ends with it. -/
def extend? (c : Chains) (caller id : UInt64) : Option Chains :=
  (extendFirst caller id c.toList).map (⟨·⟩)

/-- Gives up all chains. -/
def clear (_ : Chains) : Chains := empty

/-- Whether there is no chain. -/
def isEmpty (c : Chains) : Bool := c.toList.isEmpty

end Chains

end CrashSearch
