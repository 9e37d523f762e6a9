import CrashSearch.Text.Cut

/-!
# Session settings

## Main definitions

* `Session`: the settings of one search; `Session.default` are the usual ones.
* `Session.isLibrary`, `Session.isInstrumentation`, `Session.isReflection`: the kinds of classes.
* `workerCount`: how many workers a share of the machine is.
-/

namespace CrashSearch

/-- The settings of one search. -/
structure Session where
  /-- How the names of library classes begin. -/
  libraryPrefixes : List String
  /-- What the names of classes and interfaces added by instrumentation contain. -/
  instrumentationMarker : String
  /-- What the names of classes contain whose frames are ignored in comparing traces. -/
  reflectionMarkers : List String
  /-- The share of the processor cores given to the workers. -/
  workerFraction : Float
  logLevel : String

namespace Session

/-- The usual settings. -/
def default : Session where
  libraryPrefixes := ["java.", "javax."]
  instrumentationMarker := "evosuite"
  reflectionMarkers := ["reflect", "invoke"]
  workerFraction := 0.5
  logLevel := "info"

instance : Inhabited Session := ⟨default⟩

/-- Classes of the standard library. -/
def isLibrary (s : Session) (className : String) : Bool :=
  s.libraryPrefixes.any fun start => Text.startsWith className.toList start.toList

/-- Classes added by instrumentation; without a marker there are none. -/
def isInstrumentation (s : Session) (className : String) : Bool :=
  s.instrumentationMarker ≠ "" ∧
    Text.occursIn s.instrumentationMarker.toList className.toList

/-- Classes of the reflection machinery. -/
def isReflection (s : Session) (className : String) : Bool :=
  s.reflectionMarkers.any fun marker => Text.occursIn marker.toList className.toList

/-- A share is more than nothing and at most all. -/
def validFraction (fraction : Float) : Bool := 0.0 < fraction && fraction ≤ 1.0

end Session

/-- The number of workers for a share of the machine, at least one. -/
def workerCount (cores : UInt64) (fraction : Float) : Nat :=
  max 1 (cores.toFloat * fraction).floor.toUInt64.toNat

end CrashSearch
