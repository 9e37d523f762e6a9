import CrashSearch.Error
import CrashSearch.Ordered.Set

/-!
# Stack traces

The recorded trace of the crash that a search tries to reproduce. Frame 1 is the crash site;
higher levels walk towards the test that caused it.

## Main definitions

* `Frame`: one entry of a trace.
* `StackTrace`: a trace with the deepest level to be reproduced, which is one of its levels.
* `StackTrace.make?`: checks the level.
* `StackTrace.frame?`: the frame of a level.

## Main statements

* `StackTrace.make?_eq_ok_iff`, `StackTrace.make?_eq_error_iff`: a trace is made just if the level
  is one of its levels.
-/

namespace CrashSearch

/-- One entry of a stack trace. -/
structure Frame where
  className : String
  methodName : String
  line : UInt32
  deriving DecidableEq

/-- A recorded crash. -/
structure StackTrace where
  exceptionType : String
  /-- The crash site comes first. -/
  frames : List Frame
  /-- The level from which the crash is to be reproduced. -/
  targetLevel : UInt64
  /-- The levels that are not tracked. -/
  irrelevant : OrderedSet UInt64
  one_le_targetLevel : 1 ≤ targetLevel.toNat
  targetLevel_le : targetLevel.toNat ≤ frames.length
  deriving DecidableEq

namespace StackTrace

/-- The trace with a target level, which has to be one of its levels. -/
def make? (exceptionType : String) (frames : List Frame) (targetLevel : UInt64) :
    Except Error StackTrace :=
  if h : 1 ≤ targetLevel.toNat ∧ targetLevel.toNat ≤ frames.length then
    .ok ⟨exceptionType, frames, targetLevel, .empty, h.1, h.2⟩
  else .error (.invalidTargetFrame targetLevel frames.length)

section

variable {type : String} {frames : List Frame} {level : UInt64} {t : StackTrace}

theorem make?_eq_ok_iff : make? type frames level = .ok t ↔
    (1 ≤ level.toNat ∧ level.toNat ≤ frames.length) ∧ t.exceptionType = type ∧
      t.frames = frames ∧ t.targetLevel = level ∧ t.irrelevant = .empty := by
  unfold make?
  constructor
  · intro h
    split at h
    · rename_i hl
      obtain rfl := Except.ok.inj h
      exact ⟨hl, rfl, rfl, rfl, rfl⟩
    · cases h
  · rintro ⟨hl, rfl, rfl, rfl, hi⟩
    rw [dif_pos hl, ← hi]

theorem make?_eq_error_iff {error : Error} : make? type frames level = .error error ↔
    (level = 0 ∨ frames.length < level.toNat) ∧
      error = .invalidTargetFrame level frames.length := by
  have hlevel : level = 0 ↔ level.toNat = 0 := by
    rw [← UInt64.toNat_inj]
    rfl
  unfold make?
  rw [hlevel]
  constructor
  · intro h
    split at h
    · cases h
    · obtain rfl := Except.error.inj h
      exact ⟨by omega, rfl⟩
  · rintro ⟨hl, rfl⟩
    exact dif_neg (by omega)

end

/-- The same trace with the given levels not tracked. -/
def withIrrelevant (t : StackTrace) (levels : OrderedSet UInt64) : StackTrace :=
  { t with irrelevant := levels }

/-- The frame of a level; levels count from 1. -/
def frame? (t : StackTrace) (level : UInt64) : Option Frame :=
  if level.toNat = 0 then none else t.frames[level.toNat - 1]?

/-- The frame where the crash happened. -/
def crashSite (t : StackTrace) : Frame :=
  t.frames.get ⟨0, Nat.lt_of_lt_of_le t.one_le_targetLevel t.targetLevel_le⟩

/-- The frame of the highest level. -/
def outermost (t : StackTrace) : Frame :=
  t.frames.get ⟨t.frames.length - 1, Nat.sub_lt
    (Nat.lt_of_lt_of_le t.one_le_targetLevel t.targetLevel_le) Nat.one_pos⟩

/-- Whether a level is not tracked. -/
def isIrrelevant (t : StackTrace) (level : UInt64) : Bool := decide (level ∈ t.irrelevant)

/-- The frames that a reproduction has to show. -/
def targetFrames (t : StackTrace) : List Frame := t.frames.take t.targetLevel.toNat

end StackTrace

end CrashSearch
