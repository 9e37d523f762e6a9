import CrashSearch.Scale

/-!
# Control-flow distances

How far an execution stayed from a goal: the number of branches it missed on the way, and the
distance to flipping the last one.

## Main definitions

* `Distance`: approach level and branch distance.
* `Distance.fitness`: both in one number, the approach level as its whole part.
-/

namespace CrashSearch

/-- Approach level together with the raw branch distance towards one goal. -/
structure Distance (R : Type) where
  approachLevel : UInt32
  branchDistance : R

namespace Distance

variable {R : Type} [Scale R]

/-- The goal was reached. -/
def covered : Distance R := ⟨0, Scale.zero⟩

/-- No distance was recorded, and `level` branches lie between the execution and the goal. -/
def unevaluated (level : UInt32) : Distance R := ⟨level, Scale.zero⟩

/-- The branch distance counts less than one level. -/
def fitness (d : Distance R) : R :=
  Scale.ofNat d.approachLevel.toNat + Scale.normalize d.branchDistance

end Distance

end CrashSearch
