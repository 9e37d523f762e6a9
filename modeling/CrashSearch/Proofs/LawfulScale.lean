import CrashSearch.Fitness.Goals

/-!
# Distances that are not nothing

A frame that was not reached must not look reached: whatever its goals are, its distance is more
than nothing. This needs few facts about numbers, and they hold of exact numbers as well as of
binary floating point, where every operation rounds.

## Main definitions

* `Scale.Nonneg`: nothing or more than nothing.
* `LawfulScale`: a scale on which sums and quotients of positive numbers do not vanish.
* `Execution.Nonneg`: no recorded branch distance is negative.

## Main statements

* `Goal.least_pos`: the distance from the nearest goal is more than nothing.
-/

namespace CrashSearch

open Scale (zero one)

/-- A number is nothing or more. -/
def Scale.Nonneg {R : Type} [Scale R] (v : R) : Prop := (v == zero) = true ∨ zero < v

/-- A scale on which what is more than nothing stays so. -/
class LawfulScale (R : Type) [Scale R] : Prop where
  zero_beq_zero : ((zero : R) == zero) = true
  not_beq_of_pos {v : R} : zero < v → (v == zero) = false
  one_pos : (zero : R) < one
  two_pos : (zero : R) < Scale.ofNat 2
  greatest_pos : (zero : R) < Scale.greatest
  add_pos {a b : R} : zero < a → Scale.Nonneg b → zero < a + b
  zero_add {v : R} : Scale.Nonneg v → Scale.Nonneg (zero + v)
  normalize_zero {v : R} : (v == zero) = true → (Scale.normalize v == zero) = true
  normalize_pos {v : R} : zero < v → zero < Scale.normalize v

/-- No recorded branch distance is negative. -/
def Execution.Nonneg {R : Type} [Scale R] (e : Execution R) : Prop :=
  ∀ branch outcome d, e.branchDistance? branch outcome = some d → Scale.Nonneg d

variable {R : Type} [Scale R]

theorem Execution.nonneg_of_empty {e : Execution R} (ht : e.trueDistances = .empty)
    (hf : e.falseDistances = .empty) : e.Nonneg := by
  intro branch outcome d hd
  cases outcome <;> simp [branchDistance?, ht, hf] at hd

namespace Scale

theorem Nonneg.pos {v : R} (h : Nonneg v) (hv : (v == zero) = false) : zero < v :=
  h.resolve_left fun hz => Bool.false_ne_true (hv.symm.trans hz)

theorem least_pos {a b : R} (ha : zero < a) (hb : zero < b) : zero < least a b := by
  unfold least
  split
  · exact hb
  · exact ha

theorem foldl_least_pos {values : List R} (hv : ∀ v ∈ values, zero < v) {best : R}
    (hb : zero < best) : zero < values.foldl least best := by
  induction values generalizing best with
  | nil => exact hb
  | cons v values ih =>
    have hv' := List.forall_mem_cons.1 hv
    exact ih hv'.2 (least_pos hb hv'.1)

variable [LawfulScale R]

theorem zero_nonneg : Nonneg (zero : R) := .inl LawfulScale.zero_beq_zero

theorem Nonneg.normalize {v : R} (h : Nonneg v) : Nonneg (normalize v) :=
  h.imp LawfulScale.normalize_zero LawfulScale.normalize_pos

end Scale

variable [LawfulScale R]

theorem Distance.fitness_nonneg {d : R} (h : Scale.Nonneg d) :
    Scale.Nonneg (Distance.fitness ⟨0, d⟩) :=
  LawfulScale.zero_add h.normalize

theorem Distance.unevaluated_pos {level : UInt32} (h : level = 1 ∨ level = 2) :
    zero < (Distance.unevaluated level : Distance R).fitness := by
  rcases h with rfl | rfl
  · exact LawfulScale.add_pos LawfulScale.one_pos Scale.zero_nonneg.normalize
  · exact LawfulScale.add_pos LawfulScale.two_pos Scale.zero_nonneg.normalize

namespace Goal

variable {e : Execution R}

theorem goalDistance_nonneg (he : e.Nonneg) (goal : Goal) :
    Scale.Nonneg (Program.goalDistance goal e).fitness := by
  cases goal with
  | dependency d =>
    cases hd : e.branchDistance? d.branch.id d.expressionValue with
    | some v =>
      simp only [Program.goalDistance, hd]
      exact Distance.fitness_nonneg (he _ _ _ hd)
    | none =>
      simp only [Program.goalDistance, hd]
      exact .inr (Distance.unevaluated_pos (by split <;> simp))
  | root className methodName =>
    simp only [Program.goalDistance]
    split
    · exact Distance.fitness_nonneg Scale.zero_nonneg
    · exact .inr (Distance.unevaluated_pos (.inl rfl))

/-- A goal that was reached counts a unit, and any other keeps its distance when it is squeezed. -/
theorem distance_pos (he : e.Nonneg) (goal : Goal) : zero < distance goal e := by
  have hv := goalDistance_nonneg he goal
  unfold distance
  dsimp only
  split
  · exact LawfulScale.one_pos
  · rename_i hz
    exact LawfulScale.normalize_pos (hv.pos (Bool.eq_false_iff.2 hz))

theorem least_pos (he : e.Nonneg) (goals : List Goal) : zero < least goals e := by
  refine Scale.foldl_least_pos (fun v hv => ?_) LawfulScale.greatest_pos
  obtain ⟨goal, -, rfl⟩ := List.mem_map.1 hv
  exact distance_pos he goal

end Goal

end CrashSearch
