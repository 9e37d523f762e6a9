import CrashSearch.Fitness.Crash
import CrashSearch.Proofs.LawfulScale
import Mathlib.Algebra.Order.Field.Rat
import Mathlib.Tactic.Linarith
import Mathlib.Tactic.Positivity

/-!
# Distances as exact numbers

Read over the rational numbers, where nothing is rounded, the distance from a goal is at most a
unit, and the units that the frames below it count add up.

## Main statements

* `Goal.least_le_one`: a line that has goals is at most a unit away.
* `Target.addUnits_eq`: adding units one after the other adds their number.
-/

namespace CrashSearch

/-- Exact numbers, none of which is infinite. The greatest one is that of binary floating point. -/
instance : Scale ℚ where
  ofNat n := n
  greatest := (2 ^ 53 - 1) * 2 ^ 971
  isInfinite _ := false
  decLt _ _ := inferInstance

namespace Scale

theorem zero_eq : (zero : ℚ) = 0 := rfl

theorem one_eq : (one : ℚ) = 1 := rfl

theorem normalize_eq (v : ℚ) : normalize v = v / (v + 1) := rfl

theorem least_eq (a b : ℚ) : least a b = min a b := by
  unfold least
  split
  · rename_i h
    exact (min_eq_right (le_of_lt h)).symm
  · rename_i h
    exact (min_eq_left (not_lt.1 h)).symm

theorem nonneg_iff {v : ℚ} : Nonneg v ↔ 0 ≤ v := by
  unfold Nonneg
  rw [beq_iff_eq, zero_eq, le_iff_eq_or_lt, eq_comm]

theorem ofNat_nonneg (n : Nat) : 0 ≤ (ofNat n : ℚ) := Nat.cast_nonneg n

theorem ofNat_eq_zero_iff {n : Nat} : (ofNat n : ℚ) = 0 ↔ n = 0 := Nat.cast_eq_zero

theorem normalize_nonneg {v : ℚ} (h : 0 ≤ v) : 0 ≤ normalize v := by
  rw [normalize_eq]
  positivity

theorem normalize_eq_zero_iff {v : ℚ} (h : 0 ≤ v) : normalize v = 0 ↔ v = 0 := by
  have hne : v + 1 ≠ 0 := by positivity
  rw [normalize_eq, div_eq_zero_iff, or_iff_left hne]

end Scale

open Scale (zero_eq one_eq normalize_eq least_eq nonneg_iff)

instance : LawfulScale ℚ where
  zero_beq_zero := rfl
  not_beq_of_pos h := beq_eq_false_iff_ne.2 (ne_of_gt h)
  one_pos := by simp [zero_eq, one_eq]
  two_pos := by decide
  greatest_pos := by decide +kernel
  add_pos ha hb := add_pos_of_pos_of_nonneg ha (nonneg_iff.1 hb)
  zero_add h := nonneg_iff.2 (by simpa [zero_eq] using nonneg_iff.1 h)
  normalize_zero h := by
    rw [beq_iff_eq, zero_eq] at *
    rw [normalize_eq, h, zero_div]
  normalize_pos h := by
    rw [zero_eq] at *
    rw [normalize_eq]
    positivity

theorem Target.addUnits_eq (value : ℚ) (n : Nat) : addUnits value n = value + n := by
  induction n generalizing value with
  | zero => exact (add_zero value).symm
  | succ n ih =>
    rw [addUnits, ih, one_eq]
    push_cast
    exact (add_assoc _ _ _).trans (congrArg _ (add_comm _ _))

namespace Goal

variable {e : Execution ℚ}

/-- A goal that was reached counts a unit, and any other distance is squeezed below one. -/
theorem distance_le_one (he : e.Nonneg) (goal : Goal) : distance goal e ≤ 1 := by
  have hv := nonneg_iff.1 (goalDistance_nonneg he goal)
  unfold distance
  dsimp only
  split
  · exact one_eq.le
  · rw [normalize_eq]
    exact div_le_one_of_le₀ (by linarith) (by linarith)

theorem foldl_least_le {values : List ℚ} {best v : ℚ} (hv : v ∈ best :: values) :
    values.foldl Scale.least best ≤ v := by
  induction values generalizing best v with
  | nil => simp_all
  | cons w values ih =>
    have hw : values.foldl Scale.least (Scale.least best w) ≤ min best w :=
      (ih List.mem_cons_self).trans_eq (least_eq best w)
    rcases List.mem_cons.1 hv with rfl | hv
    · exact hw.trans (min_le_left _ _)
    · rcases List.mem_cons.1 hv with rfl | hv
      · exact hw.trans (min_le_right _ _)
      · exact ih (List.mem_cons_of_mem _ hv)

theorem least_le_one (he : e.Nonneg) {goals : List Goal} (hg : goals ≠ []) :
    least goals e ≤ 1 := by
  obtain ⟨goal, hm⟩ := List.exists_mem_of_ne_nil goals hg
  exact (foldl_least_le (List.mem_cons_of_mem _ (List.mem_map_of_mem hm))).trans
    (distance_le_one he goal)

end Goal

end CrashSearch
