import CrashSearch.Fitness.Crash
import CrashSearch.Fitness.Progress
import CrashSearch.Proofs.FloatOrder

/-!
# Reports in any order

The progress of a search starts with the greatest number as the least one, which is also a possible
report. After some reports of numbers up to the greatest one the best is still the minimum of the
reports, whatever their order was.

## Main definitions

* `Progress.reported`: the progress after some reports.
* `Progress.IsMinimum`: what the best of some values is.
* `Progress.Agree`, `Progress.Summarizes`: what two sinks, or a sink and some results, have to do
  with each other.

## Main statements

* `Progress.isMinimum_reported`: the best of the reports is their minimum.
* `Progress.agree_reported`: it does not depend on their order.
* `Target.fitness_le_greatest`: every fitness can be reported.
-/

namespace CrashSearch

namespace Progress

section Reported

variable {R : Type}

/-- Every result either has a value or failed. -/
theorem length_values_add_failed {ε : Type} (results : List (Except ε R)) :
    (results.filterMap Except.toOption).length +
      (results.filter (·.toOption.isNone)).length = results.length := by
  induction results with
  | nil => rfl
  | cons result results ih =>
    cases result with
    | error error => exact congrArg (· + 1) ih
    | ok value =>
      show (results.filterMap Except.toOption).length + 1 +
        (results.filter (·.toOption.isNone)).length = results.length + 1
      omega

variable [Scale R]

/-- The progress after some values were reported one after the other. -/
def reported (values : List R) : Progress R := values.foldl report .initial

theorem foldl_report (p : Progress R) (values : List R) :
    values.foldl report p = ⟨p.evaluations + values.length, values.foldl Scale.least p.least⟩ := by
  induction values generalizing p with
  | nil => rfl
  | cons v values ih =>
    rw [List.foldl_cons, ih, report]
    simp only [List.length_cons, List.foldl_cons, mk.injEq, and_true]
    omega

theorem reported_eq (values : List R) :
    reported values = ⟨values.length, values.foldl Scale.least Scale.greatest⟩ := by
  simp [reported, foldl_report, initial]

theorem foldl_least_mem (x : R) (values : List R) :
    values.foldl Scale.least x = x ∨ values.foldl Scale.least x ∈ values := by
  induction values generalizing x with
  | nil => exact .inl rfl
  | cons v values ih => grind [Scale.least]

/-- Reporting the results of a population reports its values. -/
theorem reportAll_eq {ε : Type} (scores : List (Except ε R)) :
    initial.reportAll scores = reported (scores.filterMap Except.toOption) := by
  unfold reportAll reported
  generalize (initial : Progress R) = p
  induction scores generalizing p with
  | nil => rfl
  | cons score scores ih => cases score <;> exact ih _

end Reported

/-- The best of some values is the least of them, and there is none if there are no values. The
values are compared as numbers, so that either zero may stand for the other. -/
def IsMinimum (values : List Float) : Option Float → Prop
  | none => values = []
  | some best => (∃ v ∈ values, (best == v) = true) ∧ ∀ v ∈ values, best ≤ v

variable {values values' : List Float} {best best' : Option Float}

theorem IsMinimum.perm (h : IsMinimum values best) (hp : values.Perm values') :
    IsMinimum values' best := by
  cases best with
  | none =>
    obtain rfl : values = [] := h
    exact hp.nil_eq.symm
  | some best =>
    obtain ⟨⟨v, hv, heq⟩, hall⟩ := h
    exact ⟨⟨v, hp.mem_iff.1 hv, heq⟩, fun v hv => hall v (hp.mem_iff.2 hv)⟩

open FloatOrder

/-- There is one minimum, up to the sign of a zero. -/
theorem IsMinimum.unique (h : IsMinimum values best) (h' : IsMinimum values best') :
    Option.Rel (fun a b => (a == b) = true) best best' := by
  cases best with
  | none =>
    obtain rfl : values = [] := h
    cases best' with
    | none => exact .none
    | some best' =>
      obtain ⟨⟨v, hv, -⟩, -⟩ := h'
      exact absurd hv List.not_mem_nil
  | some best =>
    obtain ⟨⟨v, hv, heq⟩, hall⟩ := h
    cases best' with
    | none =>
      obtain rfl : values = [] := h'
      exact absurd hv List.not_mem_nil
    | some best' =>
      obtain ⟨⟨v', hv', heq'⟩, hall'⟩ := h'
      have hle : best ≤ best' := le_trans (hall v' hv') (le_of_beq heq').2
      have hge : best' ≤ best := le_trans (hall' v hv) (le_of_beq heq).2
      exact .some (beq_of_le_of_le hle hge)

/-- The best of some reports is their minimum, also where this is the number that stood there
before the first report. -/
theorem isMinimum_reported (h : ∀ v ∈ values, v ≤ Scale.greatest) :
    IsMinimum values (reported values).best? := by
  have hnum : ∀ v ∈ values, IsNumber v := fun v hv => isNumber_of_le_greatest (h v hv)
  obtain ⟨hle, hall⟩ := foldl_least_le greatest_isNumber hnum
  have hmem := foldl_least_mem Scale.greatest values
  rw [reported_eq, best?]
  generalize values.foldl Scale.least Scale.greatest = best at hle hall hmem ⊢
  cases values with
  | nil => rfl
  | cons v values =>
    refine ⟨?_, hall⟩
    rcases hmem with rfl | hmem
    · exact ⟨v, List.mem_cons_self, beq_of_le_of_le (hall v List.mem_cons_self)
        (h v List.mem_cons_self)⟩
    · exact ⟨best, hmem, beq_of_le_of_le (hall best hmem) (hall best hmem)⟩

/-- Two sinks answer alike: the same count, and the same best value as a number. -/
structure Agree (p p' : Progress Float) : Prop where
  evaluations : p.evaluations = p'.evaluations
  best : Option.Rel (fun a b => (a == b) = true) p.best? p'.best?

/-- The order of the reports does not matter. -/
theorem agree_reported (hp : values.Perm values') (h : ∀ v ∈ values, v ≤ Scale.greatest) :
    (reported values).Agree (reported values') where
  evaluations := by rw [reported_eq, reported_eq, hp.length_eq]
  best := by
    have h' : ∀ v ∈ values', v ≤ Scale.greatest := fun v hv => h v (hp.mem_iff.2 hv)
    exact ((isMinimum_reported h).perm hp).unique (isMinimum_reported h')

/-- The sink accounts for the results of a population: it counted those with a value, all others
failed, and the best is the minimum of the values. -/
structure Summarizes (sink : Progress Float) {ε : Type} (results : List (Except ε Float)) :
    Prop where
  evaluations : sink.evaluations = (results.filterMap Except.toOption).length
  failed : sink.evaluations + (results.filter (·.toOption.isNone)).length = results.length
  best : IsMinimum (results.filterMap Except.toOption) sink.best?

theorem summarizes_reported {ε : Type} {results : List (Except ε Float)}
    (hp : values.Perm (results.filterMap Except.toOption))
    (h : ∀ v ∈ values, v ≤ Scale.greatest) : (reported values).Summarizes results := by
  have hcount : (reported values).evaluations = (results.filterMap Except.toOption).length := by
    rw [reported_eq, hp.length_eq]
  refine ⟨hcount, ?_, (isMinimum_reported h).perm hp⟩
  rw [hcount, length_values_add_failed]

end Progress

/-! ## Fitness -/

namespace Target

open Scale (greatest zero one)
open FloatOrder

variable {t : Target} {e : Execution Float} {v : Float}

theorem addUnits_le_greatest (h : v ≤ greatest) (n : Nat) : addUnits v n ≤ greatest := by
  induction n generalizing v with
  | zero => exact h
  | succ n ih => exact ih (add_one_le_greatest h)

theorem evaluateFrame_le_greatest {s next : FrameState} {level : UInt64}
    (h : t.evaluateFrame s e level = (next, .ok v)) : v ≤ greatest := by
  have hleast : ∀ goals, Goal.least goals e ≤ greatest := fun goals =>
    foldl_least_le_greatest (le_refl greatest_isNumber) _
  have hzero : (zero : Float) ≤ greatest := by decide
  unfold evaluateFrame at h
  split at h
  · cases h
  · split at h
    · cases h
      exact hzero
    · rename_i frame _ _
      cases hg : t.lineGoals frame.className frame.line with
      | error error => simp [hg, Except.map] at h
      | ok goals =>
        simp only [hg, Except.map, Prod.mk.injEq, Except.ok.injEq] at h
        obtain ⟨-, rfl⟩ := h
        split
        · exact hzero
        · exact hleast goals

theorem walk_le_greatest {s : FrameState} {n : Nat} (h : t.walk e s n = .ok v) :
    v ≤ greatest := by
  induction n generalizing s with
  | zero =>
    cases h
    decide
  | succ n ih =>
    rw [walk] at h
    split at h
    · cases h
    · rename_i next d hd
      split at h
      · exact ih h
      · cases h
        exact addUnits_le_greatest (evaluateFrame_le_greatest hd) n

/-- Whatever distances were recorded, a fitness is a number, and at most the greatest finite one. -/
theorem fitness_le_greatest (h : t.fitness e = .ok v) : v ≤ greatest := by
  have hzero : (zero : Float) ≤ greatest := by decide
  have hone : (one : Float) ≤ greatest := by decide
  unfold fitness at h
  split at h
  · cases h
    exact hzero
  · cases hw : t.walk e .initial t.crash.targetLevel.toNat with
    | error error => simp [hw, Except.map] at h
    | ok w =>
      simp only [hw, Except.map, Except.ok.injEq] at h
      obtain rfl := h
      split
      · unfold exceptionCoverage
        split
        · exact hzero
        · exact hone
      · exact add_one_le_greatest (walk_le_greatest hw)

theorem le_greatest_of_mem_scores {es : List (Execution Float)}
    (h : v ∈ (t.scores es).filterMap Except.toOption) : v ≤ greatest := by
  obtain ⟨score, hs, hv⟩ := List.mem_filterMap.1 h
  obtain ⟨e, -, rfl⟩ := List.mem_map.1 hs
  cases hf : t.fitness e with
  | error error => simp [hf, Except.toOption] at hv
  | ok w =>
    rw [hf] at hv
    exact fitness_le_greatest (hf.trans (congrArg Except.ok (Option.some.inj hv)))

end Target

end CrashSearch
