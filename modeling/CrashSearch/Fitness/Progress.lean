import CrashSearch.Scale

/-!
# Progress of a search

## Main definitions

* `Progress`: how many values were reported, and the best of them.
* `Progress.report`, `Progress.best?`: report a value, and ask for the best one.
* `Progress.count`, `Progress.lower`: the two changes of which a report consists.
-/

namespace CrashSearch

/-- How many fitness values were reported, and the least of them. -/
structure Progress (R : Type) where
  evaluations : Nat
  least : R

namespace Progress

variable {R : Type} [Scale R]

/-- Nothing was reported. -/
def initial : Progress R := ⟨0, Scale.greatest⟩

/-- Takes in a value. -/
def report (p : Progress R) (value : R) : Progress R :=
  ⟨p.evaluations + 1, Scale.least p.least value⟩

/-- Counts a value. -/
def count (p : Progress R) : Progress R := { p with evaluations := p.evaluations + 1 }

/-- Compares a value with the least one. -/
def lower (p : Progress R) (value : R) : Progress R :=
  { p with least := Scale.least p.least value }

/-- A report counts the value first and then compares it; between the two, others may report. -/
theorem lower_count (p : Progress R) (value : R) : p.count.lower value = p.report value := rfl

/-- The least value reported. -/
def best? (p : Progress R) : Option R := if p.evaluations = 0 then none else some p.least

/-- Takes in all values that could be computed. -/
def reportAll {ε : Type} (p : Progress R) (scores : List (Except ε R)) : Progress R :=
  scores.foldl (fun p score => match score with
    | .ok value => p.report value
    | .error _ => p) p

end Progress

end CrashSearch
