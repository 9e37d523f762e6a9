import CrashSearch.Fitness.Population
import CrashSearch.Proofs.Failures
import CrashSearch.Proofs.Reports

/-!
# Populations under any schedule

However the evaluations of a population are interleaved, each ends with the fitness of its own
execution, and the sink ends as if the values had been reported one after the other, in the order in
which they were compared.

## Main definitions

* `Evaluation.countedValue?`, `Evaluation.comparedValue?`: what an evaluation told the sink.
* `Pool.Accounted`: the sink holds what the evaluations told it.

## Main statements

* `Evaluation.run_scoreInto_report`: an evaluation without a break scores into the sink.
* `Pool.getElem?_run`: an evaluation depends on how often it was scheduled only.
* `Pool.Accounted.run`: the sink stays accounted for.
* `Pool.run_in_any_order`: results, count and best of a population.
-/

namespace CrashSearch

variable {R : Type}

/-! ## Evaluations -/

namespace Evaluation

/-- The value that the evaluation made the sink count. -/
def countedValue? : Evaluation R → Option R
  | counted value => some value
  | done (.ok value) => some value
  | _ => none

/-- The value that the evaluation made the sink compare. -/
def comparedValue? : Evaluation R → Option R
  | done (.ok value) => some value
  | _ => none

theorem countedValue?_done (score : Except Error R) :
    (done score).countedValue? = score.toOption := by
  cases score <;> rfl

theorem comparedValue?_done (score : Except Error R) :
    (done score).comparedValue? = score.toOption := by
  cases score <;> rfl

variable [Scale R] {t : Target} {e : Execution R}

/-- After two changes the result is there. -/
theorem next_next_waiting (t : Target) (e : Execution R) :
    ((waiting e).next t).next t = done (t.fitness e) := by
  cases h : t.fitness e <;> simp [next, h]

/-- Scoring into the sink is an evaluation that goes on twice without a break. -/
theorem run_scoreInto_report (t : Target) (e : Execution R) (sink : Progress R) :
    (t.scoreInto (fun value p => p.report value) e).run.run sink =
      (t.fitness e, ((waiting e).next t).inform t ((waiting e).inform t sink)) := by
  rw [Target.run_scoreInto]
  cases h : t.fitness e <;> simp [next, inform, h, Progress.lower_count]

theorem iterate_next_done (score : Except Error R) (n : Nat) :
    (next t)^[n] (done score) = done score :=
  Function.iterate_fixed rfl n

theorem iterate_next_waiting {n : Nat} (h : 2 ≤ n) :
    (next t)^[n] (waiting e) = done (t.fitness e) := by
  obtain ⟨k, rfl⟩ := Nat.exists_eq_add_of_le' h
  rw [Function.iterate_add_apply]
  show (next t)^[k] (((waiting e).next t).next t) = _
  rw [next_next_waiting, iterate_next_done]

/-- If the result is there, it is the fitness. -/
theorem eq_fitness_of_iterate_next {n : Nat} {score : Except Error R}
    (h : (next t)^[n] (waiting e) = done score) : score = t.fitness e := by
  have hdone : (next t)^[2 + n] (waiting e) = done score := by
    rw [Function.iterate_add_apply, h, iterate_next_done]
  rw [iterate_next_waiting (by omega)] at hdone
  exact (done.inj hdone).symm

/-- The sink counts what the evaluation gives it to count. -/
theorem evaluations_inform (evaluation : Evaluation R) (sink : Progress R) :
    (evaluation.inform t sink).evaluations + evaluation.countedValue?.toList.length =
      sink.evaluations + (evaluation.next t).countedValue?.toList.length := by
  cases evaluation with
  | waiting e => cases h : t.fitness e <;> simp [inform, next, countedValue?, Progress.count, h]
  | counted value => rfl
  | done score => rfl

/-- The sink compares what the evaluation gives it to compare. -/
theorem least_inform (evaluation : Evaluation R) (sink : Progress R) : ∃ given : List R,
    (evaluation.next t).comparedValue?.toList = evaluation.comparedValue?.toList ++ given ∧
      (evaluation.inform t sink).least = given.foldl Scale.least sink.least := by
  cases evaluation with
  | waiting e =>
    refine ⟨[], ?_⟩
    cases h : t.fitness e <;> simp [inform, next, comparedValue?, Progress.count, h]
  | counted value => exact ⟨[value], rfl, rfl⟩
  | done score => exact ⟨[], (List.append_nil _).symm, rfl⟩

end Evaluation

/-! ## Schedules -/

namespace Pool

open Evaluation

variable [Scale R] {t : Target} {es : List (Execution R)} {pool : Pool R} {schedule : List Nat}
  {results : List (Except Error R)}

/-- How far an evaluation has come depends on how often it was scheduled, and on no other one. -/
theorem getElem?_run (pool : Pool R) (schedule : List Nat) (i : Nat) :
    (pool.run t schedule).evaluations[i]? =
      pool.evaluations[i]?.map (Evaluation.next t)^[schedule.count i] := by
  induction schedule generalizing pool with
  | nil => simp [run]
  | cons j schedule ih =>
    have hrun : pool.run t (j :: schedule) = (pool.advance t j).run t schedule := rfl
    rw [hrun, ih]
    by_cases hj : j = i
    · subst hj
      simp [advance, Function.iterate_succ]
    · simp [advance, hj]

theorem getElem?_run_start (i : Nat) : ((start es).run t schedule).evaluations[i]? =
    es[i]?.map fun e => (Evaluation.next t)^[schedule.count i] (.waiting e) := by
  rw [getElem?_run]
  simp [start, Function.comp_def]

/-- All evaluations are done as soon as each was scheduled twice. -/
theorem finished_of_count (h : ∀ i < es.length, 2 ≤ schedule.count i) :
    ((start es).run t schedule).Finished (t.scores es) := by
  apply List.ext_getElem?
  intro i
  rw [getElem?_run_start]
  by_cases hi : i < es.length
  · simp [Target.scores, hi, iterate_next_waiting (h i hi)]
  · simp [Target.scores, hi]

/-- The result with an index is the fitness of the execution with this index. -/
theorem Finished.eq_scores (h : ((start es).run t schedule).Finished results) :
    results = t.scores es := by
  apply List.ext_getElem?
  intro i
  have hi := congrArg (·[i]?) h
  simp only [getElem?_run_start, List.getElem?_map] at hi
  rw [Target.scores, List.getElem?_map]
  cases he : es[i]? with
  | none => simpa [he] using hi
  | some e =>
    cases hr : results[i]? with
    | none => simp [he, hr] at hi
    | some score =>
      simp only [he, hr, Option.map_some, Option.some.injEq] at hi
      exact congrArg some (eq_fitness_of_iterate_next hi)

/-! ## The sink -/

/-- What the evaluations told the sink is what it holds. It compared the values in some order. -/
structure Accounted (pool : Pool R) : Prop where
  count : pool.sink.evaluations = (pool.evaluations.filterMap countedValue?).length
  compared : ∃ order : List R, order.Perm (pool.evaluations.filterMap comparedValue?) ∧
    pool.sink.least = order.foldl Scale.least Scale.greatest

theorem accounted_start (es : List (Execution R)) : (start es).Accounted where
  count := by simp [start, Progress.initial, countedValue?, List.filterMap_map, Function.comp_def]
  compared := ⟨[], by simp [start, comparedValue?, List.filterMap_map, Function.comp_def], rfl⟩

theorem exists_split_modify {α : Type} {l : List α} {i : Nat} {a : α} (h : l[i]? = some a)
    (f : α → α) : ∃ before after, l = before ++ a :: after ∧
      l.modify i f = before ++ f a :: after := by
  obtain ⟨hi, rfl⟩ := List.getElem?_eq_some_iff.1 h
  refine ⟨l.take i, l.drop (i + 1), ?_, List.modify_eq_take_cons_drop hi⟩
  rw [← List.drop_eq_getElem_cons hi, List.take_append_drop]

theorem filterMap_append_cons {α β : Type} (f : α → Option β) (before : List α) (a : α)
    (after : List α) : (before ++ a :: after).filterMap f =
      before.filterMap f ++ ((f a).toList ++ after.filterMap f) := by
  rw [List.filterMap_append, List.filterMap_cons]
  cases f a <;> rfl

/-- What an evaluation tells the sink when it goes on is accounted for. -/
theorem Accounted.advance (h : pool.Accounted) (i : Nat) : (pool.advance t i).Accounted := by
  cases hi : pool.evaluations[i]? with
  | none =>
    have hsame : pool.advance t i = pool := by
      simp [Pool.advance, hi, List.modify_eq_self (List.getElem?_eq_none_iff.1 hi)]
    rwa [hsame]
  | some evaluation =>
    obtain ⟨before, after, hl, hm⟩ := exists_split_modify hi (·.next t)
    have hnext : pool.advance t i =
        ⟨before ++ evaluation.next t :: after, evaluation.inform t pool.sink⟩ := by
      simp [Pool.advance, hi, hm]
    have hcount := h.count
    obtain ⟨order, hperm, hleast⟩ := h.compared
    rw [hl, filterMap_append_cons] at hcount hperm
    rw [hnext]
    constructor
    case count =>
      have hstep := evaluations_inform (t := t) evaluation pool.sink
      rw [filterMap_append_cons]
      simp only [List.length_append] at hcount ⊢
      omega
    case compared =>
      obtain ⟨given, hgiven, hstep⟩ := least_inform (t := t) evaluation pool.sink
      refine ⟨order ++ given, ?_, by rw [hstep, hleast, List.foldl_append]⟩
      rw [filterMap_append_cons, hgiven]
      refine (hperm.append_right given).trans ?_
      simp only [List.append_assoc]
      exact (List.perm_append_comm.append_left _).append_left _

theorem Accounted.run (h : pool.Accounted) (schedule : List Nat) :
    (pool.run t schedule).Accounted := by
  induction schedule generalizing pool with
  | nil => exact h
  | cons i schedule ih => exact ih (h.advance i)

/-- In the end the sink is as if the values had been reported one after the other. -/
theorem Accounted.sink_eq (h : pool.Accounted) (hf : pool.Finished results) :
    ∃ order : List R, order.Perm (results.filterMap Except.toOption) ∧
      pool.sink = Progress.reported order := by
  obtain ⟨order, hperm, hleast⟩ := h.compared
  have hcount := h.count
  rw [hf, List.filterMap_map] at hcount hperm
  simp only [Function.comp_def, countedValue?_done, comparedValue?_done] at hcount hperm
  refine ⟨order, hperm, ?_⟩
  rw [Progress.reported_eq, hperm.length_eq, ← hcount, ← hleast]

end Pool

/-! ## Three executions that come out differently -/

namespace Target

/-- An execution that does nothing is stuck at the outermost frame. -/
theorem adrift_idle : adrift.fitness Execution.empty = .ok 3.5 := by
  have hm : adrift.program.methodAtLine? "A" 10 = some "a" :=
    nested_method ⟨"A", "a", 10⟩ (by decide)
  have hg : adrift.lineGoals "A" 10 = .ok [.root "A" "a"] := by
    rw [lineGoals, hm]
    decide
  have hp : adrift.pass? (Execution.empty : Execution Float) .initial (.ofNat (2 + 1))
      ⟨"A", "a", 10⟩ = none := by
    rw [pass?, matchFrame, hm]
    rfl
  have he : (Execution.empty : Execution Float).Nonneg := Execution.nonneg_of_empty rfl rfl
  rw [fitness_of_unmatched he .top (by decide) hp hg rfl]
  exact congrArg Except.ok (Float.toBits_inj.1 (by decide +kernel))

/-- One execution that cannot be scored, one that does nothing and one that throws the exception of
the crash. -/
def adriftRuns : List (Execution Float) :=
  [nestedRun [3, 2], .empty, throwing adrift.crash.frames]

theorem adriftRuns_scores : adrift.scores adriftRuns =
    [.error (.noControlDependency "B" "b" 20), .ok 3.5, .ok Scale.zero] := by
  have hfails : adrift.fitness (nestedRun [3, 2]) =
      .error (.noControlDependency "B" "b" 20) :=
    fitness_eq_error_iff.2
      ⟨rfl, (walk_eq_error_iff_stopped (nestedRun_nonneg _)).2 adrift_stopped⟩
  have hzero : adrift.fitness (throwing adrift.crash.frames) = .ok Scale.zero :=
    fitness_of_sameException (by decide)
  simp only [scores, adriftRuns, List.map_cons, List.map_nil, hfails, adrift_idle, hzero]

end Target

namespace Pool

open Target

/-- Population bookkeeping. The evaluations are done as soon as each was scheduled twice, in
whatever order. Once they are done, the results are the fitness of one execution after the other,
and the sink accounts for them: it answers like one that learns the results in their order. In
general, finite numbers may be reported in any order. -/
theorem run_in_any_order (t : Target) (es : List (Execution Float)) :
    (∀ schedule : List Nat, (∀ i < es.length, 2 ≤ schedule.count i) →
      ((start es).run t schedule).Finished (t.scores es)) ∧
    (∀ schedule results, ((start es).run t schedule).Finished results →
      results = t.scores es ∧ ((start es).run t schedule).sink.Summarizes results ∧
        ((start es).run t schedule).sink.Agree (Progress.initial.reportAll results)) ∧
    ∀ values values' : List Float, values.Perm values' → (∀ v ∈ values, v.isFinite = true) →
      (Progress.reported values).Agree (Progress.reported values') := by
  refine ⟨fun schedule => finished_of_count, ?_, ?_⟩
  · intro schedule results hf
    obtain rfl := hf.eq_scores
    obtain ⟨order, hperm, hsink⟩ := ((accounted_start es).run schedule).sink_eq hf
    have hle : ∀ v ∈ order, v ≤ Scale.greatest := fun v hv =>
      Target.le_greatest_of_mem_scores (hperm.mem_iff.1 hv)
    rw [hsink, Progress.reportAll_eq]
    exact ⟨rfl, Progress.summarizes_reported hperm hle, Progress.agree_reported hperm hle⟩
  · intro values values' hperm hfinite
    exact Progress.agree_reported hperm fun v hv =>
      FloatOrder.le_greatest_of_isFinite (hfinite v hv)

/-- The best execution is counted first and compared last, with the others in between. -/
theorem adriftRuns_in_any_order :
    ((start adriftRuns).run adrift [2, 1, 0, 1, 2, 0]).Finished
        [.error (.noControlDependency "B" "b" 20), .ok 3.5, .ok Scale.zero] ∧
      ((start adriftRuns).run adrift [2, 1, 0, 1, 2, 0]).sink.evaluations = 2 ∧
      Progress.IsMinimum [3.5, Scale.zero]
        ((start adriftRuns).run adrift [2, 1, 0, 1, 2, 0]).sink.best? ∧
      (Progress.reported [0.0, Scale.greatest, -0.0]).Agree
        (Progress.reported [-0.0, 0.0, Scale.greatest]) := by
  obtain ⟨hall, hresults, hreports⟩ := run_in_any_order adrift adriftRuns
  have hf := hall [2, 1, 0, 1, 2, 0] (by decide)
  obtain ⟨-, hsink, -⟩ := hresults _ _ hf
  rw [adriftRuns_scores] at hf hsink
  exact ⟨hf, hsink.evaluations, hsink.best,
    hreports _ _ (List.perm_append_singleton (-0.0) [0.0, Scale.greatest]) (by decide)⟩

end Pool

end CrashSearch
