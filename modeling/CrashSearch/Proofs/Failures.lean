import CrashSearch.Model.Trace
import CrashSearch.Proofs.Reproduction
import CrashSearch.Trace.Log

/-!
# When an execution cannot be scored

The target level of a trace is checked however the trace came about, so the walk never leaves the
trace. What stops it is a line that depends on nothing: the goals of a tracked line are looked up
when the walk arrives there, whether its frame is matched or not.

## Main definitions

* `StackTrace.Obtained`: the ways to come by a trace.
* `Program.Uncontrolled`: the first instruction of a line depends on nothing.
* `Target.Stopped`: the walk arrives at such a line.

## Main statements

* `StackTrace.Obtained.accepted`: every way to come by a trace ends in the check of its level.
* `Target.walk_eq_error_iff`: the walk fails just if a level it arrives at does.
* `Target.fitness_fails_iff`: when there is no fitness, and what the sink learns.
-/

namespace CrashSearch

/-! ## Levels inside the trace -/

theorem exists_of_bind_eq_ok {ε α β : Type} {first : Except ε α} {next : α → Except ε β} {b : β}
    (h : first >>= next = .ok b) : ∃ a, first = .ok a ∧ next a = .ok b := by
  cases first with
  | error error => cases h
  | ok a => exact ⟨a, rfl, h⟩

namespace StackTrace

/-- The ways to come by a trace. Any levels may be taken out of the tracked ones afterwards. -/
inductive Obtained : StackTrace → Prop
  | made {type frames level c} : make? type frames level = .ok c → Obtained c
  | logged {log level c} : ofLog log level = .ok c → Obtained c
  | read {j c} : ofJson j = .ok c → Obtained c
  | marked {c} (levels : OrderedSet UInt64) : Obtained c → Obtained (c.withIrrelevant levels)

variable {level : UInt64} {c : StackTrace}

theorem exists_make?_of_ofLog {log : String} (h : ofLog log level = .ok c) :
    ∃ type frames, make? type frames level = .ok c := by
  unfold ofLog at h
  split at h
  · cases h
  · obtain ⟨frames, -, h⟩ := exists_of_bind_eq_ok h
    dsimp only at h
    split at h
    · cases h
    · exact ⟨_, frames, h⟩

theorem exists_make?_of_ofJson {j : Json} (h : ofJson j = .ok c) :
    ∃ type frames level made irrelevant, make? type frames level = .ok made ∧
      c = made.withIrrelevant irrelevant := by
  unfold ofJson at h
  obtain ⟨fs, -, h⟩ := exists_of_bind_eq_ok h
  obtain ⟨type, -, h⟩ := exists_of_bind_eq_ok h
  obtain ⟨frames, -, h⟩ := exists_of_bind_eq_ok h
  obtain ⟨level, -, h⟩ := exists_of_bind_eq_ok h
  obtain ⟨irrelevant, -, h⟩ := exists_of_bind_eq_ok h
  split at h
  · rename_i made hmade
    exact ⟨type, frames, level, made, irrelevant, hmade, (Except.ok.inj h).symm⟩
  · cases h

/-- Whichever way a trace came about, the check accepted its level for its frames. -/
theorem Obtained.accepted (h : c.Obtained) :
    make? c.exceptionType c.frames c.targetLevel = .ok (c.withIrrelevant .empty) := by
  have hmade : ∀ {type frames level made}, make? type frames level = .ok made →
      make? made.exceptionType made.frames made.targetLevel =
        .ok (made.withIrrelevant .empty) := by
    intro type frames level made h
    obtain ⟨hl, rfl, rfl, rfl, -⟩ := make?_eq_ok_iff.1 h
    exact make?_eq_ok_iff.2 ⟨hl, rfl, rfl, rfl, rfl⟩
  induction h with
  | made h => exact hmade h
  | logged h =>
    obtain ⟨type, frames, hlog⟩ := exists_make?_of_ofLog h
    exact hmade hlog
  | read h =>
    obtain ⟨type, frames, level, made, irrelevant, hread, rfl⟩ := exists_make?_of_ofJson h
    exact @hmade _ _ _ made hread
  | marked levels _ ih => exact ih

/-- What is looked up in a trace while an execution is scored lies inside of it: the levels up to
the target level, the frames of all of them together, and the crash site. -/
structure InBounds (c : StackTrace) : Prop where
  one_le : 1 ≤ c.targetLevel.toNat
  le_length : c.targetLevel.toNat ≤ c.frames.length
  frame : ∀ level : UInt64, 1 ≤ level.toNat → level.toNat ≤ c.targetLevel.toNat →
    ∃ frame, c.frame? level = some frame
  targetFrames : c.targetFrames.length = c.targetLevel.toNat
  crashSite : c.frames[0]? = some c.crashSite

theorem Obtained.inBounds (h : c.Obtained) : c.InBounds := by
  have ⟨hlo, hhi⟩ := (make?_eq_ok_iff.1 h.accepted).1
  refine ⟨hlo, hhi, ?frame, ?targetFrames, ?crashSite⟩
  case frame =>
    intro level hone hle
    have hl : level.toNat - 1 < c.frames.length := by omega
    refine ⟨c.frames[level.toNat - 1], ?_⟩
    unfold frame?
    rw [if_neg (by omega)]
    exact List.getElem?_eq_getElem hl
  case targetFrames => exact List.length_take_of_le hhi
  case crashSite => exact List.getElem?_eq_getElem (by omega)

end StackTrace

/-! ## Lines that depend on nothing -/

/-- A method owns the line, and its first instruction there depends on nothing and is not executed
whenever the method is entered either. -/
def Program.Uncontrolled (p : Program) (className method : String) (line : UInt32) : Prop :=
  p.methodAtLine? className line = some method ∧
    ∃ i, p.firstAtLine? className method line = some i ∧ p.dependencies i = [] ∧
      p.isRoot i = false

theorem Program.goals_eq_error_iff {p : Program} {className method : String} {line : UInt32}
    {error : Error} : p.goals className method line = .error error ↔
      error = .noControlDependency className method line ∧
        ∃ i, p.firstAtLine? className method line = some i ∧ p.dependencies i = [] ∧
          p.isRoot i = false := by
  unfold goals
  cases p.firstAtLine? className method line with
  | none => simp
  | some i =>
    by_cases h : p.dependencies i = [] ∧ p.isRoot i = false
    · simpa [h] using eq_comm
    · simp [h]

namespace Target

variable {R : Type} {t : Target} {e : Execution R} {s : FrameState} {level : UInt64}
  {frame : Frame} {error : Error}

theorem lineGoals_eq_error_iff {className : String} {line : UInt32} :
    t.lineGoals className line = .error error ↔
      ∃ method, t.program.Uncontrolled className method line ∧
        error = .noControlDependency className method line := by
  unfold lineGoals Program.Uncontrolled
  cases t.program.methodAtLine? className line with
  | none => simp
  | some method => simp [Program.goals_eq_error_iff, and_comm]

variable [Scale R]

/-- A level fails just if it is tracked and the goals of its line are missing. It does not matter
whether its frame is matched. -/
theorem evaluateFrame_eq_error_iff (hf : t.crash.frame? level = some frame) :
    (t.evaluateFrame s e level).2 = .error error ↔
      t.crash.isIrrelevant level = false ∧
        t.lineGoals frame.className frame.line = .error error := by
  unfold evaluateFrame
  rw [hf]
  cases t.crash.isIrrelevant level with
  | true => simp
  | false => cases hg : t.lineGoals frame.className frame.line <;> simp [hg, Except.map]

/-- The walk fails just if a level that it arrives at does. -/
theorem walk_eq_error_iff : t.walk e .initial t.crash.targetLevel.toNat = .error error ↔
    ∃ n s, t.Arrives e (n + 1) s ∧
      (t.evaluateFrame s e (.ofNat (n + 1))).2 = .error error := by
  constructor
  · intro h
    have hdown : ∀ n s, t.Arrives e n s → t.walk e s n = .error error →
        ∃ n s, t.Arrives e (n + 1) s ∧
          (t.evaluateFrame s e (.ofNat (n + 1))).2 = .error error := by
      intro n
      induction n with
      | zero =>
        intro s _ hw
        cases hw
      | succ n ih =>
        intro s ha hw
        rcases hv : t.evaluateFrame s e (.ofNat (n + 1)) with ⟨next, error' | d⟩
        · rw [walk, hv] at hw
          obtain rfl := Except.error.inj hw
          exact ⟨n, s, ha, by rw [hv]⟩
        · rw [walk, hv] at hw
          cases hd : d == Scale.zero with
          | true => exact ih next (ha.step hv hd) (by simpa [hd] using hw)
          | false => simp [hd] at hw
    exact hdown _ _ .top h
  · rintro ⟨n, s, ha, hv⟩
    rw [ha.walk_eq, walk]
    rcases he : t.evaluateFrame s e (.ofNat (n + 1)) with ⟨next, error' | d⟩
    · rw [he] at hv
      exact hv
    · rw [he] at hv
      cases hv

/-- With all levels above evaluated and the tracked ones among them matched, the walk arrives at a
tracked level whose line depends on nothing, which is the error. -/
def Stopped (t : Target) (e : Execution R) (error : Error) : Prop :=
  ∃ n s frame method, t.Matched e (n + 1) s ∧ t.crash.frame? (.ofNat (n + 1)) = some frame ∧
    t.crash.isIrrelevant (.ofNat (n + 1)) = false ∧
    t.program.Uncontrolled frame.className method frame.line ∧
    error = .noControlDependency frame.className method frame.line

theorem walk_eq_error_iff_stopped [LawfulScale R] (he : e.Nonneg) :
    t.walk e .initial t.crash.targetLevel.toNat = .error error ↔ t.Stopped e error := by
  rw [walk_eq_error_iff]
  constructor
  · rintro ⟨n, s, ha, hv⟩
    obtain ⟨frame, hf⟩ := StackTrace.exists_frame? ha.le
    obtain ⟨hi, hg⟩ := (evaluateFrame_eq_error_iff hf).1 hv
    obtain ⟨method, hu, herror⟩ := lineGoals_eq_error_iff.1 hg
    exact ⟨n, s, frame, method, (matched_iff_arrives he).2 ha, hf, hi, hu, herror⟩
  · rintro ⟨n, s, frame, method, hm, hf, hi, hu, herror⟩
    have hg := lineGoals_eq_error_iff.2 ⟨method, hu, herror⟩
    exact ⟨n, s, (matched_iff_arrives he).1 hm, (evaluateFrame_eq_error_iff hf).2 ⟨hi, hg⟩⟩

theorem fitness_eq_error_iff : t.fitness e = .error error ↔
    t.sameException e = false ∧
      t.walk e .initial t.crash.targetLevel.toNat = .error error := by
  unfold fitness
  cases t.sameException e with
  | true => simp
  | false => cases t.walk e .initial t.crash.targetLevel.toNat <;> simp [Except.map]

/-- The sink is informed once, of the fitness, and of an error not at all. -/
theorem run_scoreInto {σ : Type} (inform : R → σ → σ) (sink : σ) :
    (t.scoreInto inform e).run.run sink =
      match t.fitness e with
      | .ok v => (.ok v, inform v sink)
      | .error error => (.error error, sink) := by
  unfold scoreInto
  cases t.fitness e <;> rfl

/-! ## A frame on a line that depends on nothing -/

/-- The nested crash, where the line of the middle frame depends on nothing. -/
def adrift : Target :=
  { nested with program :=
    { nested.program with roots := nested.program.roots.filter (·.className ≠ "B") } }

theorem adrift_uncontrolled : adrift.program.Uncontrolled "B" "b" 20 :=
  ⟨nested_method ⟨"B", "b", 20⟩ (by decide), ⟨"B", "b", 0⟩, by decide, by decide, by decide⟩

theorem adrift_matched : ∃ s, adrift.Matched (nestedRun [3, 2]) 2 s := by
  have hm : adrift.program.methodAtLine? "A" 10 = some "a" :=
    nested_method ⟨"A", "a", 10⟩ (by decide)
  have hp : adrift.pass? (nestedRun [3, 2]) .initial 3 ⟨"A", "a", 10⟩ = some ⟨⟨[[1]]⟩, 0⟩ :=
    pass?_of_follow (by decide) hm (by decide)
  have hg : adrift.lineGoals "A" 10 = .ok [.root "A" "a"] := by
    rw [lineGoals, hm]
    decide
  have ha : adrift.Arrives (nestedRun [3, 2]) 2 ⟨⟨[[1]]⟩, 0⟩ :=
    Arrives.top.pass (by decide) hp fun _ => ⟨_, hg⟩
  exact ⟨_, (matched_iff_arrives (nestedRun_nonneg _)).2 ha⟩

theorem adrift_stopped : adrift.Stopped (nestedRun [3, 2]) (.noControlDependency "B" "b" 20) := by
  obtain ⟨s, hs⟩ := adrift_matched
  exact ⟨1, s, ⟨"B", "b", 20⟩, "b", hs, by decide, by decide, adrift_uncontrolled, rfl⟩

/-- Nothing is looked up outside the trace. There is no fitness just if the exception was not thrown
through the frames of the crash and the walk arrives at a tracked level whose line depends on
nothing; that line is the error. The sink is informed of a fitness once, and of an error never. -/
theorem fitness_fails_iff [LawfulScale R] (hc : t.crash.Obtained) (he : e.Nonneg) :
    t.crash.InBounds ∧
    (∀ level frames, t.fitness e ≠ .error (.frameOutOfRange level frames)) ∧
    (∀ error, t.fitness e = .error error ↔ t.sameException e = false ∧ t.Stopped e error) ∧
    ∀ (σ : Type) (inform : R → σ → σ) (sink : σ),
      (∀ v, t.fitness e = .ok v →
        (t.scoreInto inform e).run.run sink = (.ok v, inform v sink)) ∧
      ∀ error, t.fitness e = .error error →
        (t.scoreInto inform e).run.run sink = (.error error, sink) := by
  have hfails : ∀ error,
      t.fitness e = .error error ↔ t.sameException e = false ∧ t.Stopped e error := by
    intro error
    rw [fitness_eq_error_iff, walk_eq_error_iff_stopped he]
  refine ⟨hc.inBounds, ?_, hfails, ?_⟩
  · intro level frames h
    obtain ⟨-, _, _, _, _, -, -, -, -, herror⟩ := (hfails _).1 h
    cases herror
  · intro σ inform sink
    constructor
    · intro v hv
      rw [run_scoreInto, hv]
    · intro error hv
      rw [run_scoreInto, hv]

/-- All three frames are matched, and still the middle one is an error. -/
theorem adrift_fails :
    adrift.crash.Obtained ∧ (nestedRun [3, 2]).Nonneg ∧
      adrift.fitness (nestedRun [3, 2]) = .error (.noControlDependency "B" "b" 20) ∧
      (adrift.scoreInto List.cons (nestedRun [3, 2])).run.run [] =
        (.error (.noControlDependency "B" "b" 20), []) := by
  have hc : adrift.crash.Obtained :=
    .made (StackTrace.make?_eq_ok_iff.2 ⟨by decide, rfl, rfl, rfl, rfl⟩)
  obtain ⟨-, -, hfails, hsink⟩ := fitness_fails_iff hc (nestedRun_nonneg [3, 2])
  have hv := (hfails (.noControlDependency "B" "b" 20)).2 ⟨rfl, adrift_stopped⟩
  exact ⟨hc, nestedRun_nonneg _, hv, (hsink _ _ _).2 _ hv⟩

end Target

end CrashSearch
