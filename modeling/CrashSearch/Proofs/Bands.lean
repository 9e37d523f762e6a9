import CrashSearch.Proofs.ExactScale
import CrashSearch.Proofs.Lines
import CrashSearch.Proofs.TrackedFrames

/-!
# Bands of the fitness

Read over exact numbers, the level at which the walk gets stuck is the whole part of the fitness,
and how far its line is away is the rest. So getting one level further always counts for more.

## Main definitions

* `Target.unmatched?`: the level at which the walk gets stuck.
* `Target.Owned`: the line of each tracked frame has an instruction in its class.
* `Target.Scored`: an execution with its fitness.

## Main statements

* `Target.walk_exact`: the distance of the frames, by the level at which the walk gets stuck.
* `Target.fitness_bands`: the fitness lies in the band of that level, and so the bands order it.
-/

namespace CrashSearch

namespace Target

variable {R : Type} [Scale R]

/-- The first level at or below `n` that is not passed. -/
def stuckBelow? (t : Target) (e : Execution R) (s : FrameState) : Nat → Option Nat
  | 0 => none
  | n + 1 =>
    match t.crash.frame? (.ofNat (n + 1)) >>= t.pass? e s (.ofNat (n + 1)) with
    | some next => t.stuckBelow? e next n
    | none => some (n + 1)

/-- The first level that the walk does not pass. -/
def unmatched? (t : Target) (e : Execution R) : Option Nat :=
  t.stuckBelow? e .initial t.crash.targetLevel.toNat

/-- The line of each tracked frame belongs to some method of its class. -/
def Owned (t : Target) : Prop :=
  ∀ level frame, level ≤ t.crash.targetLevel → t.crash.frame? level = some frame →
    t.crash.isIrrelevant level = false → t.program.Owns frame.className frame.line

/-- The crash was reproduced: by the same exception, or through all frames. -/
def Reproduced (t : Target) (e : Execution R) : Prop :=
  t.sameException e = true ∨ (t.unmatched? e = none ∧ e.thrown.any t.isCrash = true)

/-- An execution, not by the same exception, that has the fitness `v`. -/
structure Scored (t : Target) (e : Execution R) (v : R) : Prop where
  nonneg : e.Nonneg
  other : t.sameException e = false
  fitness : t.fitness e = .ok v

section

variable {t : Target} {e : Execution R} {s last : FrameState} {frame : Frame} {n : Nat}

omit [Scale R] in
theorem stuckBelow?_succ (hf : t.crash.frame? (.ofNat (n + 1)) = some frame) :
    t.stuckBelow? e s (n + 1) =
      match t.pass? e s (.ofNat (n + 1)) frame with
      | some next => t.stuckBelow? e next n
      | none => some (n + 1) := by
  rw [stuckBelow?, hf]
  rfl

omit [Scale R] in
/-- It is enough to look at the frames that stand in the trace. -/
theorem Owned.of_trackedAbove
    (h : ∀ frame ∈ t.crash.trackedAbove 0, t.program.Owns frame.className frame.line) :
    t.Owned := by
  intro level frame hle hf hi
  have hlo : 0 < level.toNat := by
    by_contra hz
    rw [StackTrace.frame?, if_pos (by omega)] at hf
    cases hf
  exact h frame (StackTrace.mem_trackedAbove hlo (UInt64.le_iff_toNat_le.1 hle) hf hi)

variable [LawfulScale R]

/-- The levels that were passed are not those where the walk is stuck. -/
theorem Arrives.unmatched?_eq (h : t.Arrives e n s) (he : e.Nonneg) :
    t.unmatched? e = t.stuckBelow? e s n := by
  induction h with
  | top => rfl
  | step ha hv hd ih =>
    obtain ⟨frame, hf⟩ := StackTrace.exists_frame? ha.le
    rw [ih, stuckBelow?_succ hf, pass?_of_zero he hf hv hd]

theorem Arrives.scored_of_matched (ha : t.Arrives e 0 last) (he : e.Nonneg)
    (hs : t.sameException e = false) :
    t.Scored e (t.exceptionCoverage e) ∧ t.unmatched? e = none :=
  ⟨⟨he, hs, fitness_of_arrives ha hs⟩, ha.unmatched?_eq he⟩

theorem Arrives.scored_of_stuck (ha : t.Arrives e (n + 1) s) (he : e.Nonneg) {goals : List Goal}
    (hs : t.sameException e = false) (hf : t.crash.frame? (.ofNat (n + 1)) = some frame)
    (hp : t.pass? e s (.ofNat (n + 1)) frame = none)
    (hg : t.lineGoals frame.className frame.line = .ok goals) :
    t.Scored e (addUnits (Goal.least goals e) n + Scale.one) ∧ t.unmatched? e = some (n + 1) := by
  refine ⟨⟨he, hs, fitness_of_unmatched he ha hf hp hg hs⟩, ?_⟩
  rw [ha.unmatched?_eq he, stuckBelow?_succ hf, hp]

end

variable {t : Target} {e e' : Execution ℚ} {s : FrameState} {v v' : ℚ} {n k k' : Nat}

/-- The walk counts nothing, or it is stuck at some level and counts the distance there and a unit
for each level below. -/
theorem walk_exact (he : e.Nonneg) (hp : t.program.Built) (ho : t.Owned)
    (hn : n ≤ t.crash.targetLevel.toNat) (hw : t.walk e s n = .ok v) :
    (t.stuckBelow? e s n = none ∧ v = 0) ∨
      ∃ (k : Nat) (d : ℚ), t.stuckBelow? e s n = some (k + 1) ∧ 0 < d ∧ d ≤ 1 ∧ v = d + k := by
  induction n generalizing s with
  | zero => exact .inl ⟨rfl, (Except.ok.inj hw).symm⟩
  | succ n ih =>
    obtain ⟨frame, hf⟩ := StackTrace.exists_frame? hn
    rw [stuckBelow?_succ hf]
    cases hpass : t.pass? e s (.ofNat (n + 1)) frame with
    | some next => exact ih (by omega) (walk_of_pass hf hpass hw)
    | none =>
      obtain ⟨goals, hg, rfl⟩ := walk_of_stuck he hf hpass hw
      -- The level is tracked, so its line is owned and has a goal.
      have hi : t.crash.isIrrelevant (.ofNat (n + 1)) = false := by
        by_contra hi
        rw [pass?_of_irrelevant (by simpa using hi)] at hpass
        cases hpass
      have hle : UInt64.ofNat (n + 1) ≤ t.crash.targetLevel := by
        rw [UInt64.le_iff_toNat_le, StackTrace.toNat_level hn]
        exact hn
      have hne := lineGoals_ne_nil hp (ho _ _ hle hf hi) hg
      exact .inr ⟨n, Goal.least goals e, rfl, Goal.least_pos he goals, Goal.least_le_one he hne,
        addUnits_eq _ n⟩

/-- Without getting stuck only the exception counts, and it counts a unit if it is missing. Stuck at
level `k`, the levels below and the exception count the whole part. -/
theorem Scored.band (h : t.Scored e v) (hp : t.program.Built) (ho : t.Owned) :
    (t.unmatched? e = none ∧ v = t.exceptionCoverage e) ∨
      ∃ (k : Nat) (d : ℚ), t.unmatched? e = some k ∧ 1 ≤ k ∧ 0 < d ∧ d ≤ 1 ∧ v = d + k := by
  have hv := h.fitness
  rw [Target.fitness, if_neg (by rw [h.other]; exact Bool.noConfusion)] at hv
  cases hw : t.walk e .initial t.crash.targetLevel.toNat with
  | error error => simp [hw, Except.map] at hv
  | ok w =>
    rw [hw] at hv
    have hv : (if w == Scale.zero then t.exceptionCoverage e else w + Scale.one) = v :=
      Except.ok.inj hv
    rcases walk_exact h.nonneg hp ho (Nat.le_refl _) hw with ⟨hn, hz⟩ | ⟨k, d, hn, hd, hd1, rfl⟩
    · have hzero : (w == Scale.zero) = true := beq_iff_eq.2 hz
      rw [if_pos hzero] at hv
      exact .inl ⟨hn, hv.symm⟩
    · have hpos : 0 < d + (k : ℚ) := by positivity
      have hzero : ¬ (d + (k : ℚ) == Scale.zero) = true := by
        rw [beq_iff_eq]
        exact hpos.ne'
      rw [if_neg hzero] at hv
      refine .inr ⟨k + 1, d, hn, by omega, hd, hd1, ?_⟩
      rw [← hv, Scale.one_eq, Nat.cast_add, Nat.cast_one]
      exact add_assoc _ _ _

theorem exceptionCoverage_eq (t : Target) (e : Execution ℚ) :
    t.exceptionCoverage e = if e.thrown.any t.isCrash then 0 else 1 := rfl

theorem exceptionCoverage_cases (t : Target) (e : Execution ℚ) :
    t.exceptionCoverage e = 0 ∨ t.exceptionCoverage e = 1 := by
  rw [exceptionCoverage_eq]
  split <;> simp

namespace Scored

theorem of_matched (h : t.Scored e v) (hp : t.program.Built) (ho : t.Owned)
    (hn : t.unmatched? e = none) : v = t.exceptionCoverage e := by
  rcases h.band hp ho with ⟨-, hv⟩ | ⟨k, d, hk, -⟩
  · exact hv
  · simp [hn] at hk

theorem of_stuck (h : t.Scored e v) (hp : t.program.Built) (ho : t.Owned)
    (hk : t.unmatched? e = some k) : 1 ≤ k ∧ ∃ d : ℚ, 0 < d ∧ d ≤ 1 ∧ v = d + k := by
  rcases h.band hp ho with ⟨hn, -⟩ | ⟨l, d, hl, hpos, hd, hd1, hv⟩
  · simp [hk] at hn
  · obtain rfl : k = l := Option.some.inj (hk.symm.trans hl)
    exact ⟨hpos, d, hd, hd1, hv⟩

/-- An execution that got further lies at or below the band of the level it has passed. -/
theorem le_of_further (h : t.Scored e v) (hp : t.program.Built) (ho : t.Owned) (hk' : 1 ≤ k')
    (hlt : ∀ k, t.unmatched? e = some k → k < k') : v ≤ k' := by
  cases hu : t.unmatched? e with
  | none =>
    have hone : (1 : ℚ) ≤ k' := by exact_mod_cast hk'
    rw [h.of_matched hp ho hu]
    rcases exceptionCoverage_cases t e with hc | hc <;> rw [hc] <;> linarith
  | some k =>
    obtain ⟨-, d, -, hd1, rfl⟩ := h.of_stuck hp ho hu
    have hstep : (k : ℚ) + 1 ≤ k' := by exact_mod_cast hlt k hu
    linarith

/-- An execution that does not reproduce the crash has some fitness left. -/
theorem pos_of_not_reproduced (h : t.Scored e v) (hp : t.program.Built) (ho : t.Owned)
    (hr : ¬ t.Reproduced e) : 0 < v := by
  cases hu : t.unmatched? e with
  | none =>
    have hthrown : ¬ e.thrown.any t.isCrash = true := fun ht => hr (.inr ⟨hu, ht⟩)
    rw [h.of_matched hp ho hu, exceptionCoverage_eq, if_neg hthrown]
    exact one_pos
  | some k =>
    obtain ⟨-, d, hd, -, rfl⟩ := h.of_stuck hp ho hu
    positivity

end Scored

/-! ## Runs that get further and further -/

/-- A run that makes the first few of three calls: one for each tracked frame of the crash. -/
def spacedRun (n : Nat) : Execution ℚ :=
  { Execution.empty with methodCalls := [outerCall, middleCall 3, innerCall].take n }

theorem spacedRun_nonneg (n : Nat) : (spacedRun n).Nonneg := Execution.nonneg_of_empty rfl rfl

theorem spaced_built : spaced.program.Built :=
  .markRoot _ (.insertGraph _ (.markRoot _ (.insertGraph _ (.markRoot _ (.insertGraph _ .empty)))))

theorem spaced_owned : spaced.Owned := by
  refine .of_trackedAbove ?_
  unfold Program.Owns
  decide

theorem spaced_lineGoals {frame : Frame} (hm : frame ∈ nested.crash.trackedAbove 0) :
    spaced.lineGoals frame.className frame.line =
      .ok [.root frame.className frame.methodName] :=
  nested_lineGoals frame hm

/-- The highest level is passed over. -/
theorem spacedRun_arrives_outer (n : Nat) : spaced.Arrives (spacedRun n) 4 ⟨.empty, 1⟩ :=
  Arrives.top.pass (show spaced.crash.frame? 5 = some ⟨"Y", "y", 6⟩ by decide)
    (pass?_of_irrelevant (by decide)) fun h => absurd h (by decide)

theorem spacedRun_arrives_middle {n : Nat} (hn : n ∈ [1, 2, 3]) :
    spaced.Arrives (spacedRun n) 3 ⟨⟨[[1]]⟩, 1⟩ := by
  have hc : ∀ n ∈ [1, 2, 3], Chains.followAll "a" 10 (spaced.depth ⟨.empty, 1⟩ 4)
      (.empty, false) (spacedRun n).methodCalls = (⟨[[1]]⟩, true) := by
    decide
  have hm : (⟨"A", "a", 10⟩ : Frame) ∈ nested.crash.trackedAbove 0 := by decide
  exact (spacedRun_arrives_outer n).pass (show spaced.crash.frame? 4 = some _ by decide)
    (spaced_pass? hm (by decide) (hc n hn)) fun _ => ⟨_, spaced_lineGoals hm⟩

/-- The call in the middle is found, and the level below it is passed over. -/
theorem spacedRun_arrives_inner {n : Nat} (hn : n ∈ [2, 3]) :
    spaced.Arrives (spacedRun n) 1 ⟨⟨[[1, 3]]⟩, 2⟩ := by
  have hc : ∀ n ∈ [2, 3], Chains.followAll "b" 20 (spaced.depth ⟨⟨[[1]]⟩, 1⟩ 3)
      (⟨[[1]]⟩, false) (spacedRun n).methodCalls = (⟨[[1, 3]]⟩, true) := by
    decide
  have hm : (⟨"B", "b", 20⟩ : Frame) ∈ nested.crash.trackedAbove 0 := by decide
  have hmiddle : spaced.Arrives (spacedRun n) 2 ⟨⟨[[1, 3]]⟩, 1⟩ :=
    (spacedRun_arrives_middle (List.mem_cons_of_mem _ hn)).pass
      (show spaced.crash.frame? 3 = some _ by decide) (spaced_pass? hm (by decide) (hc n hn))
      fun _ => ⟨_, spaced_lineGoals hm⟩
  exact hmiddle.pass (show spaced.crash.frame? 2 = some ⟨"X", "x", 5⟩ by decide)
    (pass?_of_irrelevant (by decide)) fun h => absurd h (by decide)

theorem spacedRun_arrives : spaced.Arrives (spacedRun 3) 0 ⟨⟨[[1, 3, 4]]⟩, 2⟩ := by
  have hm : (⟨"C", "c", 30⟩ : Frame) ∈ nested.crash.trackedAbove 0 := by decide
  exact (spacedRun_arrives_inner (by decide)).pass (show spaced.crash.frame? 1 = some _ by decide)
    (spaced_pass? hm (by decide) (by decide)) fun _ => ⟨_, spaced_lineGoals hm⟩

/-- Where the next call is missing, its method was not entered, which counts one half. -/
theorem spacedRun_stuck {n k : Nat} {frame : Frame} (ha : spaced.Arrives (spacedRun n) (k + 1) s)
    (hf : spaced.crash.frame? (.ofNat (k + 1)) = some frame)
    (hm : frame ∈ nested.crash.trackedAbove 0)
    (hi : spaced.crash.isIrrelevant (.ofNat (k + 1)) = false)
    (hc : (Chains.followAll frame.methodName frame.line (spaced.depth s (.ofNat (k + 1)))
      (s.chains, false) (spacedRun n).methodCalls).2 = false)
    (hd : Goal.least [.root frame.className frame.methodName] (spacedRun n) = 1 / 2)
    (hv : v = 1 / 2 + k + 1) :
    spaced.Scored (spacedRun n) v ∧ spaced.unmatched? (spacedRun n) = some (k + 1) := by
  have hp : spaced.pass? (spacedRun n) s (.ofNat (k + 1)) frame = none :=
    pass?_eq_none_of_follow hi (nested_method frame hm) hc
  have hscored := ha.scored_of_stuck (spacedRun_nonneg n) rfl hf hp (spaced_lineGoals hm)
  rwa [addUnits_eq, hd, Scale.one_eq, ← hv] at hscored

/-- A run that only throws the exception of the crash, through all of its frames. -/
def spacedThrown : Execution ℚ :=
  { Execution.empty with exceptions := .ofList [(0, ⟨"E", spaced.crash.frames⟩)] }

theorem spacedThrown_fitness : spaced.fitness spacedThrown = .ok 0 :=
  fitness_of_sameException (by decide)

/-! ## Bands -/

/-- Exact fitness lies in bands. Where all tracked frames were matched it is nothing or a unit, and
where the walk is stuck at level `k` it is more than `k` and at most `k + 1`. So of two executions
the one that got further has the smaller fitness, and one with no fitness left lies below all that
do not reproduce the crash. -/
theorem fitness_bands (hp : t.program.Built) (ho : t.Owned) :
    (∀ (e : Execution ℚ) (v : ℚ), t.Scored e v →
      (t.unmatched? e = none → v = t.exceptionCoverage e ∧ (v = 0 ∨ v = 1)) ∧
      ∀ k, t.unmatched? e = some k →
        (∃ d : ℚ, 0 < d ∧ d ≤ 1 ∧ v = d + k) ∧ (k : ℚ) < v ∧ v ≤ k + 1) ∧
    (∀ (e e' : Execution ℚ) (v v' : ℚ), t.Scored e v → t.Scored e' v' →
      ∀ k', t.unmatched? e' = some k' → (∀ k, t.unmatched? e = some k → k < k') → v < v') ∧
    ∀ (e e' : Execution ℚ) (v v' : ℚ), t.fitness e = .ok v → v = 0 → t.Scored e' v' →
      ¬ t.Reproduced e' → v < v' := by
  refine ⟨?_, ?_, ?_⟩
  · intro e v h
    refine ⟨fun hn => ?_, fun k hk => ?_⟩
    · have hv := h.of_matched hp ho hn
      exact ⟨hv, hv ▸ exceptionCoverage_cases t e⟩
    · obtain ⟨-, d, hd, hd1, rfl⟩ := h.of_stuck hp ho hk
      exact ⟨⟨d, hd, hd1, rfl⟩, by linarith, by linarith⟩
  · intro e e' v v' h h' k' hk' hlt
    obtain ⟨hpos, d, hd, -, rfl⟩ := h'.of_stuck hp ho hk'
    have hle := h.le_of_further hp ho hpos hlt
    linarith
  · intro e e' v v' _ hv h' hr
    rw [hv]
    exact h'.pos_of_not_reproduced hp ho hr

/-- Without a call the run is stuck at the highest tracked level, and with each call it lies in a
lower band. Between the last two calls it gets past a level that is not tracked, which counts like
any other. -/
theorem spacedRun_bands :
    spaced.program.Built ∧ spaced.Owned ∧
      (spaced.Scored (spacedRun 0) (9 / 2) ∧ spaced.unmatched? (spacedRun 0) = some 4) ∧
      (spaced.Scored (spacedRun 1) (7 / 2) ∧ spaced.unmatched? (spacedRun 1) = some 3) ∧
      (spaced.Scored (spacedRun 2) (3 / 2) ∧ spaced.unmatched? (spacedRun 2) = some 1) ∧
      (spaced.Scored (spacedRun 3) 1 ∧ spaced.unmatched? (spacedRun 3) = none) ∧
      (((3 : Nat) : ℚ) < 7 / 2 ∧ (7 / 2 : ℚ) ≤ (3 : Nat) + 1) ∧
      (3 / 2 : ℚ) < 7 / 2 ∧ (1 : ℚ) < 3 / 2 ∧
      spaced.fitness spacedThrown = .ok 0 ∧ ¬ spaced.Reproduced (spacedRun 3) ∧ (0 : ℚ) < 1 := by
  have h0 : spaced.Scored (spacedRun 0) (9 / 2) ∧ spaced.unmatched? (spacedRun 0) = some 4 :=
    spacedRun_stuck (spacedRun_arrives_outer 0)
      (show spaced.crash.frame? 4 = some ⟨"A", "a", 10⟩ by decide) (by decide) (by decide)
      (by decide) (by decide +kernel) (by norm_num)
  have h1 : spaced.Scored (spacedRun 1) (7 / 2) ∧ spaced.unmatched? (spacedRun 1) = some 3 :=
    spacedRun_stuck (spacedRun_arrives_middle (by decide))
      (show spaced.crash.frame? 3 = some ⟨"B", "b", 20⟩ by decide) (by decide) (by decide)
      (by decide) (by decide +kernel) (by norm_num)
  have h2 : spaced.Scored (spacedRun 2) (3 / 2) ∧ spaced.unmatched? (spacedRun 2) = some 1 :=
    spacedRun_stuck (spacedRun_arrives_inner (by decide))
      (show spaced.crash.frame? 1 = some ⟨"C", "c", 30⟩ by decide) (by decide) (by decide)
      (by decide) (by decide +kernel) (by norm_num)
  have h3 : spaced.Scored (spacedRun 3) 1 ∧ spaced.unmatched? (spacedRun 3) = none :=
    spacedRun_arrives.scored_of_matched (spacedRun_nonneg 3) rfl
  have hr : ¬ spaced.Reproduced (spacedRun 3) := by
    rintro (hs | ⟨-, hthrown⟩)
    · exact absurd hs (by decide)
    · exact absurd hthrown (by decide)
  obtain ⟨hband, horder, hzero⟩ := fitness_bands spaced_built spaced_owned
  refine ⟨spaced_built, spaced_owned, h0, h1, h2, h3, ((hband _ _ h1.1).2 3 h1.2).2, ?_, ?_,
    spacedThrown_fitness, hr, hzero _ _ _ _ spacedThrown_fitness rfl h3.1 hr⟩
  · exact horder _ _ _ _ h2.1 h1.1 3 h1.2 fun k hk => by
      obtain rfl := Option.some.inj (h2.2.symm.trans hk)
      decide
  · exact horder _ _ _ _ h3.1 h2.1 1 h2.2 fun k hk => nomatch h3.2.symm.trans hk

end Target

end CrashSearch
