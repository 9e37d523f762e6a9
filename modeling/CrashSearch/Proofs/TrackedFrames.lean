import CrashSearch.Proofs.Failures
import Mathlib.Data.List.Basic

/-!
# Levels that are not tracked

A crash with levels that are not tracked is walked like the crash that consists of the tracked
frames only: at the same frames the same results, with the same chains behind them. The levels that
are passed over shift the depth that is expected of a call, and the count of them shifts it back.

## Main definitions

* `StackTrace.onlyTracked?`: the trace of the tracked frames.
* `Target.outcomes`: what the walk finds at the tracked levels.
* `Target.Lockstep`: where the two walks are at the same time.

## Main statements

* `Target.Lockstep.outcomes_eq`: two walks in step find the same.
* `Target.outcomes_onlyTracked`: levels that are not tracked make no difference.
-/

namespace CrashSearch

namespace StackTrace

variable {c only : StackTrace} {n : Nat} {frame : Frame}

/-- Some level up to the target level is tracked. -/
def HasTracked (c : StackTrace) : Prop :=
  ∃ level : UInt64, 1 ≤ level.toNat ∧ level.toNat ≤ c.targetLevel.toNat ∧
    c.isIrrelevant level = false

/-- The tracked frames up to the target level as a trace of their own, tracked from its end. -/
def onlyTracked? (c : StackTrace) : Except Error StackTrace :=
  make? c.exceptionType (c.trackedAbove 0).reverse (.ofNat (c.trackedAbove 0).length)

theorem length_trackedAbove_le : (c.trackedAbove n).length ≤ c.targetLevel.toNat := by
  have hlevels : (c.trackedLevels n).length ≤ c.targetLevel.toNat - n := by
    unfold trackedLevels
    exact (List.length_filter_le _ _).trans (by simp)
  have hframes : (c.trackedAbove n).length ≤ (c.trackedLevels n).length :=
    List.length_filterMap_le _ _
  omega

theorem toNat_length_trackedAbove :
    (UInt64.ofNat (c.trackedAbove n).length).toNat = (c.trackedAbove n).length :=
  UInt64.toNat_ofNat_of_lt' (Nat.lt_of_le_of_lt length_trackedAbove_le c.targetLevel.toNat_lt)

theorem trackedAbove_prefix_of_le {m : Nat} (hnm : n ≤ m) (hm : m ≤ c.targetLevel.toNat) :
    c.trackedAbove m <+: c.trackedAbove n := by
  induction m, hnm using Nat.le_induction with
  | base => exact List.prefix_refl _
  | succ m _ ih =>
    have hstep := trackedAbove_prefix hm
    exact hstep.trans (ih (by omega))

theorem HasTracked.length_pos (h : c.HasTracked) : 0 < (c.trackedAbove 0).length := by
  obtain ⟨level, hlo, hhi, hi⟩ := h
  obtain ⟨n, hn⟩ : ∃ n, level.toNat = n + 1 := ⟨level.toNat - 1, by omega⟩
  obtain rfl : level = .ofNat (n + 1) := by rw [← hn, UInt64.ofNat_toNat]
  have hlt : n < c.targetLevel.toNat := by omega
  obtain ⟨frame, hf⟩ := exists_frame? hlt
  have hle := (trackedAbove_prefix_of_le (c := c) (Nat.zero_le n) (by omega)).length_le
  rw [trackedAbove_relevant hlt hf hi, List.length_append] at hle
  exact Nat.lt_of_lt_of_le (by simp) hle

theorem HasTracked.exists_onlyTracked? (h : c.HasTracked) : ∃ only, c.onlyTracked? = .ok only := by
  have hpos := h.length_pos
  have hlevel := toNat_length_trackedAbove (c := c) (n := 0)
  refine ⟨⟨c.exceptionType, (c.trackedAbove 0).reverse, .ofNat (c.trackedAbove 0).length, .empty,
    by omega, by simp [hlevel]⟩, make?_eq_ok_iff.2 ⟨?_, rfl, rfl, rfl, rfl⟩⟩
  exact ⟨by omega, by simp [hlevel]⟩

theorem targetLevel_onlyTracked? (h : c.onlyTracked? = .ok only) :
    only.targetLevel.toNat = (c.trackedAbove 0).length := by
  obtain ⟨-, -, -, hlevel, -⟩ := make?_eq_ok_iff.1 h
  rw [hlevel, toNat_length_trackedAbove]

theorem isIrrelevant_onlyTracked? (h : c.onlyTracked? = .ok only) (level : UInt64) :
    only.isIrrelevant level = false := by
  obtain ⟨-, -, -, -, hempty⟩ := make?_eq_ok_iff.1 h
  simp [isIrrelevant, hempty]

/-- The frame of the level below those that are done is the next tracked one. -/
theorem frame?_onlyTracked? {left : Nat} (h : c.onlyTracked? = .ok only)
    (hn : n < c.targetLevel.toNat) (hf : c.frame? (.ofNat (n + 1)) = some frame)
    (hi : c.isIrrelevant (.ofNat (n + 1)) = false)
    (hleft : left + 1 + (c.trackedAbove (n + 1)).length = (c.trackedAbove 0).length) :
    only.frame? (.ofNat (left + 1)) = some frame := by
  have hlt : left < only.targetLevel.toNat := by
    rw [targetLevel_onlyTracked? h]
    omega
  obtain ⟨-, -, hframes, -, -⟩ := make?_eq_ok_iff.1 h
  obtain ⟨below, hbelow⟩ := trackedAbove_prefix_of_le (c := c) (Nat.zero_le n) hn.le
  rw [trackedAbove_relevant hn hf hi] at hbelow
  have hlen : below.length = left := by
    have := congrArg List.length hbelow
    simp only [List.length_append, List.length_singleton] at this
    omega
  unfold frame?
  rw [toNat_level hlt, if_neg (Nat.succ_ne_zero left), hframes, ← hbelow]
  simp [← hlen]

end StackTrace

namespace Target

variable {R : Type} {t : Target} {e : Execution R} {s next : FrameState} {frame : Frame} {n : Nat}

/-- Matching a frame depends on the chains and on the depth expected, and not on the level that
implies it. -/
theorem matchFrame_congr (e : Execution R) (frame : Frame) {only : StackTrace} {s' : FrameState}
    {level level' : UInt64} (hc : s'.chains = s.chains)
    (hd : { t with crash := only }.depth s' level' = t.depth s level) :
    ({ t with crash := only }.matchFrame s' e frame level').2 = (t.matchFrame s e frame level).2 ∧
      ({ t with crash := only }.matchFrame s' e frame level').1.chains =
        (t.matchFrame s e frame level).1.chains := by
  unfold matchFrame
  rw [hc, hd]
  cases t.program.methodAtLine? frame.className frame.line with
  | none => exact ⟨rfl, rfl⟩
  | some method =>
    dsimp only
    rcases Chains.followAll method frame.line (t.depth s level) (s.chains, false) e.methodCalls
      with ⟨chains, _ | _⟩
    · exact ⟨rfl, rfl⟩
    · exact ⟨rfl, rfl⟩

theorem passed_matchFrame {level : UInt64} (h : (t.matchFrame s e frame level).2 = true) :
    (t.matchFrame s e frame level).1.passed = s.passed := by
  revert h
  unfold matchFrame
  cases t.program.methodAtLine? frame.className frame.line with
  | none => exact fun h => absurd h Bool.noConfusion
  | some method =>
    dsimp only
    rcases Chains.followAll method frame.line (t.depth s level) (s.chains, false) e.methodCalls
      with ⟨chains, _ | _⟩
    · exact fun h => absurd h Bool.noConfusion
    · exact fun _ => rfl

variable [Scale R]

theorem evaluateFrame_irrelevant {level : UInt64} (hf : t.crash.frame? level = some frame)
    (hi : t.crash.isIrrelevant level = true) :
    t.evaluateFrame s e level = ({ s with counter := s.counter + 1 }, .ok Scale.zero) := by
  simp [evaluateFrame, hf, hi]

theorem evaluateFrame_tracked {level : UInt64} (hf : t.crash.frame? level = some frame)
    (hi : t.crash.isIrrelevant level = false) :
    t.evaluateFrame s e level = ((t.matchFrame s e frame level).1,
      (t.lineGoals frame.className frame.line).map fun goals =>
        if (t.matchFrame s e frame level).2 then Scale.zero else Goal.least goals e) := by
  simp [evaluateFrame, hf, hi]

/-- Whether the walk goes on behind a result. -/
def goesOn : Except Error R → Bool
  | .ok distance => distance == Scale.zero
  | .error _ => false

/-- What evaluating the levels from `n` down gives at the tracked ones: the result, and the chains
behind it. The first result that is not the distance nothing is the last one. -/
def outcomes (t : Target) (e : Execution R) (s : FrameState) :
    Nat → List (Except Error R × Chains)
  | 0 => []
  | n + 1 =>
    let (next, result) := t.evaluateFrame s e (.ofNat (n + 1))
    let found := if t.crash.isIrrelevant (.ofNat (n + 1)) then [] else [(result, next.chains)]
    if goesOn result then found ++ t.outcomes e next n else found

variable [LawfulScale R]

theorem goesOn_zero : goesOn (.ok Scale.zero : Except Error R) = true :=
  LawfulScale.zero_beq_zero

/-- Nothing is found at a level that is passed over. -/
theorem outcomes_irrelevant (hf : t.crash.frame? (.ofNat (n + 1)) = some frame)
    (hi : t.crash.isIrrelevant (.ofNat (n + 1)) = true) :
    t.outcomes e s (n + 1) = t.outcomes e { s with counter := s.counter + 1 } n := by
  rw [outcomes, evaluateFrame_irrelevant hf hi]
  simp only [hi, goesOn_zero, if_true, List.nil_append]

/-- Where a frame is matched, no distance is found and the chains that its calls continue. -/
theorem outcomes_matched (hf : t.crash.frame? (.ofNat (n + 1)) = some frame)
    (hi : t.crash.isIrrelevant (.ofNat (n + 1)) = false)
    (hp : t.pass? e s (.ofNat (n + 1)) frame = some next)
    (hg : ∃ goals, t.lineGoals frame.className frame.line = .ok goals) :
    t.outcomes e s (n + 1) = (.ok Scale.zero, next.chains) :: t.outcomes e next n := by
  rw [outcomes, evaluateFrame_of_pass hf hp fun _ => hg]
  simp only [hi, goesOn_zero, if_true]
  rfl

/-- Behind a tracked level the walk goes on only if its frame was matched. -/
theorem matched_of_goesOn (he : e.Nonneg) {level : UInt64}
    (hf : t.crash.frame? level = some frame) (hi : t.crash.isIrrelevant level = false)
    (hgo : goesOn (t.evaluateFrame s e level).2 = true) :
    (t.matchFrame s e frame level).2 = true := by
  rw [evaluateFrame_tracked hf hi] at hgo
  by_contra hfound
  cases hg : t.lineGoals frame.className frame.line with
  | error error => simp [hg, Except.map, goesOn] at hgo
  | ok goals =>
    have hpos := LawfulScale.not_beq_of_pos (Goal.least_pos he goals)
    simp [hg, Except.map, goesOn, hfound, hpos] at hgo

/-! ## Two walks in step -/

/-- The walk over all levels is above level `n` in the state `s`, and at the same time the walk over
the tracked frames is above level `left` in the state `s'`. -/
structure Lockstep (t : Target) (n left : Nat) (s s' : FrameState) : Prop where
  chains : s'.chains = s.chains
  passed : s.passed + (t.crash.trackedAbove n).length + n = t.crash.targetLevel.toNat
  none_passed : s'.passed = 0
  left : left + (t.crash.trackedAbove n).length = (t.crash.trackedAbove 0).length

namespace Lockstep

variable {only : StackTrace} {left : Nat} {s' : FrameState}

omit [Scale R] [LawfulScale R] in
theorem top : t.Lockstep t.crash.targetLevel.toNat (t.crash.trackedAbove 0).length .initial
    .initial where
  chains := rfl
  passed := by simp [StackTrace.trackedAbove_top]
  none_passed := rfl
  left := by simp [StackTrace.trackedAbove_top]

theorem lt (h : t.Lockstep (n + 1) left s s') : n < t.crash.targetLevel.toNat := by
  have := h.passed
  omega

/-- Passing over a level leaves the other walk where it is. -/
theorem pass_over (h : t.Lockstep (n + 1) left s s')
    (hi : t.crash.isIrrelevant (.ofNat (n + 1)) = true) :
    t.Lockstep n left { s with counter := s.counter + 1 } s' := by
  have hframes := StackTrace.trackedAbove_irrelevant h.lt hi
  have hpassed := h.passed
  have hlevel := t.crash.targetLevel.toNat_lt_size
  refine ⟨h.chains, ?_, h.none_passed, hframes ▸ h.left⟩
  rw [hframes, FrameState.passed_count_of_lt (by omega)]
  omega

/-- A tracked level has a level of its own in the other walk. -/
theorem exists_left (h : t.Lockstep (n + 1) left s s')
    (hf : t.crash.frame? (.ofNat (n + 1)) = some frame)
    (hi : t.crash.isIrrelevant (.ofNat (n + 1)) = false) :
    ∃ below, left = below + 1 ∧ below + (t.crash.trackedAbove n).length =
      (t.crash.trackedAbove 0).length := by
  have hframes := StackTrace.trackedAbove_relevant h.lt hf hi
  have hbelow := StackTrace.trackedAbove_prefix_of_le (c := t.crash) (Nat.zero_le n) h.lt.le
  have hle := hbelow.length_le
  have hleft := h.left
  rw [hframes, List.length_append, List.length_singleton] at hle ⊢
  exact ⟨left - 1, by omega, by omega⟩

/-- The levels that were passed over count in one walk what the levels that are missing count in
the other. -/
theorem depth_eq (h : t.Lockstep (n + 1) (left + 1) s s')
    (hc : t.crash.onlyTracked? = .ok only) :
    { t with crash := only }.depth s' (.ofNat (left + 1)) = t.depth s (.ofNat (n + 1)) := by
  have hpassed := h.passed
  have hleft := h.left
  have hlevel := StackTrace.targetLevel_onlyTracked? hc
  have hlt : left < only.targetLevel.toNat := by omega
  rw [depth_eq_bmod, depth_eq_bmod, StackTrace.toNat_level h.lt, StackTrace.toNat_level hlt,
    h.none_passed]
  congr 1
  dsimp only
  omega

/-- At a tracked level both walks find the same, and if they go on they are still in step. -/
theorem step (h : t.Lockstep (n + 1) (left + 1) s s') (he : e.Nonneg)
    (hc : t.crash.onlyTracked? = .ok only)
    (hf : t.crash.frame? (.ofNat (n + 1)) = some frame)
    (hi : t.crash.isIrrelevant (.ofNat (n + 1)) = false)
    (hleft : left + (t.crash.trackedAbove n).length = (t.crash.trackedAbove 0).length) :
    ({ t with crash := only }.evaluateFrame s' e (.ofNat (left + 1))).2 =
        (t.evaluateFrame s e (.ofNat (n + 1))).2 ∧
      ({ t with crash := only }.evaluateFrame s' e (.ofNat (left + 1))).1.chains =
        (t.evaluateFrame s e (.ofNat (n + 1))).1.chains ∧
      (goesOn (t.evaluateFrame s e (.ofNat (n + 1))).2 = true →
        t.Lockstep n left (t.evaluateFrame s e (.ofNat (n + 1))).1
          ({ t with crash := only }.evaluateFrame s' e (.ofNat (left + 1))).1) := by
  have hf' := StackTrace.frame?_onlyTracked? hc h.lt hf hi h.left
  have hi' := StackTrace.isIrrelevant_onlyTracked? hc (.ofNat (left + 1))
  obtain ⟨hfound, hchains⟩ := matchFrame_congr e frame h.chains (h.depth_eq hc)
  have hev := evaluateFrame_tracked (s := s) (e := e) hf hi
  have hev' := evaluateFrame_tracked (t := { t with crash := only }) (s := s') (e := e) hf' hi'
  refine ⟨?result, ?chains, ?next⟩
  case result =>
    rw [hev, hev', hfound]
    rfl
  case chains =>
    rw [hev, hev']
    exact hchains
  case next =>
    intro hgo
    have hmatched := matched_of_goesOn he hf hi hgo
    have hpassed := h.passed
    have hframes := StackTrace.trackedAbove_relevant h.lt hf hi
    rw [hev, hev']
    refine ⟨hchains, ?_, ?_, hleft⟩
    · dsimp only
      rw [passed_matchFrame hmatched, hframes, List.length_append, List.length_singleton]
      omega
    · exact (passed_matchFrame (hfound.trans hmatched)).trans h.none_passed

/-- Two walks in step find the same at the tracked levels. -/
theorem outcomes_eq (h : t.Lockstep n left s s') (he : e.Nonneg)
    (hc : t.crash.onlyTracked? = .ok only) :
    t.outcomes e s n = { t with crash := only }.outcomes e s' left := by
  -- The induction is over the longer walk; the shorter one stands still at a level passed over.
  induction n generalizing left s s' with
  | zero =>
    obtain rfl : left = 0 := by
      have := h.left
      omega
    rfl
  | succ n ih =>
    obtain ⟨frame, hf⟩ := StackTrace.exists_frame? h.lt
    cases hi : t.crash.isIrrelevant (.ofNat (n + 1)) with
    | true =>
      rw [outcomes_irrelevant hf hi]
      exact ih (h.pass_over hi)
    | false =>
      obtain ⟨below, rfl, hleft⟩ := h.exists_left hf hi
      have hi' := StackTrace.isIrrelevant_onlyTracked? hc (.ofNat (below + 1))
      obtain ⟨hresult, hchains, hnext⟩ := h.step he hc hf hi hleft
      rw [outcomes, outcomes]
      simp only [hi, hi', hresult, hchains]
      cases hgo : goesOn (t.evaluateFrame s e (.ofNat (n + 1))).2 with
      | false => rfl
      | true => simp only [if_true, ih (hnext hgo)]

end Lockstep

/-! ## A crash with levels that are not tracked -/

/-- The nested crash with a frame in between and one above that are not tracked. -/
def spaced : Target :=
  { nested with crash :=
    ⟨"E", [⟨"C", "c", 30⟩, ⟨"X", "x", 5⟩, ⟨"B", "b", 20⟩, ⟨"A", "a", 10⟩, ⟨"Y", "y", 6⟩], 5,
      .ofList [2, 5], by decide, by decide⟩ }

theorem spaced_onlyTracked? : spaced.crash.onlyTracked? = .ok nested.crash := by
  refine StackTrace.make?_eq_ok_iff.2 ⟨by decide, rfl, ?_, by decide, rfl⟩
  decide

omit [Scale R] [LawfulScale R] in
theorem spaced_pass? {level : UInt64} {chains : Chains}
    (hm : frame ∈ nested.crash.trackedAbove 0) (hi : spaced.crash.isIrrelevant level = false)
    (hc : Chains.followAll frame.methodName frame.line (spaced.depth s level) (s.chains, false)
      e.methodCalls = (chains, true)) :
    spaced.pass? e s level frame = some { s with chains := chains } :=
  pass?_of_follow hi (nested_method frame hm) hc

/-- The calls follow one another at the tracked levels, whatever was passed over before. -/
theorem spaced_found : spaced.outcomes (nestedRun [3, 2]) .initial 5 =
    [(.ok Scale.zero, ⟨[[1]]⟩), (.ok Scale.zero, ⟨[[1, 3]]⟩), (.ok Scale.zero, ⟨[[1, 3, 4]]⟩)] := by
  have hmatched {s : FrameState} {n : Nat} {frame : Frame} {chains : Chains}
      (hf : spaced.crash.frame? (.ofNat (n + 1)) = some frame)
      (hm : frame ∈ nested.crash.trackedAbove 0)
      (hi : spaced.crash.isIrrelevant (.ofNat (n + 1)) = false)
      (hc : Chains.followAll frame.methodName frame.line (spaced.depth s (.ofNat (n + 1)))
        (s.chains, false) (nestedRun [3, 2]).methodCalls = (chains, true)) :
      spaced.outcomes (nestedRun [3, 2]) s (n + 1) = (.ok Scale.zero, chains) ::
        spaced.outcomes (nestedRun [3, 2]) { s with chains := chains } n :=
    outcomes_matched hf hi (spaced_pass? hm hi hc) (nested_goals frame hm)
  have htop : spaced.outcomes (nestedRun [3, 2]) .initial 5 =
      spaced.outcomes (nestedRun [3, 2]) ⟨.empty, 1⟩ 4 :=
    outcomes_irrelevant (show spaced.crash.frame? 5 = some ⟨"Y", "y", 6⟩ by decide) (by decide)
  have houter : spaced.outcomes (nestedRun [3, 2]) ⟨.empty, 1⟩ 4 =
      (.ok Scale.zero, ⟨[[1]]⟩) :: spaced.outcomes (nestedRun [3, 2]) ⟨⟨[[1]]⟩, 1⟩ 3 :=
    hmatched (show spaced.crash.frame? 4 = some ⟨"A", "a", 10⟩ by decide) (by decide) (by decide)
      (by decide)
  have hmiddle : spaced.outcomes (nestedRun [3, 2]) ⟨⟨[[1]]⟩, 1⟩ 3 =
      (.ok Scale.zero, ⟨[[1, 3]]⟩) :: spaced.outcomes (nestedRun [3, 2]) ⟨⟨[[1, 3]]⟩, 1⟩ 2 :=
    hmatched (show spaced.crash.frame? 3 = some ⟨"B", "b", 20⟩ by decide) (by decide) (by decide)
      (by decide)
  have hbetween : spaced.outcomes (nestedRun [3, 2]) ⟨⟨[[1, 3]]⟩, 1⟩ 2 =
      spaced.outcomes (nestedRun [3, 2]) ⟨⟨[[1, 3]]⟩, 2⟩ 1 :=
    outcomes_irrelevant (show spaced.crash.frame? 2 = some ⟨"X", "x", 5⟩ by decide) (by decide)
  have hinner : spaced.outcomes (nestedRun [3, 2]) ⟨⟨[[1, 3]]⟩, 2⟩ 1 =
      [(.ok Scale.zero, ⟨[[1, 3, 4]]⟩)] :=
    hmatched (show spaced.crash.frame? 1 = some ⟨"C", "c", 30⟩ by decide) (by decide) (by decide)
      (by decide)
  rw [htop, houter, hmiddle, hbetween, hinner]

/-- Levels that are not tracked make no difference to what is found at the others: from the initial
state the crash of the tracked frames alone gives the same results, and the same chains behind each
of them. -/
theorem outcomes_onlyTracked (he : e.Nonneg) (h : t.crash.HasTracked) :
    ∃ only, t.crash.onlyTracked? = .ok only ∧
      t.outcomes e .initial t.crash.targetLevel.toNat =
        { t with crash := only }.outcomes e .initial only.targetLevel.toNat := by
  obtain ⟨only, hc⟩ := h.exists_onlyTracked?
  refine ⟨only, hc, ?_⟩
  rw [StackTrace.targetLevel_onlyTracked? hc]
  exact Lockstep.top.outcomes_eq he hc

/-- Both walks find a chain of one call more at each of the three tracked levels. -/
theorem spaced_outcomes :
    (nestedRun [3, 2]).Nonneg ∧ spaced.crash.HasTracked ∧
      spaced.crash.onlyTracked? = .ok nested.crash ∧
      spaced.outcomes (nestedRun [3, 2]) .initial 5 =
        nested.outcomes (nestedRun [3, 2]) .initial 3 ∧
      nested.outcomes (nestedRun [3, 2]) .initial 3 =
        [(.ok Scale.zero, ⟨[[1]]⟩), (.ok Scale.zero, ⟨[[1, 3]]⟩),
          (.ok Scale.zero, ⟨[[1, 3, 4]]⟩)] := by
  have h : spaced.crash.HasTracked := ⟨1, by decide, by decide, by decide⟩
  obtain ⟨only, hc, hout⟩ := outcomes_onlyTracked (nestedRun_nonneg [3, 2]) h
  obtain rfl : nested.crash = only := Except.ok.inj (spaced_onlyTracked?.symm.trans hc)
  exact ⟨nestedRun_nonneg _, h, hc, hout, hout ▸ spaced_found⟩

end Target

end CrashSearch
