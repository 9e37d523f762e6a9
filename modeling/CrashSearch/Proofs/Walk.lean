import CrashSearch.Fitness.Crash
import CrashSearch.Proofs.LawfulScale

/-!
# The walk over the frames of a crash

The frames are evaluated from the target level down. A level is passed if it is not tracked or if
its frame was matched; only then can its distance be nothing.

## Main definitions

* `StackTrace.trackedAbove`: the tracked frames above a level, from the target level down.
* `Target.pass?`: the state behind a level that is passed.
* `Target.Arrives`: all levels above a level have the distance nothing.

## Main statements

* `Target.evaluateFrame_eq`: the distance of a level, by whether it is passed.
* `Target.pass?_of_zero`: a level with the distance nothing is passed.
* `Target.depth_eq_bmod`: the depth expected at a level, as a number.
-/

namespace CrashSearch

namespace StackTrace

variable {c : StackTrace} {n : Nat} {frame : Frame}

/-- The levels above `n` that are tracked, from the target level down. -/
def trackedLevels (c : StackTrace) (n : Nat) : List UInt64 :=
  ((List.range' (n + 1) (c.targetLevel.toNat - n)).reverse.map UInt64.ofNat).filter
    (!c.isIrrelevant ·)

/-- The frames of the tracked levels above `n`, from the target level down. -/
def trackedAbove (c : StackTrace) (n : Nat) : List Frame :=
  (c.trackedLevels n).filterMap c.frame?

theorem toNat_level (hn : n < c.targetLevel.toNat) : (UInt64.ofNat (n + 1)).toNat = n + 1 :=
  UInt64.toNat_ofNat_of_lt' (Nat.lt_of_le_of_lt hn c.targetLevel.toNat_lt)

theorem exists_frame? (hn : n < c.targetLevel.toNat) :
    ∃ frame, c.frame? (.ofNat (n + 1)) = some frame := by
  have hl : n < c.frames.length := Nat.lt_of_lt_of_le hn c.targetLevel_le
  refine ⟨c.frames[n], ?_⟩
  unfold frame?
  rw [toNat_level hn, if_neg (Nat.succ_ne_zero n)]
  exact List.getElem?_eq_getElem hl

theorem trackedLevels_succ (hn : n < c.targetLevel.toNat) :
    c.trackedLevels n = c.trackedLevels (n + 1) ++
      [UInt64.ofNat (n + 1)].filter (!c.isIrrelevant ·) := by
  obtain ⟨k, hk⟩ : ∃ k, c.targetLevel.toNat - n = k + 1 := ⟨c.targetLevel.toNat - n - 1, by omega⟩
  have hk' : c.targetLevel.toNat - (n + 1) = k := by omega
  simp only [trackedLevels, hk, hk', List.range'_succ, List.reverse_cons, List.map_append,
    List.filter_append, List.map_singleton]

theorem trackedAbove_top : c.trackedAbove c.targetLevel.toNat = [] := by
  simp [trackedAbove, trackedLevels]

theorem trackedAbove_irrelevant (hn : n < c.targetLevel.toNat)
    (hi : c.isIrrelevant (.ofNat (n + 1)) = true) : c.trackedAbove n = c.trackedAbove (n + 1) := by
  rw [trackedAbove, trackedLevels_succ hn, List.filter_cons_of_neg (by rw [hi]; decide)]
  simp [trackedAbove]

theorem trackedAbove_relevant (hn : n < c.targetLevel.toNat)
    (hf : c.frame? (.ofNat (n + 1)) = some frame)
    (hi : c.isIrrelevant (.ofNat (n + 1)) = false) :
    c.trackedAbove n = c.trackedAbove (n + 1) ++ [frame] := by
  rw [trackedAbove, trackedLevels_succ hn, List.filter_cons_of_pos (by rw [hi]; decide),
    List.filterMap_append, List.filter_nil, List.filterMap_cons_some hf]
  rfl

theorem mem_trackedAbove {level : UInt64} (hlo : n < level.toNat)
    (hhi : level.toNat ≤ c.targetLevel.toNat) (hf : c.frame? level = some frame)
    (hi : c.isIrrelevant level = false) : frame ∈ c.trackedAbove n := by
  refine List.mem_filterMap.2 ⟨level, List.mem_filter.2 ⟨List.mem_map.2 ⟨level.toNat, ?_, ?_⟩, ?_⟩,
    hf⟩
  · rw [List.mem_reverse, List.mem_range'_1]
    omega
  · exact UInt64.ofNat_toNat
  · simp [hi]

theorem trackedAbove_prefix (hn : n < c.targetLevel.toNat) :
    c.trackedAbove (n + 1) <+: c.trackedAbove n := by
  cases hi : c.isIrrelevant (.ofNat (n + 1)) with
  | true => exact trackedAbove_irrelevant hn hi ▸ List.prefix_refl _
  | false =>
    obtain ⟨frame, hf⟩ := exists_frame? hn
    exact trackedAbove_relevant hn hf hi ▸ List.prefix_append _ _

end StackTrace

namespace Target

variable {R : Type} {t : Target} {e : Execution R} {s next : FrameState} {level : UInt64}
  {frame : Frame} {n : Nat}

theorem toInt_toInt64 (word : UInt64) :
    word.toInt64.toInt = (word.toNat : Int).bmod UInt64.size :=
  BitVec.toInt_eq_toNat_bmod word.toBitVec

/-- The depth is the exact one up to the size of a machine word. -/
theorem depth_eq_bmod (t : Target) (s : FrameState) (level : UInt64) :
    t.depth s level =
      ((t.crash.targetLevel.toNat : Int) - level.toNat + 1 - s.passed).bmod UInt64.size := by
  have hsize : 2 ^ 64 = UInt64.size := rfl
  simp only [depth, FrameState.passed, Int64.toInt_sub, Int64.toInt_add, Int64.toInt_one,
    toInt_toInt64, hsize, Int.bmod_sub_bmod, Int.sub_bmod_bmod, Int.bmod_add_bmod]

/-- The state behind a level that is not tracked or whose frame was matched. -/
def pass? (t : Target) (e : Execution R) (s : FrameState) (level : UInt64) (frame : Frame) :
    Option FrameState :=
  if t.crash.isIrrelevant level then some { s with counter := s.counter + 1 }
  else
    match t.matchFrame s e frame level with
    | (next, true) => some next
    | (_, false) => none

theorem matchFrame_of_false (h : (t.matchFrame s e frame level).2 = false) :
    t.matchFrame s e frame level = (.initial, false) := by
  revert h
  unfold matchFrame
  split
  · exact fun _ => rfl
  · split
    · exact fun h => absurd h Bool.noConfusion
    · exact fun _ => rfl

/-- All that passing a level can do. -/
theorem pass?_cases (hp : t.pass? e s level frame = some next) :
    (t.crash.isIrrelevant level = true ∧ next = { s with counter := s.counter + 1 }) ∨
      (t.crash.isIrrelevant level = false ∧ ∃ method chains,
        t.program.methodAtLine? frame.className frame.line = some method ∧
        Chains.followAll method frame.line (t.depth s level) (s.chains, false) e.methodCalls =
          (chains, true) ∧
        next = { s with chains := chains }) := by
  unfold pass? at hp
  cases hi : t.crash.isIrrelevant level with
  | true =>
    rw [if_pos hi] at hp
    exact .inl ⟨rfl, (Option.some.inj hp).symm⟩
  | false =>
    rw [if_neg (by rw [hi]; exact Bool.noConfusion)] at hp
    refine .inr ⟨rfl, ?_⟩
    unfold matchFrame at hp
    split at hp
    · rename_i next' hm
      obtain rfl : next' = next := Option.some.inj hp
      split at hm
      · cases hm
      · rename_i method hmethod
        split at hm
        · rename_i chains hc
          exact ⟨method, chains, hmethod, hc, (congrArg Prod.fst hm).symm⟩
        · cases hm
    · cases hp

theorem pass?_of_follow {method : String} {chains : Chains}
    (hi : t.crash.isIrrelevant level = false)
    (hm : t.program.methodAtLine? frame.className frame.line = some method)
    (hc : Chains.followAll method frame.line (t.depth s level) (s.chains, false) e.methodCalls =
      (chains, true)) :
    t.pass? e s level frame = some { s with chains := chains } := by
  simp [pass?, matchFrame, hi, hm, hc]

theorem pass?_eq_none_of_follow {method : String}
    (hi : t.crash.isIrrelevant level = false)
    (hm : t.program.methodAtLine? frame.className frame.line = some method)
    (hc : (Chains.followAll method frame.line (t.depth s level) (s.chains, false)
      e.methodCalls).2 = false) : t.pass? e s level frame = none := by
  rcases hf : Chains.followAll method frame.line (t.depth s level) (s.chains, false) e.methodCalls
    with ⟨chains, _ | _⟩
  · simp [pass?, matchFrame, hi, hm, hf]
  · simp [hf] at hc

theorem pass?_of_irrelevant (hi : t.crash.isIrrelevant level = true) :
    t.pass? e s level frame = some { s with counter := s.counter + 1 } := if_pos hi

variable [Scale R]

/-- What a level counts: nothing if it is passed, though the goals of a tracked line are looked up
all the same, and otherwise the distance from the nearest goal. -/
theorem evaluateFrame_eq (hf : t.crash.frame? level = some frame) :
    t.evaluateFrame s e level =
      match t.pass? e s level frame with
      | some next => (next, if t.crash.isIrrelevant level then .ok Scale.zero
          else (t.lineGoals frame.className frame.line).map fun _ => Scale.zero)
      | none => (.initial, (t.lineGoals frame.className frame.line).map (Goal.least · e)) := by
  unfold evaluateFrame pass?
  cases hi : t.crash.isIrrelevant level with
  | true => simp [hf]
  | false =>
    rcases hm : t.matchFrame s e frame level with ⟨next, found⟩
    cases found with
    | true => simp [hf, hm]
    | false =>
      have := matchFrame_of_false (congrArg Prod.snd hm)
      simp_all

/-- A level that is passed counts nothing, unless the goals of its line are missing. -/
theorem evaluateFrame_of_pass (hf : t.crash.frame? level = some frame)
    (hp : t.pass? e s level frame = some next)
    (hg : t.crash.isIrrelevant level = false →
      ∃ goals, t.lineGoals frame.className frame.line = .ok goals) :
    t.evaluateFrame s e level = (next, .ok Scale.zero) := by
  rw [evaluateFrame_eq hf, hp]
  cases hi : t.crash.isIrrelevant level with
  | true => rfl
  | false =>
    obtain ⟨goals, hg⟩ := hg hi
    simp [hg, Except.map]

/-- Some state is reached with the distance nothing at every level above `n`. -/
inductive Arrives (t : Target) (e : Execution R) : Nat → FrameState → Prop
  | top : Arrives t e t.crash.targetLevel.toNat .initial
  | step {n s next d} : Arrives t e (n + 1) s →
      t.evaluateFrame s e (.ofNat (n + 1)) = (next, .ok d) → (d == Scale.zero) = true →
      Arrives t e n next

theorem Arrives.pass [LawfulScale R] (h : t.Arrives e (n + 1) s)
    (hf : t.crash.frame? (.ofNat (n + 1)) = some frame)
    (hp : t.pass? e s (.ofNat (n + 1)) frame = some next)
    (hg : t.crash.isIrrelevant (.ofNat (n + 1)) = false →
      ∃ goals, t.lineGoals frame.className frame.line = .ok goals) : t.Arrives e n next :=
  h.step (evaluateFrame_of_pass hf hp hg) LawfulScale.zero_beq_zero

theorem Arrives.le (h : t.Arrives e n s) : n ≤ t.crash.targetLevel.toNat := by
  induction h with
  | top => exact Nat.le_refl _
  | step _ _ _ ih => exact Nat.le_of_succ_le ih

/-- A level that is not passed is some distance away. -/
theorem pass?_of_zero [LawfulScale R] (he : e.Nonneg) {d : R}
    (hf : t.crash.frame? level = some frame)
    (hv : t.evaluateFrame s e level = (next, .ok d)) (hd : (d == Scale.zero) = true) :
    t.pass? e s level frame = some next := by
  rw [evaluateFrame_eq hf] at hv
  cases hp : t.pass? e s level frame with
  | some next' =>
    simp only [hp] at hv
    exact congrArg some (congrArg Prod.fst hv)
  | none =>
    simp only [hp] at hv
    obtain ⟨-, hv⟩ := Prod.mk.inj hv
    cases hg : t.lineGoals frame.className frame.line with
    | error error =>
      rw [hg] at hv
      cases hv
    | ok goals =>
      rw [hg] at hv
      cases hv
      have := LawfulScale.not_beq_of_pos (Goal.least_pos he goals)
      exact absurd hd (by rw [this]; exact Bool.noConfusion)

/-- The walk goes on behind a level that is passed. -/
theorem walk_of_pass [LawfulScale R] {v : R} (hf : t.crash.frame? (.ofNat (n + 1)) = some frame)
    (hp : t.pass? e s (.ofNat (n + 1)) frame = some next) (hw : t.walk e s (n + 1) = .ok v) :
    t.walk e next n = .ok v := by
  rw [walk, evaluateFrame_eq hf, hp] at hw
  dsimp only at hw
  split at hw
  · cases hw
  · rename_i next' d hv
    obtain ⟨rfl, hd⟩ := Prod.mk.inj hv
    have hzero : (d == Scale.zero) = true := by
      split at hd
      · cases hd
        exact LawfulScale.zero_beq_zero
      · cases hg : t.lineGoals frame.className frame.line with
        | error error => simp [hg, Except.map] at hd
        | ok goals =>
          rw [hg] at hd
          cases hd
          exact LawfulScale.zero_beq_zero
    rw [if_pos hzero] at hw
    exact hw

/-- The walk ends at a level that is not passed. -/
theorem walk_of_stuck [LawfulScale R] (he : e.Nonneg) {v : R}
    (hf : t.crash.frame? (.ofNat (n + 1)) = some frame)
    (hp : t.pass? e s (.ofNat (n + 1)) frame = none) (hw : t.walk e s (n + 1) = .ok v) :
    ∃ goals, t.lineGoals frame.className frame.line = .ok goals ∧
      v = addUnits (Goal.least goals e) n := by
  rw [walk, evaluateFrame_eq hf, hp] at hw
  dsimp only at hw
  cases hg : t.lineGoals frame.className frame.line with
  | error error => simp [hg, Except.map] at hw
  | ok goals =>
    have hd := LawfulScale.not_beq_of_pos (Goal.least_pos he goals)
    refine ⟨goals, rfl, ?_⟩
    simpa [hg, Except.map, hd] using hw.symm

end Target

end CrashSearch
