import CrashSearch.Proofs.CallChains
import CrashSearch.Proofs.FloatScale
import CrashSearch.Proofs.Walk

/-!
# Progress and the calls behind it

A level is passed at the depth that the tracked frames before it imply, so the chains carried from
level to level are paths of the call tree, and progress is never a coincidence.

## Main definitions

* `Target.Tracked`: what the state holds of the levels that were passed.

## Main statements

* `Target.Arrives.exists_threads`: behind the levels that count nothing stand calls that made one
  another.
* `Target.arrives_iff_leads`: which calls bring the walk to a level.
-/

namespace CrashSearch

namespace Target

variable {R : Type} {t : Target} {e : Execution R} {s next : FrameState} {frame : Frame} {n : Nat}

/-- The state `s` holds what the levels above `n` left: each was either not tracked or gave the
chains one call more. -/
structure Tracked (t : Target) (e : Execution R) (n : Nat) (s : FrameState) : Prop where
  passed : s.passed + (t.crash.trackedAbove n).length + n = t.crash.targetLevel.toNat
  pool : ChainPool t.program e.methodCalls (t.crash.trackedAbove n) s.chains
  led : ∃ records, Leads t.program e.methodCalls (t.crash.trackedAbove n) records

namespace Tracked

theorem top : t.Tracked e t.crash.targetLevel.toNat .initial where
  passed := by simp [StackTrace.trackedAbove_top]
  pool := StackTrace.trackedAbove_top ▸ .empty
  led := ⟨[], StackTrace.trackedAbove_top ▸ .nil⟩

theorem lt (h : t.Tracked e (n + 1) s) : n < t.crash.targetLevel.toNat := by
  have := h.passed
  omega

/-- Levels that are not tracked shift the depth, so a scan looks for the depth that counts the
tracked frames only. -/
theorem followAll_depth (h : t.Tracked e (n + 1) s) (method : String) (line : UInt32)
    (state : Chains × Bool) :
    Chains.followAll method line (t.depth s (.ofNat (n + 1))) state e.methodCalls =
      Chains.followAll method line ((t.crash.trackedAbove (n + 1)).length + 1 : Nat) state
        e.methodCalls := by
  have hpassed := h.passed
  have hlevel := t.crash.targetLevel.toNat_lt_size
  have hexact : (t.crash.targetLevel.toNat : Int) - (n + 1 : Nat) + 1 - s.passed =
      ((t.crash.trackedAbove (n + 1)).length + 1 : Nat) := by
    omega
  rw [depth_eq_bmod, StackTrace.toNat_level h.lt, hexact, Chains.followAll_bmod (by omega)]

theorem pass (h : t.Tracked e (n + 1) s) (tree : IsCallTree e.methodCalls)
    (hf : t.crash.frame? (.ofNat (n + 1)) = some frame)
    (hp : t.pass? e s (.ofNat (n + 1)) frame = some next) : t.Tracked e n next := by
  have hpassed := h.passed
  have hlevel := t.crash.targetLevel.toNat_lt_size
  rcases pass?_cases hp with ⟨hi, rfl⟩ | ⟨hi, method, chains, hm, hc, rfl⟩
  · have hframes := StackTrace.trackedAbove_irrelevant h.lt hi
    refine ⟨?_, hframes ▸ h.pool, hframes ▸ h.led⟩
    rw [hframes, FrameState.passed_count_of_lt (by omega)]
    omega
  · have hframes := StackTrace.trackedAbove_relevant h.lt hf hi
    rw [h.followAll_depth] at hc
    obtain ⟨hpool, hfound⟩ := h.pool.follow tree hm hc
    refine ⟨?_, hframes ▸ hpool, hframes ▸ hfound.1 rfl⟩
    rw [hframes, List.length_append, List.length_singleton]
    simp only [FrameState.passed] at hpassed ⊢
    omega

/-- Where records lead on, the level is passed. -/
theorem exists_pass (h : t.Tracked e (n + 1) s) (tree : IsCallTree e.methodCalls)
    (hf : t.crash.frame? (.ofNat (n + 1)) = some frame)
    (hl : ∃ records, Leads t.program e.methodCalls (t.crash.trackedAbove n) records) :
    ∃ next, t.pass? e s (.ofNat (n + 1)) frame = some next := by
  cases hi : t.crash.isIrrelevant (.ofNat (n + 1)) with
  | true => exact ⟨_, pass?_of_irrelevant hi⟩
  | false =>
    rw [StackTrace.trackedAbove_relevant h.lt hf hi] at hl
    obtain ⟨records, hr⟩ := hl
    obtain ⟨_, r, -, -, hc, -⟩ := hr.concat
    rcases hfollow : Chains.followAll r.methodName frame.line
      ((t.crash.trackedAbove (n + 1)).length + 1 : Nat) (s.chains, false) e.methodCalls with
      ⟨chains, found⟩
    obtain ⟨-, hfound⟩ := h.pool.follow tree hc.method hfollow
    obtain rfl : found = true := hfound.2 ⟨records, hr⟩
    exact ⟨_, pass?_of_follow hi hc.method ((h.followAll_depth ..).trans hfollow)⟩

end Tracked

variable [Scale R]

/-- What a run of the walk keeps. -/
theorem Arrives.tracked [LawfulScale R] (h : t.Arrives e n s) (he : e.Nonneg)
    (tree : IsCallTree e.methodCalls) : t.Tracked e n s := by
  induction h with
  | top => exact .top
  | step _ hv hd ih =>
    obtain ⟨frame, hf⟩ := StackTrace.exists_frame? ih.lt
    exact ih.pass tree hf (pass?_of_zero he hf hv hd)

/-- Records that lead through the tracked frames bring the walk to the level below them, if their
lines have goals to look up. -/
theorem exists_tracked_of_leads [LawfulScale R] (tree : IsCallTree e.methodCalls) (k : Nat)
    (hk : n + k = t.crash.targetLevel.toNat)
    (hg : ∀ frame ∈ t.crash.trackedAbove n,
      ∃ goals, t.lineGoals frame.className frame.line = .ok goals)
    (hl : ∃ records, Leads t.program e.methodCalls (t.crash.trackedAbove n) records) :
    ∃ s, t.Arrives e n s ∧ t.Tracked e n s := by
  induction k generalizing n with
  | zero =>
    obtain rfl : n = t.crash.targetLevel.toNat := hk
    exact ⟨.initial, .top, .top⟩
  | succ k ih =>
    have hn : n < t.crash.targetLevel.toNat := by omega
    -- The records that lead to the level above are those of the frames above.
    have houter := StackTrace.trackedAbove_prefix hn
    obtain ⟨records, hr⟩ := hl
    obtain ⟨s, ha, hs⟩ := ih (by omega) (fun frame hf => hg frame (houter.subset hf))
      (hr.outer houter)
    obtain ⟨frame, hf⟩ := StackTrace.exists_frame? hn
    obtain ⟨next, hp⟩ := hs.exists_pass tree hf ⟨records, hr⟩
    refine ⟨next, ha.pass hf hp fun hi => hg frame ?_, hs.pass tree hf hp⟩
    rw [StackTrace.trackedAbove_relevant hn hf hi]
    exact List.mem_append_right _ List.mem_cons_self

/-! ## A crash below two calls of one method -/

def nested : Target where
  crash := ⟨"E", [⟨"C", "c", 30⟩, ⟨"B", "b", 20⟩, ⟨"A", "a", 10⟩], 3, .empty, by decide, by decide⟩
  program := [("A", "a", 10), ("B", "b", 20), ("C", "c", 30)].foldl
    (fun p m => (p.insertGraph (.make m.1 m.2.1 [⟨0, some m.2.2, .plain⟩])).markRoot
      ⟨m.1, m.2.1, 0⟩) .empty
  session := .default

def outerCall : CallRecord := ⟨1, 0, 1, "A", "a", .ofList [10]⟩

def middleCall (id : UInt64) : CallRecord := ⟨id, 1, 2, "B", "b", .ofList [20]⟩

def innerCall : CallRecord := ⟨4, 3, 3, "C", "c", .ofList [30]⟩

/-- The outer method calls the middle one once for each id, and the call with the id 3 leads on. -/
def nestedRun (ids : List UInt64) : Execution Float :=
  { Execution.empty with methodCalls := outerCall :: ids.map middleCall ++ [innerCall] }

theorem nested_frames :
    nested.crash.trackedAbove 0 = [⟨"A", "a", 10⟩, ⟨"B", "b", 20⟩, ⟨"C", "c", 30⟩] := by
  decide

theorem nested_method : ∀ frame ∈ nested.crash.trackedAbove 0,
    nested.program.methodAtLine? frame.className frame.line = some frame.methodName := by
  have hall : ∀ frame ∈ nested.crash.trackedAbove 0,
      nested.program.methodsAtLine frame.className frame.line = [frame.methodName] := by
    decide
  intro frame hf
  rw [Program.methodAtLine?, hall frame hf, List.mergeSort_singleton]
  rfl

theorem nested_lineGoals : ∀ frame ∈ nested.crash.trackedAbove 0,
    nested.lineGoals frame.className frame.line =
      .ok [.root frame.className frame.methodName] := by
  have hall : ∀ frame ∈ nested.crash.trackedAbove 0,
      nested.program.goals frame.className frame.methodName frame.line =
        .ok [.root frame.className frame.methodName] := by
    decide
  intro frame hf
  rw [lineGoals, nested_method frame hf]
  exact hall frame hf

theorem nested_goals : ∀ frame ∈ nested.crash.trackedAbove 0,
    ∃ goals, nested.lineGoals frame.className frame.line = .ok goals :=
  fun frame hf => ⟨_, nested_lineGoals frame hf⟩

theorem nestedRun_tree : IsCallTree (nestedRun [3, 2]).methodCalls where
  distinct := by decide
  root := by decide
  caller := by decide

theorem nestedRun_nonneg (ids : List UInt64) : (nestedRun ids).Nonneg :=
  Execution.nonneg_of_empty rfl rfl

theorem outerCall_continues (ids : List UInt64) :
    outerCall.Continues nested.program (nestedRun ids).methodCalls [] ⟨"A", "a", 10⟩ :=
  ⟨by simp [nestedRun], rfl, rfl, nested_method _ (by decide), by decide⟩

theorem middleCall_continues {ids : List UInt64} (hid : 3 ∈ ids) :
    (middleCall 3).Continues nested.program (nestedRun ids).methodCalls [outerCall]
      ⟨"B", "b", 20⟩ :=
  ⟨by simp [nestedRun, List.mem_map_of_mem hid], rfl, rfl, nested_method _ (by decide), by decide⟩

theorem innerCall_continues (ids : List UInt64) :
    innerCall.Continues nested.program (nestedRun ids).methodCalls [outerCall, middleCall 3]
      ⟨"C", "c", 30⟩ :=
  ⟨by simp [nestedRun], rfl, rfl, nested_method _ (by decide), by decide⟩

theorem nestedRun_threads {ids : List UInt64} (hid : 3 ∈ ids) :
    Threads nested.program (nestedRun ids).methodCalls (nested.crash.trackedAbove 0)
      [outerCall, middleCall 3, innerCall] := by
  rw [nested_frames]
  exact ((Threads.nil.snoc (outerCall_continues ids)).snoc (middleCall_continues hid)).snoc
    (innerCall_continues ids)

theorem nestedRun_leads : Leads nested.program (nestedRun [3, 2]).methodCalls
    (nested.crash.trackedAbove 0) [outerCall, middleCall 3, innerCall] := by
  rw [nested_frames]
  refine ((Leads.nil.snoc (outerCall_continues _) fun h => absurd rfl h).snoc
    (middleCall_continues (by simp)) fun _ => ?_).snoc (innerCall_continues _) fun _ => ?_
  · show List.find? _ _ = _
    decide
  · show List.find? _ _ = _
    decide

/-- No coincidental progress: if every level above `n` has the distance nothing, then calls of the
execution that made one another stand behind the tracked ones, each at its own depth and each
covering the line of its frame. -/
theorem Arrives.exists_threads [LawfulScale R] (tree : IsCallTree e.methodCalls) (he : e.Nonneg)
    (h : t.Arrives e n s) :
    ∃ records, Threads t.program e.methodCalls (t.crash.trackedAbove n) records := by
  obtain ⟨records, hl⟩ := (h.tracked he tree).led
  exact ⟨records, hl.threads⟩

theorem nestedRun_arrives : ∃ s, nested.Arrives (nestedRun [3, 2]) 0 s := by
  obtain ⟨s, ha, -⟩ := exists_tracked_of_leads nestedRun_tree 3 rfl nested_goals
    ⟨_, nestedRun_leads⟩
  exact ⟨s, ha⟩

theorem nestedRun_exists_threads :
    IsCallTree (nestedRun [3, 2]).methodCalls ∧ (nestedRun [3, 2]).Nonneg ∧
      ∃ s, nested.Arrives (nestedRun [3, 2]) 0 s ∧
        ∃ records, Threads nested.program (nestedRun [3, 2]).methodCalls
          (nested.crash.trackedAbove 0) records := by
  obtain ⟨s, ha⟩ := nestedRun_arrives
  exact ⟨nestedRun_tree, nestedRun_nonneg _, s, ha,
    Arrives.exists_threads nestedRun_tree (nestedRun_nonneg _) ha⟩

/-- Which calls bring the walk to a level: they thread the tracked frames above it, and each but the
outermost is the first of its siblings that fits. A later sibling is missed even where it alone
leads on. -/
theorem arrives_iff_leads [LawfulScale R] (tree : IsCallTree e.methodCalls)
    (hn : n ≤ t.crash.targetLevel.toNat)
    (hg : ∀ frame ∈ t.crash.trackedAbove n,
      ∃ goals, t.lineGoals frame.className frame.line = .ok goals) :
    ((∃ records, Leads t.program e.methodCalls (t.crash.trackedAbove n) records) →
      ∃ s, t.Arrives e n s) ∧
    (e.Nonneg → (∃ s, t.Arrives e n s) →
      ∃ records, Leads t.program e.methodCalls (t.crash.trackedAbove n) records) := by
  constructor
  · intro hl
    obtain ⟨k, hk⟩ := Nat.exists_eq_add_of_le hn
    obtain ⟨s, ha, -⟩ := exists_tracked_of_leads tree k hk.symm hg hl
    exact ⟨s, ha⟩
  · rintro he ⟨s, ha⟩
    exact (ha.tracked he tree).led

theorem nestedRun_arrives_iff :
    IsCallTree (nestedRun [3, 2]).methodCalls ∧ (nestedRun [3, 2]).Nonneg ∧
      (∃ records, Leads nested.program (nestedRun [3, 2]).methodCalls
        (nested.crash.trackedAbove 0) records) ∧
      ((∃ records, Leads nested.program (nestedRun [3, 2]).methodCalls
        (nested.crash.trackedAbove 0) records) ↔ ∃ s, nested.Arrives (nestedRun [3, 2]) 0 s) := by
  obtain ⟨harrives, hleads⟩ := @arrives_iff_leads _ nested (nestedRun [3, 2]) 0 _ _ nestedRun_tree
    (by decide) nested_goals
  exact ⟨nestedRun_tree, nestedRun_nonneg _, ⟨_, nestedRun_leads⟩, harrives,
    hleads (nestedRun_nonneg _)⟩

/-- With the two middle calls the other way round, the chain goes to the one that leads nowhere. -/
theorem nestedRun_missed :
    IsCallTree (nestedRun [2, 3]).methodCalls ∧
      Threads nested.program (nestedRun [2, 3]).methodCalls (nested.crash.trackedAbove 0)
        [outerCall, middleCall 3, innerCall] ∧
      (∀ frame ∈ nested.crash.trackedAbove 0,
        ∃ goals, nested.lineGoals frame.className frame.line = .ok goals) ∧
      ¬ ∃ s, nested.Arrives (nestedRun [2, 3]) 0 s := by
  have tree : IsCallTree (nestedRun [2, 3]).methodCalls :=
    ⟨by decide, by decide, by decide⟩
  refine ⟨tree, nestedRun_threads (by simp), nested_goals, ?_⟩
  rintro ⟨s, ha⟩
  obtain ⟨records, hl⟩ := (ha.tracked (nestedRun_nonneg _) tree).led
  rw [nested_frames] at hl
  obtain ⟨_, inner, rfl, hl, hinner, -⟩ := @Leads.concat _ _ _ [_, _] _ hl
  obtain ⟨_, middle, rfl, hl, hmiddle, hfirst⟩ := @Leads.concat _ _ _ [_] _ hl
  -- The inner call was made by the later of the two, which is not the first that fits.
  have hcaller : ∀ r ∈ (nestedRun [2, 3]).methodCalls, r.callDepth.toNat = 3 → r.callerId = 3 := by
    decide
  have hnot : ∀ r ∈ (nestedRun [2, 3]).methodCalls, r.methodId = 3 →
      (nestedRun [2, 3]).methodCalls.find? (fun c => c.callerId = r.callerId ∧
        c.fits r.methodName 20 r.callDepth.toNat) ≠ some r := by
    decide
  have hid : middle.methodId = 3 := by
    have := hcaller inner hinner.mem (by simpa [hl.length_eq] using hinner.depth)
    simpa [hinner.caller, callerAfter] using this
  exact hnot middle hmiddle.mem hid (hfirst (by simp [← List.length_pos_iff, hl.length_eq]))

end Target

end CrashSearch
