import CrashSearch.Proofs.Bands
import CrashSearch.Proofs.TrackedFrames

/-!
# The range of a frame's distance

The distance of a tracked frame is nothing where a call matches it, at most a unit where none does,
and the greatest number only if no method of its class owns its line. The method that owns a line,
the first instruction there and the goals of that instruction are looked up one by one; that the
look-ups agree is what keeps a line that is owned from counting as one that is not.

## Main definitions

* `CallRecord.Joins`: a call continues one of some chains.
* `Target.HasMatch`: a call matches a frame.
* `Program.Controlled`: the first instruction of a line depends on something.

## Main statements

* `Chains.snd_followAll_iff`: a scan finds a call that joins the chains it began with.
* `Target.lineGoals_cases`: an owned line has goals just if its first instruction is controlled.
* `Target.evaluateFrame_range`: what the distance of a level is, and what it leaves behind.
-/

namespace CrashSearch

/-- The call is made by the last call of a chain; at depth one it is made by the test itself. -/
def CallRecord.Joins (call : CallRecord) (chains : Chains) (depth : Int) : Prop :=
  depth = 1 ∧ call.callerId = CallRecord.testId ∨
    1 < depth ∧ ∃ chain ∈ chains.toList, chain.getLast? = some call.callerId

namespace Chains

variable {chains : Chains} {call : CallRecord} {calls : List CallRecord} {method : String}
  {line : UInt32} {depth : Int}

theorem isSome_follow_iff : (chains.follow call depth).isSome = true ↔ call.Joins chains depth := by
  unfold follow CallRecord.Joins
  by_cases hone : depth = 1
  · by_cases hcaller : call.callerId = CallRecord.testId <;> simp [hone, hcaller]
  · by_cases hdeep : 1 < depth
    · simp [hone, hdeep, extend?, isSome_extendFirst_iff]
    · simp [hone, hdeep]

theorem snd_followAll_of_found :
    (followAll method line depth (chains, true) calls).2 = true := by
  induction calls generalizing chains with
  | nil => rfl
  | cons call calls ih =>
    unfold followAll
    split
    · split <;> exact ih
    · exact ih

/-- Up to the first call that continues a chain, a scan leaves the chains as they are. So it is
enough to look at the chains it began with. -/
theorem snd_followAll_iff : (followAll method line depth (chains, false) calls).2 = true ↔
    ∃ call ∈ calls, call.fits method line depth = true ∧ call.Joins chains depth := by
  induction calls with
  | nil => simp [followAll]
  | cons call calls ih =>
    rw [List.exists_mem_cons_iff, ← ih, followAll]
    cases hfits : call.fits method line depth with
    | false => simp
    | true =>
      rw [← isSome_follow_iff]
      cases chains.follow call depth with
      | some next => simp [snd_followAll_of_found]
      | none => simp

end Chains

/-! ## The goals of a line -/

namespace Program

variable {p : Program} {className : String} {line : UInt32}

/-- A method owns the line, and its first instruction there depends on something or is executed
whenever the method is entered. -/
def Controlled (p : Program) (className : String) (line : UInt32) : Prop :=
  ∃ method i, p.methodAtLine? className line = some method ∧
    p.firstAtLine? className method line = some i ∧ (p.dependencies i ≠ [] ∨ p.isRoot i = true)

theorem exists_methodAtLine?_iff :
    (∃ method, p.methodAtLine? className line = some method) ↔ p.Owns className line := by
  constructor
  · rintro ⟨method, hm⟩
    obtain ⟨g, hg, hc, hl, -⟩ := mem_methodsAtLine.1 (mem_of_methodAtLine? hm)
    exact ⟨g, hg, hc, hl⟩
  · exact exists_methodAtLine?

theorem Controlled.owns (h : p.Controlled className line) : p.Owns className line := by
  obtain ⟨method, -, hm, -⟩ := h
  exact exists_methodAtLine?_iff.1 ⟨method, hm⟩

end Program

namespace Target

variable {t : Target} {className : String} {line : UInt32}

/-- However the facts were recorded, an owned line has a first instruction, so what its goals are
depends on that instruction alone. -/
theorem lineGoals_cases (hp : t.program.Built) :
    (¬ t.program.Owns className line ∧ t.lineGoals className line = .ok []) ∨
      (t.program.Owns className line ∧ ¬ t.program.Controlled className line ∧
        ∃ method, t.lineGoals className line =
          .error (.noControlDependency className method line)) ∨
      (t.program.Controlled className line ∧
        ∃ goals, goals ≠ [] ∧ t.lineGoals className line = .ok goals) := by
  by_cases ho : t.program.Owns className line
  · obtain ⟨method, hm⟩ := Program.exists_methodAtLine? ho
    cases hg : t.lineGoals className line with
    | error error =>
      obtain ⟨method', ⟨hm', i, hi, hd, hr⟩, rfl⟩ := lineGoals_eq_error_iff.1 hg
      refine .inr (.inl ⟨ho, ?_, method', rfl⟩)
      rintro ⟨method'', j, hm'', hj, hc⟩
      obtain rfl : method' = method'' := Option.some.inj (hm'.symm.trans hm'')
      obtain rfl : i = j := Option.some.inj (hi.symm.trans hj)
      simp [hd, hr] at hc
    | ok goals =>
      refine .inr (.inr ⟨?_, goals, lineGoals_ne_nil hp ho hg, rfl⟩)
      obtain ⟨g, hmem, rfl, hl, rfl⟩ :=
        Program.mem_methodsAtLine.1 (Program.mem_of_methodAtLine? hm)
      obtain ⟨i, hi⟩ := Program.exists_firstAtLine? hl
      have hfirst : t.program.firstAtLine? g.className g.methodName line = some i := by
        rw [Program.firstAtLine?, hp.graph?_of_mem hmem]
        exact hi
      refine ⟨g.methodName, i, hm, hfirst, ?_⟩
      by_contra hc
      have herror : t.lineGoals g.className line =
          .error (.noControlDependency g.className g.methodName line) :=
        lineGoals_eq_error_iff.2 ⟨g.methodName, ⟨hm, i, hfirst, by simpa using hc⟩, rfl⟩
      cases hg.symm.trans herror
  · have hm : t.program.methodAtLine? className line = none := by
      rw [Option.eq_none_iff_forall_ne_some]
      exact fun method hm => ho (Program.exists_methodAtLine?_iff.1 ⟨method, hm⟩)
    exact .inl ⟨ho, by rw [lineGoals, hm]⟩

end Target

/-! ## The distance of a level -/

namespace StackTrace

variable {c : StackTrace} {level : UInt64}

theorem frame?_eq_none_iff : c.frame? level = none ↔
    ¬ (1 ≤ level.toNat ∧ level.toNat ≤ c.frames.length) := by
  unfold frame?
  split
  · simp_all
  · rw [List.getElem?_eq_none_iff]
    omega

end StackTrace

theorem Scale.one_lt_greatest : (1 : ℚ) < Scale.greatest := by decide +kernel

namespace Target

/-- Some call covers the line in the method that owns it, at the depth that the level implies, and
joins the chains. -/
def HasMatch {R : Type} (t : Target) (e : Execution R) (s : FrameState) (level : UInt64)
    (frame : Frame) : Prop :=
  ∃ method, t.program.methodAtLine? frame.className frame.line = some method ∧
    ∃ call ∈ e.methodCalls, call.fits method frame.line (t.depth s level) = true ∧
      call.Joins s.chains (t.depth s level)

variable {t : Target} {e : Execution ℚ} {s : FrameState} {level : UInt64} {frame : Frame}

theorem snd_matchFrame_iff {R : Type} {e : Execution R} :
    (t.matchFrame s e frame level).2 = true ↔ t.HasMatch e s level frame := by
  unfold matchFrame HasMatch
  cases t.program.methodAtLine? frame.className frame.line with
  | none => simp
  | some method =>
    have hiff : (Chains.followAll method frame.line (t.depth s level) (s.chains, false)
        e.methodCalls).2 = true ↔ _ := Chains.snd_followAll_iff
    rcases hf : Chains.followAll method frame.line (t.depth s level) (s.chains, false)
      e.methodCalls with ⟨chains, _ | _⟩ <;> simp_all

/-- A tracked level goes one of four ways: no method owns its line, or the goals of the line are
missing, or a call matches the frame, or none does. -/
theorem evaluateFrame_cases (hp : t.program.Built) (he : e.Nonneg)
    (hf : t.crash.frame? level = some frame) (hi : t.crash.isIrrelevant level = false) :
    (¬ t.program.Owns frame.className frame.line ∧ ¬ t.HasMatch e s level frame ∧
        t.evaluateFrame s e level = (.initial, .ok Scale.greatest)) ∨
      (t.program.Owns frame.className frame.line ∧
        ¬ t.program.Controlled frame.className frame.line ∧ ∃ next error,
          t.evaluateFrame s e level = (next, .error error) ∧
            (t.HasMatch e s level frame ∨ next = .initial)) ∨
      (t.program.Controlled frame.className frame.line ∧ t.HasMatch e s level frame ∧
        ∃ next, t.evaluateFrame s e level = (next, .ok 0)) ∨
      (t.program.Controlled frame.className frame.line ∧ ¬ t.HasMatch e s level frame ∧
        ∃ v, t.evaluateFrame s e level = (.initial, .ok v) ∧ 0 < v ∧ v ≤ 1) := by
  rw [evaluateFrame_tracked hf hi]
  have hunmatched : ¬ t.HasMatch e s level frame →
      t.matchFrame s e frame level = (.initial, false) := fun hm =>
    matchFrame_of_false (Bool.eq_false_iff.2 (mt snd_matchFrame_iff.1 hm))
  rcases lineGoals_cases hp with ⟨ho, hg⟩ | ⟨ho, hc, method, hg⟩ | ⟨hc, goals, hne, hg⟩
  · have hm : ¬ t.HasMatch e s level frame := by
      rintro ⟨method, hm, -⟩
      exact ho (Program.exists_methodAtLine?_iff.1 ⟨method, hm⟩)
    refine .inl ⟨ho, hm, ?_⟩
    rw [hunmatched hm, hg]
    rfl
  · refine .inr (.inl ⟨ho, hc, _, _, by rw [hg, Except.map], ?_⟩)
    by_cases hm : t.HasMatch e s level frame
    · exact .inl hm
    · exact .inr (by rw [hunmatched hm])
  · by_cases hm : t.HasMatch e s level frame
    · refine .inr (.inr (.inl ⟨hc, hm, (t.matchFrame s e frame level).1, ?_⟩))
      rw [hg, snd_matchFrame_iff.2 hm]
      rfl
    · refine .inr (.inr (.inr ⟨hc, hm, Goal.least goals e, ?_, Goal.least_pos he goals,
        Goal.least_le_one he hne⟩))
      rw [hunmatched hm, hg]
      rfl

/-- What a tracked level counts, and what it leaves behind: the greatest number just if no method
owns its line, nothing just if a call matches its frame and the line is controlled, and otherwise at
most a unit. Without a match all chains are given up. -/
structure TrackedResult (t : Target) (e : Execution ℚ) (s : FrameState) (level : UInt64)
    (frame : Frame) (next : FrameState) (result : Except Error ℚ) : Prop where
  greatest_iff : result = .ok Scale.greatest ↔ ¬ t.program.Owns frame.className frame.line
  zero_iff : result = .ok 0 ↔
    t.HasMatch e s level frame ∧ t.program.Controlled frame.className frame.line
  otherwise : ∀ v, result = .ok v → v ≠ Scale.greatest → v ≠ 0 → 0 < v ∧ v ≤ 1
  given_up : ¬ t.HasMatch e s level frame → next.chains.toList = [] ∧ next.passed = 0

theorem evaluateFrame_trackedResult (hp : t.program.Built) (he : e.Nonneg)
    (hf : t.crash.frame? level = some frame) (hi : t.crash.isIrrelevant level = false) :
    t.TrackedResult e s level frame (t.evaluateFrame s e level).1
      (t.evaluateFrame s e level).2 := by
  have hone := Scale.one_lt_greatest
  rcases evaluateFrame_cases (s := s) hp he hf hi with ⟨ho, hm, hv⟩ |
    ⟨ho, hc, next, error, hv, hn⟩ | ⟨hc, hm, next, hv⟩ | ⟨hc, hm, v, hv, hpos, hle⟩ <;> rw [hv]
  · have hne : (Scale.greatest : ℚ) ≠ 0 := (one_pos.trans hone).ne'
    exact {
      greatest_iff := iff_of_true rfl ho
      zero_iff := iff_of_false (by simpa using hne) fun h => hm h.1
      otherwise := fun v h hne => absurd (Except.ok.inj h).symm hne
      given_up := fun _ => ⟨rfl, rfl⟩ }
  · exact {
      greatest_iff := iff_of_false (fun h => nomatch h) (not_not_intro ho)
      zero_iff := iff_of_false (fun h => nomatch h) fun h => hc h.2
      otherwise := fun v h => nomatch h
      given_up := fun hm => hn.resolve_left hm ▸ ⟨rfl, rfl⟩ }
  · have hne : (0 : ℚ) ≠ Scale.greatest := (one_pos.trans hone).ne
    exact {
      greatest_iff := iff_of_false (by simpa using hne) (not_not_intro hc.owns)
      zero_iff := iff_of_true rfl ⟨hm, hc⟩
      otherwise := fun v h _ hv => absurd (Except.ok.inj h).symm hv
      given_up := fun hn => absurd hm hn }
  · have hne : v ≠ Scale.greatest := (hle.trans_lt hone).ne
    exact {
      greatest_iff := iff_of_false (by simpa using hne) (not_not_intro hc.owns)
      zero_iff := iff_of_false (by simpa using hpos.ne') fun h => hm h.1
      otherwise := fun w h _ _ => Except.ok.inj h ▸ ⟨hpos, hle⟩
      given_up := fun _ => ⟨rfl, rfl⟩ }

/-- What passing over a level counts, and what it leaves behind: nothing, the same chains, and a
counter that is one greater. Behind its greatest value the counter begins again at zero. -/
structure PassedOver (s next : FrameState) (result : Except Error ℚ) : Prop where
  zero : result = .ok 0
  chains : next.chains = s.chains
  counter : next.counter = s.counter + 1
  passed : s.passed + 1 < 2 ^ 64 → next.passed = s.passed + 1
  begins_again : s.passed + 1 = 2 ^ 64 → next.passed = 0

theorem evaluateFrame_passedOver (hf : t.crash.frame? level = some frame)
    (hi : t.crash.isIrrelevant level = true) :
    PassedOver s (t.evaluateFrame s e level).1 (t.evaluateFrame s e level).2 := by
  rw [evaluateFrame_irrelevant hf hi]
  exact {
    zero := rfl
    chains := rfl
    counter := rfl
    passed := FrameState.passed_count_of_lt
    begins_again := fun h => by rw [FrameState.passed_count, h]; rfl }

/-- The distance of a level, read over exact numbers. Outside the trace there is none, and the state
stays. A level that is not tracked counts nothing, and only its passing is noted. What a tracked
level counts tells whether its line is owned and whether a call matches its frame; what is neither
nothing nor the greatest number is at most a unit. -/
theorem evaluateFrame_range (hp : t.program.Built) (he : e.Nonneg) (s : FrameState)
    (level : UInt64) :
    ((∃ l n, (t.evaluateFrame s e level).2 = .error (.frameOutOfRange l n)) ↔
        ¬ (1 ≤ level.toNat ∧ level.toNat ≤ t.crash.frames.length)) ∧
      (¬ (1 ≤ level.toNat ∧ level.toNat ≤ t.crash.frames.length) →
        t.evaluateFrame s e level =
          (s, .error (.frameOutOfRange level t.crash.frames.length))) ∧
      (∀ frame, t.crash.frame? level = some frame →
        (t.crash.isIrrelevant level = true →
          PassedOver s (t.evaluateFrame s e level).1 (t.evaluateFrame s e level).2) ∧
        (t.crash.isIrrelevant level = false →
          t.TrackedResult e s level frame (t.evaluateFrame s e level).1
            (t.evaluateFrame s e level).2)) ∧
      (1 : ℚ) < Scale.greatest := by
  have hout : ¬ (1 ≤ level.toNat ∧ level.toNat ≤ t.crash.frames.length) →
      t.evaluateFrame s e level =
        (s, .error (.frameOutOfRange level t.crash.frames.length)) := by
    intro h
    rw [evaluateFrame, StackTrace.frame?_eq_none_iff.2 h]
  refine ⟨⟨?_, fun h => ⟨_, _, by rw [hout h]⟩⟩, hout, fun frame hf =>
    ⟨evaluateFrame_passedOver hf, evaluateFrame_trackedResult hp he hf⟩, Scale.one_lt_greatest⟩
  -- Inside the trace the only error is that of a line without goals.
  rintro ⟨l, n, h⟩ hin
  obtain ⟨frame, hf⟩ := Option.ne_none_iff_exists'.1
    (mt StackTrace.frame?_eq_none_iff.1 (not_not_intro hin))
  obtain ⟨-, hg⟩ := (evaluateFrame_eq_error_iff hf).1 h
  obtain ⟨method, -, herror⟩ := lineGoals_eq_error_iff.1 hg
  cases herror

/-- The nested crash with a frame in between of whose class nothing is known, and one above that is
not tracked. -/
def halfKnown : Target :=
  { spaced with crash := spaced.crash.withIrrelevant (.ofList [5]) }

/-- The frame of the unknown class counts the greatest number. The outermost tracked one counts
nothing where the level above it was passed over, so that its call is expected of the test. With any
other count it is not matched; and behind its greatest value the count begins again. -/
theorem halfKnown_range :
    halfKnown.program.Built ∧ (spacedRun 1).Nonneg ∧
      (halfKnown.evaluateFrame .initial (spacedRun 1) 2).2 = .ok Scale.greatest ∧
      (halfKnown.evaluateFrame ⟨⟨[[5]]⟩, 1⟩ (spacedRun 1) 4).2 = .ok 0 ∧
      (∀ counter ≠ 1,
        (halfKnown.evaluateFrame ⟨⟨[[5]]⟩, counter⟩ (spacedRun 1) 4).1.chains.toList = []) ∧
      (halfKnown.evaluateFrame .initial (spacedRun 1) 5).1.passed = 1 ∧
      (halfKnown.evaluateFrame ⟨⟨[[5]]⟩, 0xffffffffffffffff⟩ (spacedRun 1) 5).1.passed = 0 ∧
      (halfKnown.evaluateFrame .initial (spacedRun 1) 6).2 =
        .error (.frameOutOfRange 6 5) := by
  have hp : halfKnown.program.Built := spaced_built
  have he : (spacedRun 1).Nonneg := spacedRun_nonneg 1
  have hunknown := ((evaluateFrame_range hp he .initial 2).2.2.1 ⟨"X", "x", 5⟩ (by decide)).2
    (by decide)
  have hover (s : FrameState) := ((evaluateFrame_range hp he s 5).2.2.1 ⟨"Y", "y", 6⟩
    (by decide)).1 (by decide)
  have houter (s : FrameState) := ((evaluateFrame_range hp he s 4).2.2.1 ⟨"A", "a", 10⟩
    (by decide)).2 (by decide)
  have hmethod : halfKnown.program.methodAtLine? "A" 10 = some "a" :=
    nested_method ⟨"A", "a", 10⟩ (by decide)
  refine ⟨hp, he, hunknown.greatest_iff.2 ?_, (houter ⟨⟨[[5]]⟩, 1⟩).zero_iff.2 ⟨?_, ?_⟩,
    fun counter hn => ((houter ⟨⟨[[5]]⟩, counter⟩).given_up ?_).1,
    (hover .initial).passed (by decide),
    (hover ⟨⟨[[5]]⟩, 0xffffffffffffffff⟩).begins_again (by decide), ?_⟩
  · unfold Program.Owns
    decide
  · exact ⟨"a", hmethod, outerCall, by decide, by decide, .inl (by decide)⟩
  · exact ⟨"a", ⟨"A", "a", 0⟩, hmethod, by decide, .inr (by decide)⟩
  · -- The only call has depth one, which is expected with one count only.
    rintro ⟨method, -, call, hcall, hfits, -⟩
    obtain rfl := List.mem_singleton.1 hcall
    rw [CallRecord.fits, decide_eq_true_eq, depth_eq_bmod] at hfits
    have hdepth : (1 : Int) = ((5 : Nat) - (4 : Nat) + 1 - counter.toNat : Int).bmod (2 ^ 64) :=
      hfits.1
    have hlt := counter.toNat_lt
    rw [Int.bmod_def] at hdepth
    exact hn (UInt64.toNat_inj.1 (show counter.toNat = 1 by omega))
  · rw [(evaluateFrame_range hp he .initial 6).2.1 (by decide)]
    rfl

end Target

end CrashSearch
