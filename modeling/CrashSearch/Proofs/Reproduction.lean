import CrashSearch.Proofs.Tracking

/-!
# What counts as a reproduction

An execution has the fitness nothing if it threw the exception of the crash through exactly the
frames of the crash, or if it reached all tracked frames and threw the exception at the crash site.
The first way is no wider than the second one as far as the exception goes: what it accepts, the
check of the crash site accepts too.

## Main definitions

* `Target.CrashesAtSite`: an exception of the crash, by its first frame outside the library.
* `Target.Matched`: every level above a level is evaluated, and the tracked ones are matched.

## Main statements

* `Target.fitness_cases`: the fitness is nothing in these two ways only, and otherwise more.
* `Target.fitness_eq_zero_iff`: when the fitness is nothing.
* `Target.fitness_of_exact`: what an exception with the frames of the crash is worth.
-/

namespace CrashSearch

open Scale (zero one)

theorem Scale.one_ne_zero {R : Type} [Scale R] [LawfulScale R] : (one : R) ≠ zero := by
  intro h
  have hpos := LawfulScale.not_beq_of_pos (LawfulScale.one_pos (R := R))
  rw [h, LawfulScale.zero_beq_zero] at hpos
  cases hpos

theorem StackTrace.exists_targetFrames_eq (c : StackTrace) :
    ∃ rest, c.targetFrames = c.crashSite :: rest := by
  obtain ⟨n, hn⟩ : ∃ n, c.targetLevel.toNat = n + 1 :=
    ⟨c.targetLevel.toNat - 1, (Nat.sub_add_cancel c.one_le_targetLevel).symm⟩
  have hpos : 0 < c.frames.length := c.one_le_targetLevel.trans c.targetLevel_le
  refine ⟨(c.frames.drop 1).take n, ?_⟩
  rw [targetFrames, hn, crashSite, List.get_eq_getElem, ← List.take_succ_cons,
    ← List.drop_eq_getElem_cons hpos, List.drop_zero]

namespace Target

/-- The exception has the type of the crash, and its first frame outside the library is at the crash
site. -/
def CrashesAtSite (t : Target) (thrown : Thrown) : Prop :=
  thrown.exceptionType = t.crash.exceptionType ∧
    ∃ above frame below, thrown.frames = above ++ frame :: below ∧
      (∀ f ∈ above, t.session.isLibrary f.className = true) ∧
      t.session.isLibrary frame.className = false ∧
      frame.className = t.crash.crashSite.className ∧ frame.line = t.crash.crashSite.line

variable {R : Type} {t : Target} {e : Execution R} {s next : FrameState} {thrown : Thrown}
  {level : UInt64} {n : Nat}

/-! ## Exceptions -/

theorem find?_outside_eq_some_iff {frame : Frame} :
    thrown.frames.find? (!t.session.isLibrary ·.className) = some frame ↔
      ∃ above below, thrown.frames = above ++ frame :: below ∧
        (∀ f ∈ above, t.session.isLibrary f.className = true) ∧
        t.session.isLibrary frame.className = false := by
  rw [List.find?_eq_some_iff_append]
  grind

theorem isCrash_iff : t.isCrash thrown = true ↔ t.CrashesAtSite thrown := by
  have hfirst := fun frame => @find?_outside_eq_some_iff t thrown frame
  unfold isCrash CrashesAtSite
  cases hf : thrown.frames.find? (!t.session.isLibrary ·.className) with
  | none => grind
  | some frame => grind

/-- What the fast test accepts, the check of the crash site accepts: the frames of the crash begin
with the crash site, so the first frame that is not dropped is there. -/
theorem crashesAtSite_of_prefix (ht : thrown.exceptionType = t.crash.exceptionType)
    (hp : t.crash.targetFrames <+: t.applicationFrames thrown) : t.CrashesAtSite thrown := by
  obtain ⟨rest, hrest⟩ := t.crash.exists_targetFrames_eq
  obtain ⟨below, hbelow⟩ := hp
  have hfirst : thrown.frames.find? (!t.session.isLibrary ·.className) =
      some t.crash.crashSite := by
    rw [List.find?_not_eq_head?_dropWhile]
    change (t.applicationFrames thrown).head? = _
    rw [← hbelow, hrest, List.cons_append, List.head?_cons]
  obtain ⟨above, below, hframes, habove, hout⟩ := find?_outside_eq_some_iff.1 hfirst
  exact ⟨ht, above, t.crash.crashSite, below, hframes, habove, hout, rfl, rfl⟩

theorem sameException_iff : t.sameException e = true ↔ ∃ thrown ∈ e.thrown,
    thrown.exceptionType = t.crash.exceptionType ∧
      t.crash.targetFrames <+: t.applicationFrames thrown := by
  simp [sameException, List.any_eq_true]

/-- A crash site in the library is dropped from every exception, so no exception is at it. -/
theorem not_crashesAtSite_of_library
    (hl : t.session.isLibrary t.crash.crashSite.className = true) : ¬ t.CrashesAtSite thrown := by
  rintro ⟨-, -, frame, -, -, -, hout, hclass, -⟩
  rw [hclass, hl] at hout
  cases hout

theorem pass?_eq_some_iff {frame : Frame} (hi : t.crash.isIrrelevant level = false) :
    t.pass? e s level frame = some next ↔ t.matchFrame s e frame level = (next, true) := by
  rw [pass?, if_neg (by simp [hi])]
  rcases t.matchFrame s e frame level with ⟨_, _ | _⟩ <;> simp

variable [Scale R]

theorem exceptionCoverage_eq_zero_iff [LawfulScale R] :
    t.exceptionCoverage e = zero ↔ ∃ thrown ∈ e.thrown, t.CrashesAtSite thrown := by
  simp only [← isCrash_iff, ← List.any_eq_true, exceptionCoverage]
  split <;> simp_all [Scale.one_ne_zero]

/-! ## The walk -/

/-- Every level above `n` is evaluated, one after the other down to the state `s`, and each tracked
one is matched. -/
inductive Matched (t : Target) (e : Execution R) : Nat → FrameState → Prop
  | top : Matched t e t.crash.targetLevel.toNat .initial
  | step {n s next d frame} : Matched t e (n + 1) s →
      t.crash.frame? (.ofNat (n + 1)) = some frame →
      t.evaluateFrame s e (.ofNat (n + 1)) = (next, .ok d) →
      (t.crash.isIrrelevant (.ofNat (n + 1)) = false →
        t.matchFrame s e frame (.ofNat (n + 1)) = (next, true)) →
      Matched t e n next

theorem eq_zero_of_pass {frame : Frame} {d : R} {behind : FrameState}
    (hf : t.crash.frame? level = some frame) (hp : t.pass? e s level frame = some behind)
    (hv : t.evaluateFrame s e level = (next, .ok d)) : d = zero := by
  rw [evaluateFrame_eq hf, hp] at hv
  cases hi : t.crash.isIrrelevant level <;>
    cases hg : t.lineGoals frame.className frame.line <;> simp_all [Except.map]

variable [LawfulScale R]

/-- A level counts nothing, or more than nothing. -/
theorem evaluateFrame_pos (he : e.Nonneg) {d : R} (hv : t.evaluateFrame s e level = (next, .ok d))
    (hd : (d == zero) = false) : zero < d := by
  cases hf : t.crash.frame? level with
  | none => simp [evaluateFrame, hf] at hv
  | some frame =>
    cases hp : t.pass? e s level frame with
    | some behind =>
      rw [eq_zero_of_pass hf hp hv, LawfulScale.zero_beq_zero] at hd
      cases hd
    | none =>
      rw [evaluateFrame_eq hf, hp] at hv
      cases hg : t.lineGoals frame.className frame.line with
      | error error => simp [hg, Except.map] at hv
      | ok goals =>
        simp only [hg, Except.map, Prod.mk.injEq, Except.ok.injEq] at hv
        exact hv.2 ▸ Goal.least_pos he goals

/-- Only a level that is not tracked or whose frame is matched counts nothing, so the levels that
count nothing are those that the walk matches. -/
theorem matched_iff_arrives (he : e.Nonneg) : t.Matched e n s ↔ t.Arrives e n s := by
  constructor
  · intro h
    induction h with
    | top => exact .top
    | @step n s next d frame _ hf hv hm ih =>
      have hp : ∃ behind, t.pass? e s (.ofNat (n + 1)) frame = some behind := by
        cases hi : t.crash.isIrrelevant (.ofNat (n + 1)) with
        | true => exact ⟨_, pass?_of_irrelevant hi⟩
        | false => exact ⟨next, (pass?_eq_some_iff hi).2 (hm hi)⟩
      obtain ⟨behind, hp⟩ := hp
      have hd : (d == zero) = true := by
        rw [eq_zero_of_pass hf hp hv]
        exact LawfulScale.zero_beq_zero
      exact ih.step hv hd
  · intro h
    induction h with
    | top => exact .top
    | @step n s next d hprev hv hd ih =>
      obtain ⟨frame, hf⟩ := StackTrace.exists_frame? hprev.le
      exact ih.step hf hv fun hi => (pass?_eq_some_iff hi).1 (pass?_of_zero he hf hv hd)

theorem addUnits_pos {v : R} (hv : zero < v) (n : Nat) : zero < addUnits v n := by
  induction n generalizing v with
  | zero => exact hv
  | succ n ih => exact ih (LawfulScale.add_pos hv (.inr LawfulScale.one_pos))

omit [LawfulScale R] in
/-- The levels that count nothing do not change what the walk still has to add up. -/
theorem Arrives.walk_eq (h : t.Arrives e n s) :
    t.walk e .initial t.crash.targetLevel.toNat = t.walk e s n := by
  induction h with
  | top => rfl
  | step _ hv hd ih =>
    rw [ih, walk, hv]
    exact if_pos hd

/-- The walk counts nothing if it arrives below all levels, and otherwise more than nothing. -/
theorem Arrives.walk_cases (he : e.Nonneg) {v : R} (h : t.Arrives e n s)
    (hw : t.walk e s n = .ok v) : (v = zero ∧ ∃ last, t.Arrives e 0 last) ∨ zero < v := by
  induction n generalizing s with
  | zero => exact .inl ⟨(Except.ok.inj hw).symm, s, h⟩
  | succ n ih =>
    rcases hv : t.evaluateFrame s e (.ofNat (n + 1)) with ⟨next, error | d⟩
    · rw [walk, hv] at hw
      cases hw
    · cases hd : d == zero with
      | true =>
        rw [walk, hv] at hw
        exact ih (h.step hv hd) (by simpa [hd] using hw)
      | false =>
        rw [walk, hv] at hw
        obtain rfl : addUnits d n = v := by simpa [hd] using hw
        exact .inr (addUnits_pos (evaluateFrame_pos he hv hd) n)

/-- The fitness is nothing in two ways, and otherwise more than nothing. -/
theorem fitness_cases (he : e.Nonneg) {v : R} (hv : t.fitness e = .ok v) :
    (v = zero ∧ (t.sameException e = true ∨
      (∃ last, t.Arrives e 0 last) ∧ t.exceptionCoverage e = zero)) ∨ zero < v := by
  unfold fitness at hv
  split at hv
  · rename_i hs
    exact .inl ⟨(Except.ok.inj hv).symm, .inl hs⟩
  · cases hw : t.walk e .initial t.crash.targetLevel.toNat with
    | error error => simp [hw, Except.map] at hv
    | ok w =>
      simp only [hw, Except.map, Except.ok.injEq] at hv
      rcases Arrives.top.walk_cases he hw with ⟨rfl, harrives⟩ | hpos
      · rw [if_pos LawfulScale.zero_beq_zero] at hv
        cases hc : e.thrown.any t.isCrash with
        | true =>
          have hzero : t.exceptionCoverage e = zero := by simp [exceptionCoverage, hc]
          exact .inl ⟨hv.symm.trans hzero, .inr ⟨harrives, hzero⟩⟩
        | false =>
          have hone : t.exceptionCoverage e = one := by simp [exceptionCoverage, hc]
          exact .inr (hv ▸ hone ▸ LawfulScale.one_pos)
      · rw [if_neg (by simp [LawfulScale.not_beq_of_pos hpos])] at hv
        exact .inr (hv ▸ LawfulScale.add_pos hpos (.inr LawfulScale.one_pos))

omit [LawfulScale R] in
theorem fitness_of_sameException (hs : t.sameException e = true) : t.fitness e = .ok zero :=
  if_pos hs

theorem fitness_of_arrives {last : FrameState} (ha : t.Arrives e 0 last)
    (hs : t.sameException e = false) : t.fitness e = .ok (t.exceptionCoverage e) := by
  rw [fitness, if_neg (by simp [hs]), ha.walk_eq, walk]
  exact congrArg Except.ok (if_pos LawfulScale.zero_beq_zero)

/-- The walk ends at the first tracked level whose frame is not matched. -/
theorem fitness_of_unmatched (he : e.Nonneg) {frame : Frame} {goals : List Goal}
    (ha : t.Arrives e (n + 1) s) (hf : t.crash.frame? (.ofNat (n + 1)) = some frame)
    (hp : t.pass? e s (.ofNat (n + 1)) frame = none)
    (hg : t.lineGoals frame.className frame.line = .ok goals) (hs : t.sameException e = false) :
    t.fitness e = .ok (addUnits (Goal.least goals e) n + one) := by
  have hpos := Goal.least_pos he goals
  have hd := LawfulScale.not_beq_of_pos hpos
  have hu := LawfulScale.not_beq_of_pos (addUnits_pos hpos n)
  have hv := evaluateFrame_eq (s := s) (e := e) hf
  rw [hp, hg] at hv
  rw [fitness, if_neg (by simp [hs]), ha.walk_eq, walk, hv]
  simp [Except.map, hd, hu]

theorem exceptionCoverage_of_sameException (hs : t.sameException e = true) :
    t.exceptionCoverage e = zero := by
  obtain ⟨thrown, hm, ht, hp⟩ := sameException_iff.1 hs
  exact exceptionCoverage_eq_zero_iff.2 ⟨thrown, hm, crashesAtSite_of_prefix ht hp⟩

/-- Where the crash site is in the library, no execution has the fitness nothing. -/
theorem fitness_pos_of_library (he : e.Nonneg)
    (hl : t.session.isLibrary t.crash.crashSite.className = true) {v : R}
    (hv : t.fitness e = .ok v) : zero < v := by
  have hnone : t.exceptionCoverage e ≠ zero := fun h => by
    obtain ⟨thrown, -, hc⟩ := exceptionCoverage_eq_zero_iff.1 h
    exact not_crashesAtSite_of_library hl hc
  rcases fitness_cases he hv with ⟨-, hs | ⟨-, hc⟩⟩ | hpos
  · exact absurd (exceptionCoverage_of_sameException hs) hnone
  · exact absurd hc hnone
  · exact hpos

/-! ## Zero means reproduced -/

/-- The nested calls, with three exceptions of the type of the crash: one without frames, one
thrown in the library, and one thrown by another method on the line of the crash. -/
def nestedCrash : Execution Float :=
  { nestedRun [3, 2] with
    exceptions := .ofList [(0, ⟨"E", []⟩), (1, ⟨"E", [⟨"java.lang.X", "fail", 1⟩]⟩),
      (2, ⟨"E", [⟨"java.lang.X", "fail", 1⟩, ⟨"C", "other", 30⟩]⟩)] }

theorem nestedCrash_nonneg : nestedCrash.Nonneg := Execution.nonneg_of_empty rfl rfl

theorem nestedCrash_arrives : ∃ last, nested.Arrives nestedCrash 0 last := by
  obtain ⟨last, ha, -⟩ := @exists_tracked_of_leads _ nested nestedCrash 0 _ _ nestedRun_tree 3 rfl
    nested_goals ⟨_, nestedRun_leads⟩
  exact ⟨last, ha⟩

/-- The fitness is nothing just if the exception of the crash was thrown through the frames of the
crash, or every level was evaluated with the tracked ones matched and the exception was thrown at
the crash site. Either way some exception of the type of the crash was thrown whose first frame
outside the library is at the crash site. -/
theorem fitness_eq_zero_iff (he : e.Nonneg) :
    ((∃ v, t.fitness e = .ok v ∧ (v == zero) = true) ↔
      t.sameException e = true ∨
        (∃ last, t.Matched e 0 last) ∧ t.exceptionCoverage e = zero) ∧
    (t.sameException e = true ∨ (∃ last, t.Matched e 0 last) ∧ t.exceptionCoverage e = zero →
      t.fitness e = .ok zero ∧ t.exceptionCoverage e = zero ∧
        ∃ thrown ∈ e.thrown, t.CrashesAtSite thrown) := by
  have hsound : t.sameException e = true ∨
      (∃ last, t.Matched e 0 last) ∧ t.exceptionCoverage e = zero →
        t.fitness e = .ok zero ∧ t.exceptionCoverage e = zero := by
    intro h
    cases hs : t.sameException e with
    | true => exact ⟨fitness_of_sameException hs, exceptionCoverage_of_sameException hs⟩
    | false =>
      obtain ⟨⟨last, hlast⟩, hc⟩ := h.resolve_left (by simp [hs])
      exact ⟨hc ▸ fitness_of_arrives ((matched_iff_arrives he).1 hlast) hs, hc⟩
  refine ⟨⟨?_, ?_⟩, ?_⟩
  · rintro ⟨v, hv, hz⟩
    rcases fitness_cases he hv with ⟨-, hs | ⟨⟨last, ha⟩, hc⟩⟩ | hpos
    · exact .inl hs
    · exact .inr ⟨⟨last, (matched_iff_arrives he).2 ha⟩, hc⟩
    · simp [LawfulScale.not_beq_of_pos hpos] at hz
  · intro h
    exact ⟨zero, (hsound h).1, LawfulScale.zero_beq_zero⟩
  · intro h
    obtain ⟨hv, hc⟩ := hsound h
    exact ⟨hv, hc, exceptionCoverage_eq_zero_iff.1 hc⟩

theorem nestedCrash_zero : nestedCrash.Nonneg ∧ nested.sameException nestedCrash = false ∧
    (∃ last, nested.Matched nestedCrash 0 last) ∧ nested.exceptionCoverage nestedCrash = zero ∧
    nested.fitness nestedCrash = .ok zero ∧
    ∃ thrown ∈ nestedCrash.thrown, nested.CrashesAtSite thrown := by
  have hs : nested.sameException nestedCrash = false := by decide
  have hc : nested.exceptionCoverage nestedCrash = zero := if_pos (by decide)
  obtain ⟨last, ha⟩ := nestedCrash_arrives
  have hm : nested.Matched nestedCrash 0 last := (matched_iff_arrives nestedCrash_nonneg).2 ha
  obtain ⟨hv, -, hthrown⟩ := (fitness_eq_zero_iff nestedCrash_nonneg).2 (.inr ⟨⟨last, hm⟩, hc⟩)
  exact ⟨nestedCrash_nonneg, hs, ⟨last, hm⟩, hc, hv, hthrown⟩

/-! ## An exception with the frames of the crash -/

/-- A run that threw one exception, of the type of the crash. -/
def throwing (frames : List Frame) : Execution Float :=
  { Execution.empty with exceptions := .ofList [(0, ⟨"E", frames⟩)] }

/-- A crash that the library throws when a method calls it. -/
def inLibrary : Target where
  crash := ⟨"E", [⟨"java.util.Objects", "requireNonNull", 203⟩], 1, .empty, Nat.one_pos, by decide⟩
  program := (Program.empty.insertGraph
    (.make "java.util.Objects" "requireNonNull" [⟨0, some 203, .plain⟩])).markRoot
      ⟨"java.util.Objects", "requireNonNull", 0⟩
  session := .default

/-- A run that enters the method of the crash, covers its line and throws its exception there. -/
def inLibraryRun : Execution Float :=
  { throwing inLibrary.crash.frames with
    methodCalls := [⟨1, 0, 1, "java.util.Objects", "requireNonNull", .ofList [203]⟩] }

theorem inLibrary_method :
    inLibrary.program.methodAtLine? "java.util.Objects" 203 = some "requireNonNull" := by
  have hm : inLibrary.program.methodsAtLine "java.util.Objects" 203 = ["requireNonNull"] := by
    decide
  rw [Program.methodAtLine?, hm, List.mergeSort_singleton]
  rfl

/-- All frames are reached, and still the exception counts as missing. -/
theorem inLibraryRun_fitness : inLibrary.fitness inLibraryRun = .ok one := by
  have hpass : inLibrary.pass? inLibraryRun .initial 1
      ⟨"java.util.Objects", "requireNonNull", 203⟩ = some ⟨⟨[[1]]⟩, 0⟩ :=
    pass?_of_follow (by decide) inLibrary_method (by decide)
  have hgoals : inLibrary.lineGoals "java.util.Objects" 203 =
      .ok [.root "java.util.Objects" "requireNonNull"] := by
    rw [lineGoals, inLibrary_method]
    decide
  have harrives : inLibrary.Arrives inLibraryRun 0 ⟨⟨[[1]]⟩, 0⟩ :=
    Arrives.top.pass (by decide) hpass fun _ => ⟨_, hgoals⟩
  exact fitness_of_arrives harrives (by decide)

/-- An exception of the type of the crash that begins with the frames of the crash makes the fitness
nothing if the crash site is outside the library. Where it is in the library it does not: the
library frames of an exception are dropped before it is compared, those of the crash are not. -/
theorem fitness_of_exact (hm : thrown ∈ e.thrown)
    (ht : thrown.exceptionType = t.crash.exceptionType)
    (hp : t.crash.targetFrames <+: thrown.frames) :
    (t.session.isLibrary t.crash.crashSite.className = false → t.fitness e = .ok zero) ∧
    (t.session.isLibrary t.crash.crashSite.className = true → e.Nonneg →
      ∀ v, t.fitness e = .ok v → zero < v) := by
  refine ⟨fun hl => ?_, fun hl he v hv => fitness_pos_of_library he hl hv⟩
  refine fitness_of_sameException (sameException_iff.2 ⟨thrown, hm, ht, ?_⟩)
  obtain ⟨rest, hrest⟩ := t.crash.exists_targetFrames_eq
  obtain ⟨below, hbelow⟩ := hp
  have hkept : t.applicationFrames thrown = thrown.frames := by
    rw [applicationFrames, ← hbelow, hrest, List.cons_append,
      List.dropWhile_cons_of_neg (by simp [hl])]
  rw [hkept]
  exact ⟨below, hbelow⟩

theorem throwing_nested :
    (∀ thrown ∈ (throwing nested.crash.frames).thrown,
      thrown.exceptionType = nested.crash.exceptionType ∧
        nested.crash.targetFrames <+: thrown.frames) ∧
    nested.session.isLibrary nested.crash.crashSite.className = false ∧
    nested.fitness (throwing nested.crash.frames) = .ok zero := by
  have hl : nested.session.isLibrary nested.crash.crashSite.className = false := by decide
  have hm : (⟨"E", nested.crash.frames⟩ : Thrown) ∈ (throwing nested.crash.frames).thrown := by
    decide
  exact ⟨by decide, hl, (fitness_of_exact hm rfl (by decide)).1 hl⟩

/-- The exception of the crash, with exactly its frames, in a run that reaches all of them. -/
theorem inLibraryRun_missed :
    (∀ thrown ∈ inLibraryRun.thrown, thrown.exceptionType = inLibrary.crash.exceptionType ∧
      inLibrary.crash.targetFrames = thrown.frames) ∧ inLibraryRun.thrown ≠ [] ∧
    inLibrary.fitness inLibraryRun = .ok one ∧ inLibrary.fitness inLibraryRun ≠ .ok zero := by
  refine ⟨by decide, by decide, inLibraryRun_fitness, fun h => ?_⟩
  exact Scale.one_ne_zero (Except.ok.inj (inLibraryRun_fitness.symm.trans h))

end Target

end CrashSearch
