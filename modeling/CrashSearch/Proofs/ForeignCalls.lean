import CrashSearch.Proofs.OwnMethod

/-!
# Calls of other classes

A call is matched with a frame by its depth, its method, its lines and its caller. Its class is not
looked at, although it is where a goal asks whether a method was entered. So a method of the same
name in another class is as good as the one of the frame, and nothing that is counted for a frame
tells that its own class was called.

## Main definitions

* `Execution.reclassed`: an execution with other classes in its records.
* `Target.HasCallIn`: a call of one of some classes fits a frame.
* `Target.Matchable`: some call can match a frame.

## Main statements

* `Target.matchFrame_reclassed`: what is matched does not depend on classes.
* `Target.evaluateFrame_eq_zero_iff`: when a tracked level counts nothing.
* `Target.evaluateFrame_classes`: what is sure about the class of a frame that counts nothing.
-/

namespace CrashSearch

variable {R : Type}

/-- The record of a call of another class. -/
def CallRecord.inClass (className : String) (call : CallRecord) : CallRecord :=
  { call with className := className }

namespace Execution

/-- The execution with other classes in its records. -/
def reclassed (classes : CallRecord → String) (e : Execution R) : Execution R :=
  { e with methodCalls := e.methodCalls.map fun call => call.inClass (classes call) }

/-- All records tell their class. -/
def Named (e : Execution R) : Prop := ∀ call ∈ e.methodCalls, call.className ≠ ""

end Execution

theorem Chains.followAll_inClass (method : String) (line : UInt32) (depth : Int)
    (classes : CallRecord → String) (state : Chains × Bool) (calls : List CallRecord) :
    followAll method line depth state (calls.map fun call => call.inClass (classes call)) =
      followAll method line depth state calls := by
  have hfits (call : CallRecord) :
      (call.inClass (classes call)).fits method line depth = call.fits method line depth := rfl
  have hfollow (chains : Chains) (call : CallRecord) :
      chains.follow (call.inClass (classes call)) depth = chains.follow call depth := rfl
  fun_induction followAll method line depth state calls <;> simp_all [followAll]

namespace Target

variable {t : Target} {s : FrameState} {level : UInt64} {frame : Frame}

/-- A call of one of these classes and of the method that owns the line of the frame covers that
line at the depth of the level. -/
def HasCallIn (t : Target) (classes : String → Prop) (e : Execution R) (s : FrameState)
    (level : UInt64) (frame : Frame) : Prop :=
  ∃ method, t.program.methodAtLine? frame.className frame.line = some method ∧
    ∃ call ∈ e.methodCalls, classes call.className ∧
      call.fits method frame.line (t.depth s level) = true

/-- The line of the frame has an owner and goals, and a call at the depth of the level has a caller
to continue: the test or the end of a chain. -/
def Matchable (t : Target) (s : FrameState) (level : UInt64) (frame : Frame) : Prop :=
  (∃ goals, t.lineGoals frame.className frame.line = .ok goals) ∧
    (∃ method, t.program.methodAtLine? frame.className frame.line = some method) ∧
    (t.depth s level = 1 ∨
      1 < t.depth s level ∧ t.depth s level < 2 ^ 32 ∧ ∃ chain ∈ s.chains.toList, chain ≠ [])

theorem matchFrame_reclassed (e : Execution R) (classes : CallRecord → String) :
    t.matchFrame s (e.reclassed classes) frame level = t.matchFrame s e frame level := by
  unfold matchFrame Execution.reclassed
  simp only [Chains.followAll_inClass]

theorem hasMatch_reclassed_iff {e : Execution R} {classes : CallRecord → String} :
    t.HasMatch (e.reclassed classes) s level frame ↔ t.HasMatch e s level frame := by
  rw [← snd_matchFrame_iff, matchFrame_reclassed, snd_matchFrame_iff]

variable [Scale R] [LawfulScale R]

/-- A tracked level counts nothing just if a call matches its frame and its line has goals. -/
theorem evaluateFrame_eq_zero_iff {e : Execution R} (he : e.Nonneg)
    (hf : t.crash.frame? level = some frame) (hi : t.crash.isIrrelevant level = false) :
    (t.evaluateFrame s e level).2 = .ok Scale.zero ↔
      (∃ goals, t.lineGoals frame.className frame.line = .ok goals) ∧
        t.HasMatch e s level frame := by
  constructor
  · intro hv
    refine ⟨?_, hasMatch_of_evaluateFrame he hf hi hv⟩
    rw [evaluateFrame_tracked hf hi] at hv
    cases hg : t.lineGoals frame.className frame.line with
    | error error =>
      rw [hg] at hv
      cases hv
    | ok goals => exact ⟨goals, rfl⟩
  · rintro ⟨⟨goals, hg⟩, hm⟩
    exact evaluateFrame_of_hasMatch hf hi hg hm

theorem evaluateFrame_reclassed_iff {e : Execution R} {classes : CallRecord → String}
    (he : e.Nonneg) (hf : t.crash.frame? level = some frame)
    (hi : t.crash.isIrrelevant level = false) :
    (t.evaluateFrame s (e.reclassed classes) level).2 = .ok Scale.zero ↔
      (t.evaluateFrame s e level).2 = .ok Scale.zero := by
  have he' : (e.reclassed classes).Nonneg := he
  rw [evaluateFrame_eq_zero_iff he' hf hi, evaluateFrame_eq_zero_iff he hf hi,
    hasMatch_reclassed_iff]

theorem exists_evaluateFrame_of_call {method : String} {call : CallRecord}
    (hf : t.crash.frame? level = some frame) (hi : t.crash.isIrrelevant level = false)
    (hgoals : ∃ goals, t.lineGoals frame.className frame.line = .ok goals)
    (hmethod : t.program.methodAtLine? frame.className frame.line = some method)
    (hfits : call.fits method frame.line (t.depth s level) = true)
    (hjoins : call.Joins s.chains (t.depth s level)) :
    ∃ e : Execution R, e.Nonneg ∧ (t.evaluateFrame s e level).2 = .ok Scale.zero := by
  have he : ({ Execution.empty with methodCalls := [call] } : Execution R).Nonneg :=
    Execution.nonneg_of_empty rfl rfl
  exact ⟨_, he, (evaluateFrame_eq_zero_iff he hf hi).2
    ⟨hgoals, method, hmethod, call, List.mem_singleton_self _, hfits, hjoins⟩⟩

theorem exists_evaluateFrame_eq_zero_iff (hf : t.crash.frame? level = some frame)
    (hi : t.crash.isIrrelevant level = false) :
    (∃ e : Execution R, e.Nonneg ∧ (t.evaluateFrame s e level).2 = .ok Scale.zero) ↔
      t.Matchable s level frame := by
  constructor
  · rintro ⟨e, he, hv⟩
    obtain ⟨hgoals, method, hmethod, call, -, hfits, hjoins⟩ :=
      (evaluateFrame_eq_zero_iff he hf hi).1 hv
    refine ⟨hgoals, ⟨method, hmethod⟩, ?_⟩
    rw [CallRecord.fits, decide_eq_true_eq] at hfits
    have hdepth := call.callDepth.toNat_lt
    rcases hjoins with ⟨hone, -⟩ | ⟨hdeep, chain, hchain, hlast⟩
    · exact .inl hone
    · exact .inr ⟨hdeep, by omega, chain, hchain, by grind⟩
  · rintro ⟨hgoals, ⟨method, hmethod⟩, hjoins⟩
    -- One call at the depth of the level is enough, by the test or by the end of a chain.
    have hfits (caller : UInt64) (depth : UInt32) (hdepth : (depth.toNat : Int) = t.depth s level) :
        (⟨1, caller, depth, "", method, .ofList [frame.line]⟩ : CallRecord).fits method frame.line
          (t.depth s level) = true := by
      rw [CallRecord.fits, decide_eq_true_eq]
      exact ⟨hdepth, rfl, OrderedSet.mem_ofList.2 (List.mem_singleton_self _)⟩
    rcases hjoins with hone | ⟨hdeep, hlt, chain, hchain, hne⟩
    · exact exists_evaluateFrame_of_call hf hi hgoals hmethod
        (hfits CallRecord.testId 1 hone.symm) (.inl ⟨hone, rfl⟩)
    · have hdepth : ((UInt32.ofNat (t.depth s level).toNat).toNat : Int) = t.depth s level := by
        rw [UInt32.toNat_ofNat_of_lt' (by rw [UInt32.size]; omega)]
        omega
      exact exists_evaluateFrame_of_call hf hi hgoals hmethod
        (hfits (chain.getLast hne) _ hdepth)
        (.inr ⟨hdeep, chain, hchain, List.getLast?_eq_some_getLast hne⟩)

/-- A level counts nothing just if some call matches its frame, and whatever the classes in the
records are, the same calls match and the same is carried to the next frame. So its own class was
called for sure only if no call of another class fits; and wherever some execution counts nothing,
one does that calls the class nowhere. -/
theorem evaluateFrame_classes (hf : t.crash.frame? level = some frame)
    (hi : t.crash.isIrrelevant level = false) :
    (∀ e : Execution R, e.Nonneg → ((t.evaluateFrame s e level).2 = .ok Scale.zero ↔
      (∃ goals, t.lineGoals frame.className frame.line = .ok goals) ∧
        t.HasMatch e s level frame)) ∧
    (∀ e : Execution R, ∀ classes, e.Nonneg →
      (t.evaluateFrame s (e.reclassed classes) level).1 = (t.evaluateFrame s e level).1 ∧
      ((t.evaluateFrame s (e.reclassed classes) level).2 = .ok Scale.zero ↔
        (t.evaluateFrame s e level).2 = .ok Scale.zero)) ∧
    (∀ e : Execution R, e.Nonneg → (t.evaluateFrame s e level).2 = .ok Scale.zero →
      t.HasCallIn (· = frame.className) e s level frame ∨
        t.HasCallIn (· ≠ frame.className) e s level frame) ∧
    ((∀ e : Execution R, e.Nonneg → e.Named →
        (t.evaluateFrame s e level).2 = .ok Scale.zero →
          t.HasCallIn (· = frame.className) e s level frame) ↔
      ¬ t.Matchable s level frame) := by
  rw [← exists_evaluateFrame_eq_zero_iff (R := R) hf hi]
  refine ⟨fun e he => evaluateFrame_eq_zero_iff he hf hi,
    fun e classes he => ⟨?_, evaluateFrame_reclassed_iff he hf hi⟩, fun e he hv => ?_, ?_, ?_⟩
  · rw [evaluateFrame_tracked hf hi, evaluateFrame_tracked hf hi, matchFrame_reclassed]
  · obtain ⟨method, hmethod, call, hcall, hfits, -⟩ := hasMatch_of_evaluateFrame he hf hi hv
    by_cases hown : call.className = frame.className
    · exact .inl ⟨method, hmethod, call, hcall, hown, hfits⟩
    · exact .inr ⟨method, hmethod, call, hcall, hown, hfits⟩
  · -- If anything is counted nothing, it still is with all calls in a class of another name.
    rintro hown ⟨e, he, hv⟩
    have hnamed : (e.reclassed fun _ => frame.className ++ "x").Named := by
      intro call hcall
      obtain ⟨call, -, rfl⟩ := List.mem_map.1 hcall
      simp [CallRecord.inClass]
    obtain ⟨method, -, call, hcall, hclass, -⟩ :=
      hown (e.reclassed _) he hnamed ((evaluateFrame_reclassed_iff he hf hi).2 hv)
    obtain ⟨call, -, rfl⟩ := List.mem_map.1 hcall
    simp [CallRecord.inClass] at hclass
  · exact fun hnone e he _ hv => absurd ⟨e, he, hv⟩ hnone

/-! ## A class with a method of the same name -/

/-- The crash in a method whose line no other method of the class shares. -/
def shop : Target where
  crash := (sharing "total").crash
  program := (Program.empty.insertGraph (lineGraph "total")).markRoot ⟨"acme.Shop", "total", 0⟩
  session := .default

/-- An execution that calls a method of that name in another class. -/
def cartRun : Execution Float := .showing Float ⟨"acme.Cart", "total", 10⟩

theorem shop_method : shop.program.methodAtLine? "acme.Shop" 10 = some "total" := by
  have hmethods : shop.program.methodsAtLine "acme.Shop" 10 = ["total"] := by decide
  rw [Program.methodAtLine?, hmethods, List.mergeSort_singleton]
  rfl

theorem shop_goals : shop.lineGoals "acme.Shop" 10 = .ok [.root "acme.Shop" "total"] := by
  rw [lineGoals, shop_method]
  rfl

theorem cartRun_nonneg : cartRun.Nonneg := Execution.nonneg_of_empty rfl rfl

/-- With the class of the frame in its record the call counts the same, and so it does with any
other class. -/
theorem shop_matchable :
    shop.crash.frame? 1 = some totalFrame ∧ shop.crash.isIrrelevant 1 = false ∧
      shop.Matchable .initial 1 totalFrame ∧
      ((shop.evaluateFrame .initial (Execution.showing Float totalFrame) 1).2 = .ok Scale.zero ↔
        (shop.evaluateFrame .initial cartRun 1).2 = .ok Scale.zero) ∧
      ¬ ∀ e : Execution Float, e.Nonneg → e.Named →
        (shop.evaluateFrame .initial e 1).2 = .ok Scale.zero →
          shop.HasCallIn (· = "acme.Shop") e .initial 1 totalFrame := by
  have hf : shop.crash.frame? 1 = some totalFrame := by decide
  have hi : shop.crash.isIrrelevant 1 = false := by decide
  have hmatchable : shop.Matchable .initial 1 totalFrame :=
    ⟨⟨_, shop_goals⟩, ⟨_, shop_method⟩, .inl depth_initial⟩
  obtain ⟨-, hclasses, -, hown⟩ :=
    @evaluateFrame_classes Float shop .initial 1 totalFrame _ _ hf hi
  exact ⟨hf, hi, hmatchable, (hclasses cartRun (fun _ => "acme.Shop") cartRun_nonneg).2,
    fun h => hown.1 h hmatchable⟩

/-- The only call is of another class, and still the frame counts as reached, although the method
of the frame was not entered. -/
theorem shop_cart_counted :
    shop.crash.frame? 1 = some totalFrame ∧ shop.crash.isIrrelevant 1 = false ∧
      cartRun.Nonneg ∧ cartRun.Named ∧
      (shop.evaluateFrame .initial cartRun 1).2 = .ok Scale.zero ∧
      ¬ shop.HasCallIn (· = "acme.Shop") cartRun .initial 1 totalFrame ∧
      cartRun.entered "acme.Shop" "total" = false := by
  have hcall {call : CallRecord} (h : call ∈ cartRun.methodCalls) :
      call = ⟨1, CallRecord.testId, 1, "acme.Cart", "total", .ofList [10]⟩ :=
    List.mem_singleton.1 h
  have hmatch : shop.HasMatch cartRun .initial 1 totalFrame :=
    hasMatch_initial_iff.2 ⟨_, shop_method, _, List.mem_singleton_self _, rfl, rfl, rfl, by decide⟩
  refine ⟨by decide, by decide, cartRun_nonneg, fun call h => by rw [hcall h]; decide,
    evaluateFrame_of_hasMatch (by decide) (by decide) shop_goals hmatch, ?_, by decide⟩
  rintro ⟨method, -, call, h, hclass, -⟩
  rw [hcall h] at hclass
  exact absurd hclass (by decide)

end Target

end CrashSearch
