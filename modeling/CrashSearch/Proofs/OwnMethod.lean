import CrashSearch.Proofs.FrameRange
import CrashSearch.Proofs.LineOwners

/-!
# Frames and their own methods

A frame names a method, but it is tracked against the method that owns its line. Where several
methods of the class cover the line, the one that comes first by name owns it, and a call of the
method that the frame names is not looked for if that is another one.

## Main definitions

* `Execution.Shows`: the test called the method of a frame, and the call covered its line.

## Main statements

* `Target.evaluateFrame_of_hasMatch`, `Target.hasMatch_of_evaluateFrame`: a tracked level counts
  nothing just if a call matches its frame.
* `Target.evaluateFrame_own_iff`: when every call of the method of a frame matches it.
-/

namespace CrashSearch

variable {R : Type}

/-- The test called the method of the frame, and the call covered the line of the frame. -/
def Execution.Shows (e : Execution R) (frame : Frame) : Prop :=
  ∃ call ∈ e.methodCalls, call.callDepth = 1 ∧ call.callerId = CallRecord.testId ∧
    call.className = frame.className ∧ call.methodName = frame.methodName ∧
    frame.line ∈ call.lineTrace

/-- An execution that consists of one call of the method of a frame. -/
def Execution.showing (R : Type) (frame : Frame) : Execution R :=
  { Execution.empty with
    methodCalls := [⟨1, CallRecord.testId, 1, frame.className, frame.methodName,
      .ofList [frame.line]⟩] }

theorem Execution.shows_showing (frame : Frame) : (showing R frame).Shows frame :=
  ⟨_, List.mem_cons_self, rfl, rfl, rfl, rfl, OrderedSet.mem_ofList.2 List.mem_cons_self⟩

namespace Target

variable {t : Target} {e : Execution R} {s : FrameState} {level : UInt64} {frame : Frame}

theorem depth_initial : t.depth .initial t.crash.targetLevel = 1 := by
  rw [depth_eq_bmod, FrameState.passed_initial, Int.sub_self]
  decide

/-- At the target level the calls of the test itself are looked for. -/
theorem hasMatch_initial_iff : t.HasMatch e .initial t.crash.targetLevel frame ↔
    ∃ method, t.program.methodAtLine? frame.className frame.line = some method ∧
      ∃ call ∈ e.methodCalls, call.callDepth = 1 ∧ call.callerId = CallRecord.testId ∧
        call.methodName = method ∧ frame.line ∈ call.lineTrace := by
  rw [HasMatch, depth_initial]
  refine exists_congr fun method => and_congr_right fun _ => exists_congr fun call =>
    and_congr_right fun _ => ?_
  have hdepth : (call.callDepth.toNat : Int) = 1 ↔ call.callDepth = 1 := by
    rw [← UInt32.toNat_inj]
    exact Nat.cast_eq_one
  rw [CallRecord.fits, decide_eq_true_eq, hdepth, CallRecord.Joins]
  grind [FrameState.initial]

theorem exists_lineGoals (hp : t.program.Built) {className : String} {line : UInt32}
    (hc : t.program.Controlled className line) :
    ∃ goals, t.lineGoals className line = .ok goals := by
  rcases lineGoals_cases hp with ⟨ho, -⟩ | ⟨-, hn, -⟩ | ⟨-, goals, -, hg⟩
  · exact absurd hc.owns ho
  · exact absurd hc hn
  · exact ⟨goals, hg⟩

variable [Scale R]

theorem evaluateFrame_of_hasMatch {goals : List Goal} (hf : t.crash.frame? level = some frame)
    (hi : t.crash.isIrrelevant level = false)
    (hg : t.lineGoals frame.className frame.line = .ok goals) (hm : t.HasMatch e s level frame) :
    (t.evaluateFrame s e level).2 = .ok Scale.zero := by
  rw [evaluateFrame_tracked hf hi, snd_matchFrame_iff.2 hm, hg]
  rfl

theorem hasMatch_of_evaluateFrame [LawfulScale R] (he : e.Nonneg)
    (hf : t.crash.frame? level = some frame) (hi : t.crash.isIrrelevant level = false)
    (hv : (t.evaluateFrame s e level).2 = .ok Scale.zero) : t.HasMatch e s level frame := by
  rw [← snd_matchFrame_iff]
  have hgo : goesOn (t.evaluateFrame s e level).2 = true := by
    rw [hv]
    exact LawfulScale.zero_beq_zero
  exact matched_of_goesOn he hf hi hgo

/-- Take a frame at the target level whose method covers its line and whose line is controlled
there. Every execution in which the test calls that method on that line counts nothing just if no
method of the class that covers the line comes first by name. -/
theorem evaluateFrame_own_iff [LawfulScale R] (hp : t.program.Built) {g : FlowGraph}
    {i : InstructionId} (hf : t.crash.frame? t.crash.targetLevel = some frame)
    (hi : t.crash.isIrrelevant t.crash.targetLevel = false)
    (hg : t.program.graph? frame.className frame.methodName = some g)
    (hfirst : g.firstAtLine? frame.line = some i)
    (hcontrolled : t.program.dependencies i ≠ [] ∨ t.program.isRoot i = true) :
    (∀ e : Execution R, e.Shows frame →
      (t.evaluateFrame .initial e t.crash.targetLevel).2 = .ok Scale.zero) ↔
      ∀ other, t.program.Covers frame.className frame.line other → frame.methodName ≤ other := by
  have hcovers : t.program.Covers frame.className frame.line frame.methodName :=
    ⟨g, hg, FlowGraph.containsLine_of_firstAtLine? hfirst⟩
  constructor
  · intro hall
    -- The execution with nothing but that one call has to match the frame.
    have hm := hasMatch_of_evaluateFrame (Execution.nonneg_of_empty rfl rfl) hf hi
      (hall _ (Execution.shows_showing frame))
    obtain ⟨method, hmethod, call, hcall, -, -, hname, -⟩ := hasMatch_initial_iff.1 hm
    obtain rfl := List.mem_singleton.1 hcall
    obtain rfl : frame.methodName = method := hname
    exact (hp.methodAtLine?_eq_some_iff.1 hmethod).2
  · intro hleast e he
    have hmethod := hp.methodAtLine?_eq_some_iff.2 ⟨hcovers, hleast⟩
    have hfirst : t.program.firstAtLine? frame.className frame.methodName frame.line = some i := by
      rw [Program.firstAtLine?, hg]
      exact hfirst
    obtain ⟨goals, hgoals⟩ := exists_lineGoals hp ⟨_, i, hmethod, hfirst, hcontrolled⟩
    obtain ⟨call, hcall, hdepth, hcaller, -, hname, hline⟩ := he
    exact evaluateFrame_of_hasMatch hf hi hgoals
      (hasMatch_initial_iff.2 ⟨_, hmethod, call, hcall, hdepth, hcaller, hname, hline⟩)

/-! ## Two methods on one line -/

/-- The one line of a method, which another method of the class shares. -/
def lineGraph (method : String) : FlowGraph :=
  .make "acme.Shop" method [⟨0, some 10, .plain⟩, ⟨1, some 10, .return⟩]

def totalFrame : Frame := ⟨"acme.Shop", "total", 10⟩

/-- The crash of a method that shares its line with another one. -/
def sharing (other : String) : Target where
  crash := ⟨"E", [totalFrame], 1, .empty, Nat.one_pos, by decide⟩
  program := (((Program.empty.insertGraph (lineGraph "total")).insertGraph
    (lineGraph other)).markRoot ⟨"acme.Shop", "total", 0⟩).markRoot ⟨"acme.Shop", other, 0⟩
  session := .default

theorem built_sharing (other : String) : (sharing other).program.Built :=
  .markRoot _ (.markRoot _ (.insertGraph _ (.insertGraph _ .empty)))

/-- The other method comes behind by name, so the call of the frame's own method counts. -/
theorem sharing_zip_own :
    (sharing "zip").program.Built ∧ (sharing "zip").crash.frame? 1 = some totalFrame ∧
      (sharing "zip").crash.isIrrelevant 1 = false ∧
      (sharing "zip").program.graph? "acme.Shop" "total" = some (lineGraph "total") ∧
      (lineGraph "total").firstAtLine? 10 = some ⟨"acme.Shop", "total", 0⟩ ∧
      (sharing "zip").program.isRoot ⟨"acme.Shop", "total", 0⟩ = true ∧
      (sharing "zip").program.Covers "acme.Shop" 10 "zip" ∧
      ((sharing "zip").evaluateFrame .initial (Execution.showing Float totalFrame) 1).2 =
        .ok Scale.zero := by
  have hp := built_sharing "zip"
  have hmethods : (sharing "zip").program.methodsAtLine "acme.Shop" 10 = ["zip", "total"] := by
    decide
  have hleast : ∀ other, (sharing "zip").program.Covers "acme.Shop" 10 other →
      "total" ≤ other := by
    intro other ho
    rw [← hp.mem_methodsAtLine_iff, hmethods] at ho
    revert other
    decide
  have hall := (@evaluateFrame_own_iff Float (sharing "zip") totalFrame _ _ hp
    (lineGraph "total") ⟨"acme.Shop", "total", 0⟩ (by decide) (by decide) (by decide) (by decide)
    (.inr (by decide))).2 hleast
  exact ⟨hp, by decide, by decide, by decide, by decide, by decide,
    ⟨lineGraph "zip", by decide, by decide⟩, hall _ (Execution.shows_showing _)⟩

/-- The other method comes first by name: the call of the frame's own method on its line is passed
over, and the frame is as far away as a method that was not entered. -/
theorem sharing_lambda_missed :
    (sharing "lambda$total$0").program.Built ∧
      (sharing "lambda$total$0").crash.frame? 1 = some totalFrame ∧
      (sharing "lambda$total$0").crash.isIrrelevant 1 = false ∧
      (sharing "lambda$total$0").program.graph? "acme.Shop" "total" = some (lineGraph "total") ∧
      (lineGraph "total").firstAtLine? 10 = some ⟨"acme.Shop", "total", 0⟩ ∧
      (sharing "lambda$total$0").program.isRoot ⟨"acme.Shop", "total", 0⟩ = true ∧
      (Execution.showing Float totalFrame).Shows totalFrame ∧
      ((sharing "lambda$total$0").evaluateFrame .initial
        (Execution.showing Float totalFrame) 1).2 ≠ .ok Scale.zero := by
  have hp := built_sharing "lambda$total$0"
  refine ⟨hp, by decide, by decide, by decide, by decide, by decide,
    Execution.shows_showing _, fun hv => ?_⟩
  have hm : (sharing "lambda$total$0").HasMatch (Execution.showing Float totalFrame) .initial 1
      totalFrame :=
    hasMatch_of_evaluateFrame (Execution.nonneg_of_empty rfl rfl) (by decide) (by decide) hv
  obtain ⟨method, hmethod, call, hcall, -, -, hname, -⟩ := hasMatch_initial_iff.1 hm
  obtain rfl := List.mem_singleton.1 hcall
  obtain rfl : "total" = method := hname
  have hle : "total" ≤ "lambda$total$0" := (hp.methodAtLine?_eq_some_iff.1 hmethod).2 _
    ⟨lineGraph "lambda$total$0", by decide, by decide⟩
  exact absurd hle (by decide)

end Target

end CrashSearch
