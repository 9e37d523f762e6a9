import CrashSearch.Proofs.ExactScale
import CrashSearch.Trace.Similarity

/-!
# Frames that do not count

While two traces are aligned, frames of the reflection machinery in one and frames of
instrumentation in the other are passed over. The place from which the search for the next match
goes on is a place among all generated frames, those that are passed over included; still the
alignment is the one of the frames that count, aligned without passing over any.

## Main definitions

* `Session.countedTargets`, `Session.countedGenerated`: the frames that count on either side.
* `plainAlignment`: the alignment that passes over nothing.

## Main statements

* `closest_filter`: the closest frame, and where to go on, among the frames that count.
* `alignment_filter`: the alignment of the frames that count.
* `StackTrace.similarity_eq_plain`: the similarity depends on the frames that count alone.
-/

namespace CrashSearch

variable {R : Type} [Scale R]

/-- The frames of a trace that count. -/
def Session.countedTargets (session : Session) (targets : List Frame) : List Frame :=
  targets.filter (!session.isReflection ·.className)

/-- The frames of an execution that count. -/
def Session.countedGenerated (session : Session) (generated : List Frame) : List Frame :=
  generated.filter (!session.isInstrumentation ·.className)

/-- Adds to `sum` the distances of all target frames, each to its closest generated frame. -/
def plainAlignment (sum : R) (generated targets : List Frame) : R :=
  alignment (fun _ => false) (fun _ => false) sum generated targets

/-- A scan finds the same distance among the frames that are not ignored. Where it stops the two
lists differ only in ignored frames. -/
theorem closest_filter (distance : Frame → R) (ignored : Frame → Bool) (best : R)
    (start generated : List Frame) :
    closest distance (fun _ => false) best (start.filter (!ignored ·))
        (generated.filter (!ignored ·)) =
      ((closest distance ignored best start generated).1,
        (closest distance ignored best start generated).2.filter (!ignored ·)) := by
  fun_induction closest distance ignored best start generated with
  | case1 best start => rfl
  | case2 best start frame rest hignored ih =>
    rw [List.filter_cons_of_neg (by simp [hignored])]
    exact ih
  | case3 best start frame rest hcounts hless ih =>
    have hcons : (frame :: rest).filter (!ignored ·) = frame :: rest.filter (!ignored ·) :=
      List.filter_cons_of_pos (by simpa using hcounts)
    rw [hcons] at ih ⊢
    rw [closest, if_neg Bool.false_ne_true, if_pos hless]
    exact ih
  | case4 best start frame rest hcounts hless ih =>
    rw [List.filter_cons_of_pos (by simpa using hcounts), closest, if_neg Bool.false_ne_true,
      if_neg hless]
    exact ih

theorem alignment_filter (skipped ignored : Frame → Bool) (sum : R)
    (generated targets : List Frame) :
    plainAlignment sum (generated.filter (!ignored ·)) (targets.filter (!skipped ·)) =
      alignment skipped ignored sum generated targets := by
  unfold plainAlignment
  -- The induction follows the target frames, each of which starts from what the last one left.
  fun_induction alignment skipped ignored sum generated targets with
  | case1 sum generated => rfl
  | case2 sum generated target rest hskipped ih =>
    rw [List.filter_cons_of_neg (by simp [hskipped])]
    exact ih
  | case3 sum generated target rest hcounts best start hclosest ih =>
    rw [List.filter_cons_of_pos (by simpa using hcounts), alignment, if_neg Bool.false_ne_true,
      closest_filter, hclosest]
    exact ih

/-- The similarity is that of the frames that count, aligned without any rule for those that do not.
So it is the same for all executions whose frames differ in instrumentation only, wherever such
frames are put in or taken out. -/
theorem StackTrace.similarity_eq_plain (session : Session) (t : StackTrace) :
    (∀ generated, t.similarity session generated = (Scale.normalize <|
      plainAlignment Scale.zero (session.countedGenerated generated)
        (session.countedTargets t.frames) : R)) ∧
      (∀ generated other, session.countedGenerated generated = session.countedGenerated other →
        (t.similarity session generated : R) = t.similarity session other) ∧
      ∀ before injected after,
        (∀ frame ∈ injected, session.isInstrumentation frame.className = true) →
        (t.similarity session (before ++ injected ++ after) : R) =
          t.similarity session (before ++ after) := by
  have hplain : ∀ generated, t.similarity session generated = (Scale.normalize <|
      plainAlignment Scale.zero (session.countedGenerated generated)
        (session.countedTargets t.frames) : R) := fun generated =>
    congrArg Scale.normalize (alignment_filter _ _ _ _ _).symm
  have hsame : ∀ generated other,
      session.countedGenerated generated = session.countedGenerated other →
      (t.similarity session generated : R) = t.similarity session other := by
    intro generated other h
    rw [hplain, hplain, h]
  refine ⟨hplain, hsame, fun before injected after hinjected => hsame _ _ ?_⟩
  have hnone : session.countedGenerated injected = [] :=
    List.filter_eq_nil_iff.2 fun frame hframe => by simp [hinjected frame hframe]
  simp only [Session.countedGenerated, List.filter_append] at hnone ⊢
  rw [hnone, List.append_nil]

/-- A crash that was reached through reflection. -/
def reflected : StackTrace :=
  ⟨"E", [⟨"acme.Parser", "check", 42⟩, ⟨"sun.reflect.Accessor", "call", 1⟩,
    ⟨"acme.App", "main", 5⟩], 1, .empty, Nat.one_pos, by decide⟩

/-- The frames of an agent, in front of the first match and between the two, do not count, nor does
the frame of the accessor: what is left is the gap of two lines. -/
theorem reflected_similarity_eq :
    let agent : Frame := ⟨"org.evosuite.Agent", "enter", 1⟩
    let check : Frame := ⟨"acme.Parser", "check", 40⟩
    let main : Frame := ⟨"acme.App", "main", 5⟩
    Session.default.countedGenerated [agent, check, agent, agent, main] =
        Session.default.countedGenerated [check, main] ∧
      (∀ frame ∈ [agent], Session.default.isInstrumentation frame.className = true) ∧
      (reflected.similarity .default [agent, check, agent, agent, main] : ℚ) = 2 / 7 ∧
      (reflected.similarity .default ([check] ++ [agent] ++ [main]) : ℚ) = 2 / 7 := by
  intro agent check main
  have hcounted : Session.default.countedGenerated [agent, check, agent, agent, main] =
      Session.default.countedGenerated [check, main] := by decide +kernel
  have hagent : ∀ frame ∈ [agent],
      Session.default.isInstrumentation frame.className = true := by decide +kernel
  have hplain : (reflected.similarity .default [check, main] : ℚ) = 2 / 7 := by decide +kernel
  obtain ⟨-, hsame, hinjected⟩ := @StackTrace.similarity_eq_plain ℚ _ .default reflected
  exact ⟨hcounted, hagent, (hsame _ _ hcounted).trans hplain,
    (hinjected [check] [agent] [main] hagent).trans hplain⟩

end CrashSearch
