import CrashSearch.Proofs.ExactScale
import CrashSearch.Trace.Similarity
import Mathlib.Data.List.Forall2

/-!
# Exact alignments

The alignment of two traces matches each target frame with the first of the closest frames from the
last match on, and never takes a match back. Still it finds an exact alignment wherever there is
one: a frame that is matched earlier leaves more frames for those behind it.

Distances are exact numbers here.

## Main definitions

* `Frame.MatchesExactly`: a generated frame is the one that a target frame asks for.
* `AlignsExactly`: the target frames have exact matches, none in front of the one before it.

## Main statements

* `Frame.distance_eq_zero_iff`: the distance is zero just for exact matches.
* `closest_cases`: the closest frame is the first exact match, if there is one.
* `alignsExactly_append_cons_iff`: to match a frame as early as possible loses no exact alignment.
* `StackTrace.similarity_eq_zero_iff`: the similarity is zero just if there is an exact alignment.
-/

namespace CrashSearch

open Scale (zero_eq ofNat_nonneg ofNat_eq_zero_iff normalize_nonneg normalize_eq_zero_iff)

/-! ## Exact matches -/

namespace Frame

/-- The generated frame shows the method and the line of the target frame, in its class or, if the
target frame belongs to an inner class, in the class that its name begins with. -/
def MatchesExactly (target generated : Frame) : Prop :=
  generated.methodName = target.methodName ∧ generated.line = target.line ∧
    (generated.className = target.className ∨ '$' ∉ generated.className.toList ∧
      ∃ inner, target.className.toList = generated.className.toList ++ '$' :: inner)

theorem enclosingClass_eq_iff {inner outer : String} :
    '$' ∈ inner.toList ∧ enclosingClass inner = outer ↔
      '$' ∉ outer.toList ∧ ∃ rest, inner.toList = outer.toList ++ '$' :: rest := by
  have htake : ∀ before rest : List Char, '$' ∉ before →
      (before ++ '$' :: rest).takeWhile (· ≠ '$') = before := by
    intro before rest hbefore
    rw [List.takeWhile_append_of_pos (by grind)]
    simp
  constructor
  · rintro ⟨hmem, rfl⟩
    obtain ⟨before, rest, hinner, hbefore⟩ := List.eq_append_cons_of_mem hmem
    rw [enclosingClass, hinner, htake before rest hbefore, String.toList_ofList]
    exact ⟨hbefore, rest, rfl⟩
  · rintro ⟨houter, rest, hinner⟩
    rw [enclosingClass, hinner, htake _ rest houter, String.ofList_toList]
    exact ⟨by simp, rfl⟩

theorem sameClass_iff {target generated : Frame} : sameClass target generated = true ↔
    generated.className = target.className ∨ '$' ∉ generated.className.toList ∧
      ∃ inner, target.className.toList = generated.className.toList ++ '$' :: inner := by
  rw [sameClass, decide_eq_true_iff, enclosingClass_eq_iff]
  exact or_congr_left eq_comm

theorem lineGap_eq_zero_iff {target generated : Frame} :
    lineGap target generated = 0 ↔ generated.line = target.line := by
  rw [← UInt32.toNat_inj, lineGap]
  omega

theorem distance_nonneg (target generated : Frame) : 0 ≤ (distance target generated : ℚ) := by
  apply normalize_nonneg
  split_ifs
  · exact normalize_nonneg (ofNat_nonneg _)
  · exact ofNat_nonneg 2
  · exact ofNat_nonneg 3

theorem distance_eq_zero_iff {target generated : Frame} :
    distance target generated = (0 : ℚ) ↔ target.MatchesExactly generated := by
  unfold distance MatchesExactly
  rw [← sameClass_iff]
  split_ifs with hclass hmethod
  · rw [normalize_eq_zero_iff (normalize_nonneg (ofNat_nonneg _)),
      normalize_eq_zero_iff (ofNat_nonneg _), ofNat_eq_zero_iff, lineGap_eq_zero_iff]
    simp [hclass, hmethod]
  · rw [normalize_eq_zero_iff (ofNat_nonneg 2), ofNat_eq_zero_iff]
    simp [Ne.symm hmethod]
  · rw [normalize_eq_zero_iff (ofNat_nonneg 3), ofNat_eq_zero_iff]
    simp [hclass]

/-- An inner class may also show as the class around it. -/
example : MatchesExactly ⟨"acme.Task$1", "run", 7⟩ ⟨"acme.Task", "run", 7⟩ :=
  distance_eq_zero_iff.1 (by decide +kernel)

end Frame

/-! ## The closest frame -/

variable {ignored : Frame → Bool} {target : Frame} {targets generated : List Frame}

/-- The frame counts, and is an exact match of the target frame. -/
def ExactMatch (ignored : Frame → Bool) (target frame : Frame) : Prop :=
  ignored frame = false ∧ target.MatchesExactly frame

/-- Nothing is closer than an exact match. -/
theorem closest_zero (start : List Frame) :
    closest target.distance ignored (0 : ℚ) start generated = (0, start) := by
  induction generated with
  | nil => rfl
  | cons frame rest ih =>
    rw [closest, if_neg (not_lt.2 (Frame.distance_nonneg target frame)), ih, ite_self]

/-- Either there is no exact match, or the first one is found. -/
theorem closest_cases (ignored : Frame → Bool) (target : Frame) {best : ℚ} (hbest : 0 < best)
    (start generated : List Frame) :
    ((∀ frame ∈ generated, ¬ ExactMatch ignored target frame) ∧
        0 < (closest target.distance ignored best start generated).1) ∨
      ∃ before frame rest, generated = before ++ frame :: rest ∧
        (∀ other ∈ before, ¬ ExactMatch ignored target other) ∧
        ExactMatch ignored target frame ∧
        closest target.distance ignored best start generated = (0, frame :: rest) := by
  induction generated generalizing best start with
  | nil => exact .inl ⟨by simp, hbest⟩
  | cons frame rest ih =>
    by_cases hexact : ExactMatch ignored target frame
    · have hzero := Frame.distance_eq_zero_iff.2 hexact.2
      refine .inr ⟨[], frame, rest, rfl, by simp, hexact, ?_⟩
      rw [closest, hexact.1, hzero]
      simp [hbest, closest_zero]
    · -- Whatever becomes of the frame, the least distance so far stays above zero.
      obtain ⟨next, start', hnext, hstep⟩ : ∃ next start', 0 < next ∧
          closest target.distance ignored best start (frame :: rest) =
            closest target.distance ignored next start' rest := by
        rw [closest]
        split_ifs with hignored hless
        · exact ⟨best, start, hbest, rfl⟩
        · refine ⟨_, _, (Frame.distance_nonneg target frame).lt_of_ne ?_, rfl⟩
          intro hzero
          exact hexact ⟨by simpa using hignored, Frame.distance_eq_zero_iff.1 hzero.symm⟩
        · exact ⟨best, start, hbest, rfl⟩
      rw [hstep]
      rcases ih hnext start' with ⟨hnone, hpos⟩ | ⟨before, found, after, rfl, hbefore, hfound, heq⟩
      · exact .inl ⟨by simpa [hexact] using hnone, hpos⟩
      · have hbefore : ∀ other ∈ frame :: before, ¬ ExactMatch ignored target other := by
          simpa [hexact] using hbefore
        exact .inr ⟨frame :: before, found, after, rfl, hbefore, hfound, heq⟩

theorem closest_nonneg {best : ℚ} (hbest : 0 < best) (start : List Frame) :
    0 ≤ (closest target.distance ignored best start generated).1 := by
  rcases closest_cases ignored target hbest start generated with ⟨-, hpos⟩ | ⟨_, _, _, -, -, -, heq⟩
  · exact hpos.le
  · rw [heq]

/-! ## Alignments -/

/-- The target frames have exact matches among the generated ones, each at or behind that of the
frame before it. -/
inductive AlignsExactly (ignored : Frame → Bool) : List Frame → List Frame → Prop where
  | done (generated : List Frame) : AlignsExactly ignored generated []
  | here {target frame : Frame} {rest targets : List Frame}
      (found : ExactMatch ignored target frame)
      (aligns : AlignsExactly ignored (frame :: rest) targets) :
      AlignsExactly ignored (frame :: rest) (target :: targets)
  | later {frame : Frame} {rest targets : List Frame}
      (aligns : AlignsExactly ignored rest targets) :
      AlignsExactly ignored (frame :: rest) targets

namespace AlignsExactly

/-- An alignment stays one when more frames stand in front. -/
theorem append_left (h : AlignsExactly ignored generated targets) (before : List Frame) :
    AlignsExactly ignored (before ++ generated) targets := by
  induction before with
  | nil => exact h
  | cons frame before ih => exact .later ih

theorem exists_match (h : AlignsExactly ignored generated (target :: targets)) :
    ∃ frame ∈ generated, ExactMatch ignored target frame := by
  induction generated with
  | nil => cases h
  | cons frame rest ih =>
    cases h with
    | here found => exact ⟨frame, List.mem_cons_self, found⟩
    | later aligns =>
      obtain ⟨found, hmem, hfound⟩ := ih aligns
      exact ⟨found, List.mem_cons_of_mem _ hmem, hfound⟩

theorem tail (h : AlignsExactly ignored generated (target :: targets)) :
    AlignsExactly ignored generated targets := by
  induction generated with
  | nil => cases h
  | cons frame rest ih =>
    cases h with
    | here _ aligns => exact aligns
    | later aligns => exact .later (ih aligns)

/-- The matches stand at positions that never decrease. -/
theorem exists_positions (h : AlignsExactly ignored generated targets) :
    ∃ positions : List Nat, positions.Pairwise (· ≤ ·) ∧
      List.Forall₂ (fun target i => ∃ frame, generated[i]? = some frame ∧
        ExactMatch ignored target frame) targets positions := by
  induction h with
  | done generated => exact ⟨[], .nil, .nil⟩
  | here found _ ih =>
    obtain ⟨positions, hsorted, hmatches⟩ := ih
    refine ⟨0 :: positions, List.pairwise_cons.2 ⟨fun _ _ => Nat.zero_le _, hsorted⟩, ?_⟩
    exact .cons ⟨_, rfl, found⟩ hmatches
  | later _ ih =>
    obtain ⟨positions, hsorted, hmatches⟩ := ih
    refine ⟨positions.map (· + 1), List.pairwise_map.2 (hsorted.imp Nat.succ_le_succ), ?_⟩
    rw [List.forall₂_map_right_iff]
    exact hmatches

/-- Matches at positions from `first` on that never decrease align the frames from there on. -/
theorem of_positions {first : Nat} {positions : List Nat}
    (hsorted : (first :: positions).Pairwise (· ≤ ·))
    (hmatches : List.Forall₂ (fun target i => ∃ frame, generated[i]? = some frame ∧
      ExactMatch ignored target frame) targets positions) :
    AlignsExactly ignored (generated.drop first) targets := by
  -- The induction follows the matches; all that is left stands at or behind the last of them.
  induction hmatches generalizing first with
  | nil => exact .done _
  | @cons target i targets positions hmatch _ ih =>
    obtain ⟨frame, hi, hframe⟩ := hmatch
    obtain ⟨hle, hsorted⟩ := List.pairwise_cons.1 hsorted
    obtain ⟨hlt, rfl⟩ := List.getElem?_eq_some_iff.1 hi
    have hdrop : generated.drop first =
        (generated.drop first).take (i - first) ++ generated[i] :: generated.drop (i + 1) := by
      have hfirst : first + (i - first) = i := Nat.add_sub_cancel' (hle i List.mem_cons_self)
      rw [← List.drop_eq_getElem_cons hlt, ← hfirst, ← List.drop_drop, hfirst,
        List.take_append_drop]
    have haligns := ih hsorted
    rw [List.drop_eq_getElem_cons hlt] at haligns
    rw [hdrop]
    exact (AlignsExactly.here hframe haligns).append_left _

end AlignsExactly

/-- Matching a frame as early as possible loses no alignment of those behind it. -/
theorem alignsExactly_append_cons_iff {before rest : List Frame} {frame : Frame}
    (hbefore : ∀ other ∈ before, ¬ ExactMatch ignored target other)
    (hframe : ExactMatch ignored target frame) :
    AlignsExactly ignored (before ++ frame :: rest) (target :: targets) ↔
      AlignsExactly ignored (frame :: rest) targets := by
  constructor
  · intro h
    induction before with
    | nil => exact h.tail
    | cons other before ih =>
      cases h with
      | here found => exact absurd found (hbefore other List.mem_cons_self)
      | later aligns => exact ih (fun other ho => hbefore other (List.mem_cons_of_mem _ ho)) aligns
  · intro h
    exact (AlignsExactly.here hframe h).append_left before

theorem alignment_nonneg (skipped ignored : Frame → Bool) {sum : ℚ} (hsum : 0 ≤ sum)
    (generated targets : List Frame) : 0 ≤ alignment skipped ignored sum generated targets := by
  induction targets generalizing sum generated with
  | nil => exact hsum
  | cons target targets ih =>
    rw [alignment]
    split_ifs
    · exact ih hsum generated
    · exact ih (add_nonneg hsum (closest_nonneg one_pos generated)) _

theorem alignment_eq_zero_iff (skipped ignored : Frame → Bool) {sum : ℚ} (hsum : 0 ≤ sum)
    (generated targets : List Frame) :
    alignment skipped ignored sum generated targets = 0 ↔
      sum = 0 ∧ AlignsExactly ignored generated (targets.filter (!skipped ·)) := by
  induction targets generalizing sum generated with
  | nil => simp [alignment, AlignsExactly.done]
  | cons target targets ih =>
    rw [alignment]
    split_ifs with hskipped
    · rw [ih hsum, List.filter_cons_of_neg (by simpa using hskipped)]
    · rw [List.filter_cons_of_pos (by simpa using hskipped)]
      have hone : (0 : ℚ) < Scale.one := one_pos
      rcases closest_cases ignored target hone generated generated with
        ⟨hnone, hpos⟩ | ⟨before, frame, rest, hgenerated, hbefore, hframe, hclosest⟩
      · rw [ih (by linarith)]
        constructor
        · rintro ⟨hzero, -⟩
          linarith
        · rintro ⟨-, haligns⟩
          obtain ⟨frame, hmem, hframe⟩ := haligns.exists_match
          exact absurd hframe (hnone frame hmem)
      · rw [hclosest]
        dsimp only
        rw [add_zero, ih hsum, hgenerated, alignsExactly_append_cons_iff hbefore hframe]

/-- The similarity of a trace with a list of frames is zero just if the frames of the trace that
count have exact matches in the list, at positions that never decrease. -/
theorem StackTrace.similarity_eq_zero_iff (session : Session) (t : StackTrace)
    (generated : List Frame) :
    t.similarity session generated = (0 : ℚ) ↔
      ∃ positions : List Nat, positions.Pairwise (· ≤ ·) ∧
        List.Forall₂ (fun target i => ∃ frame, generated[i]? = some frame ∧
            session.isInstrumentation frame.className = false ∧ target.MatchesExactly frame)
          (t.frames.filter (!session.isReflection ·.className)) positions := by
  rw [StackTrace.similarity, normalize_eq_zero_iff (alignment_nonneg _ _ zero_eq.ge _ _),
    alignment_eq_zero_iff _ _ zero_eq.ge, and_iff_right zero_eq]
  constructor
  · exact AlignsExactly.exists_positions
  · rintro ⟨positions, hsorted, hmatches⟩
    exact AlignsExactly.of_positions (List.pairwise_cons.2 ⟨fun _ _ => Nat.zero_le _, hsorted⟩)
      hmatches

end CrashSearch
