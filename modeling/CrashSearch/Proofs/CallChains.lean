import CrashSearch.Fitness.Frame
import Mathlib.Data.List.Nodup

/-!
# Chains of calls and the calls of an execution

The records of an execution form a tree. Scanning them for a frame puts the first fitting call of
each caller behind the chain that ends with the caller, so the chains that are kept are the paths
of the tree on which every call but the first is the first fitting one.

## Main definitions

* `IsCallTree`: every call but those of the test was made by a recorded one.
* `Threads`: records that call one another and match the frames one by one.
* `Leads`: the same, and each is the first of its siblings that fits.
* `ChainPool`: the chains kept after some frames.

## Main statements

* `Chains.followAll_deeper`: a scan gives each chain its first fitting continuation.
* `ChainPool.follow`: a scan keeps the pool, and a chain grows just if some records lead on.
-/

namespace CrashSearch

/-- The ids are distinct, the test makes the calls of depth one, and any deeper call was made by
one that is one level less deep. -/
structure IsCallTree (calls : List CallRecord) : Prop where
  distinct : (calls.map (·.methodId)).Nodup
  root : ∀ r ∈ calls, r.callDepth.toNat = 1 → r.callerId = CallRecord.testId
  caller : ∀ r ∈ calls, 1 < r.callDepth.toNat →
    ∃ c ∈ calls, c.methodId = r.callerId ∧ r.callDepth.toNat = c.callDepth.toNat + 1

/-- Who makes the next call: the last one, or else the test. -/
def callerAfter (records : List CallRecord) : UInt64 :=
  (records.getLast?.map (·.methodId)).getD CallRecord.testId

/-- `r` is called by the last of `records`, one level deeper, and covers the line of `frame` in
the method that owns it. -/
structure CallRecord.Continues (p : Program) (calls records : List CallRecord) (frame : Frame)
    (r : CallRecord) : Prop where
  mem : r ∈ calls
  caller : r.callerId = callerAfter records
  depth : r.callDepth.toNat = records.length + 1
  method : p.methodAtLine? frame.className frame.line = some r.methodName
  line : frame.line ∈ r.lineTrace

/-- Records that call one another, starting from the test, one for each frame. -/
inductive Threads (p : Program) (calls : List CallRecord) :
    List Frame → List CallRecord → Prop
  | nil : Threads p calls [] []
  | snoc {frames records frame r} : Threads p calls frames records →
      r.Continues p calls records frame → Threads p calls (frames ++ [frame]) (records ++ [r])

/-- Of the calls with the same caller, `r` is the first that fits. -/
def CallRecord.IsFirst (calls : List CallRecord) (line : UInt32) (r : CallRecord) : Prop :=
  calls.find? (fun c => c.callerId = r.callerId ∧ c.fits r.methodName line r.callDepth.toNat) =
    some r

/-- Threading records of which each but the outermost is the first that fits. -/
inductive Leads (p : Program) (calls : List CallRecord) : List Frame → List CallRecord → Prop
  | nil : Leads p calls [] []
  | snoc {frames records frame r} : Leads p calls frames records →
      r.Continues p calls records frame → (records ≠ [] → r.IsFirst calls frame.line) →
      Leads p calls (frames ++ [frame]) (records ++ [r])

variable {p : Program} {calls records : List CallRecord} {frames : List Frame} {frame : Frame}
  {r r' : CallRecord} {method : String} {line : UInt32} {depth : Nat}

theorem IsCallTree.eq_of_methodId (tree : IsCallTree calls) (hr : r ∈ calls) (hr' : r' ∈ calls)
    (hid : r.methodId = r'.methodId) : r = r' :=
  List.inj_on_of_nodup_map tree.distinct hr hr' hid

/-- No call is made by one of its own depth. -/
theorem IsCallTree.callerId_ne (tree : IsCallTree calls) (hr : r ∈ calls) (hr' : r' ∈ calls)
    (hd : 1 < r.callDepth.toNat) (he : r'.callDepth.toNat = r.callDepth.toNat) :
    r'.methodId ≠ r.callerId := by
  intro hid
  obtain ⟨c, hc, hcid, hcd⟩ := tree.caller r hr hd
  obtain rfl : c = r' := tree.eq_of_methodId hc hr' (hcid.trans hid.symm)
  omega

theorem CallRecord.fits_iff : r.fits method line depth = true ↔
    r.callDepth.toNat = depth ∧ r.methodName = method ∧ line ∈ r.lineTrace := by
  rw [fits, decide_eq_true_iff, Int.natCast_inj]

theorem CallRecord.not_fits_of_deep {depth : Int} (h : depth < 0 ∨ UInt32.size ≤ depth) :
    r.fits method line depth = false := by
  have hlt := r.callDepth.toNat_lt
  unfold UInt32.size at h
  rw [fits, decide_eq_false_iff_not]
  omega

namespace Leads

theorem threads (h : Leads p calls frames records) : Threads p calls frames records := by
  induction h with
  | nil => exact .nil
  | snoc _ hr _ ih => exact ih.snoc hr

theorem length_eq (h : Leads p calls frames records) : records.length = frames.length := by
  induction h with
  | nil => rfl
  | snoc _ _ _ ih => simp [ih]

theorem last (h : Leads p calls frames records) (hr : records.getLast? = some r) :
    r ∈ calls ∧ r.callDepth.toNat = frames.length := by
  cases h with
  | nil => simp at hr
  | snoc hl hc _ =>
    obtain rfl := Option.some.inj (List.getLast?_concat.symm.trans hr)
    exact ⟨hc.mem, by simp [hc.depth, hl.length_eq]⟩

/-- The last step of records that lead through at least one frame. -/
theorem concat (h : Leads p calls (frames ++ [frame]) records) :
    ∃ before r, records = before ++ [r] ∧ Leads p calls frames before ∧
      r.Continues p calls before frame ∧ (before ≠ [] → r.IsFirst calls frame.line) := by
  generalize he : frames ++ [frame] = all at h
  cases h with
  | nil => simp at he
  | snoc hl hc hf =>
    obtain ⟨rfl, hs⟩ := List.append_inj' he rfl
    obtain rfl := List.singleton_inj.1 hs
    exact ⟨_, _, rfl, hl, hc, hf⟩

theorem outer (h : Leads p calls frames records) {outer : List Frame} (ho : outer <+: frames) :
    ∃ records, Leads p calls outer records := by
  induction h with
  | nil => exact ⟨[], List.prefix_nil.1 ho ▸ .nil⟩
  | snoc hl hc hf ih =>
    rcases List.prefix_concat_iff.1 ho with rfl | ho
    · exact ⟨_, hl.snoc hc hf⟩
    · exact ih ho

end Leads

/-! ## A scan for one frame -/

namespace Chains

/-- The first call that fits and is made by the last call of a chain. -/
def next? (calls : List CallRecord) (method : String) (line : UInt32) (depth : Nat)
    (chain : List UInt64) : Option CallRecord :=
  calls.find? fun c => chain.getLast? = some c.callerId ∧ c.fits method line depth

/-- A chain with the call that comes next, if there is one. -/
def grown (calls : List CallRecord) (method : String) (line : UInt32) (depth : Nat)
    (chain : List UInt64) : List UInt64 :=
  chain ++ ((next? calls method line depth chain).map (·.methodId)).toList

/-- What a scan of `calls` leaves of some chains, and whether one of them has grown. -/
def scanned (chains : List (List UInt64)) (method : String) (line : UInt32) (depth : Nat)
    (calls : List CallRecord) : Chains × Bool :=
  (⟨chains.map (grown calls method line depth)⟩,
    chains.any fun chain => (next? calls method line depth chain).isSome)

variable {chains : List (List UInt64)} {chain : List UInt64} {caller id : UInt64}
  {seen rest : List CallRecord}

/-- No call is so deep. -/
theorem followAll_of_deep {depth : Int} (h : depth < 0 ∨ UInt32.size ≤ depth)
    (state : Chains × Bool) : followAll method line depth state calls = state := by
  induction calls with
  | nil => rfl
  | cons r calls ih =>
    have hfits : ¬ r.fits method line depth = true := by
      rw [CallRecord.not_fits_of_deep h]
      exact Bool.noConfusion
    rw [followAll, if_neg hfits, ih]

/-- At a depth reckoned in machine words the same calls are found as at the exact one: where the two
differ no call is so deep. -/
theorem followAll_bmod (hdepth : depth < UInt64.size) (state : Chains × Bool) :
    followAll method line ((depth : Int).bmod UInt64.size) state calls =
      followAll method line depth state calls := by
  have hsize : UInt64.size = 18446744073709551616 := rfl
  have hdeepest : UInt32.size = 4294967296 := rfl
  by_cases hsmall : depth < UInt64.size / 2
  · rw [Int.bmod_eq_of_le (by omega) (by omega)]
  · have hwrapped : (depth : Int).bmod UInt64.size < 0 := by
      rw [Int.bmod_def, hsize]
      omega
    rw [followAll_of_deep (.inl hwrapped), followAll_of_deep (.inr (by omega))]

theorem scanned_nil {chains : Chains} :
    scanned chains.toList method line depth [] = (chains, false) := by
  have hgrown : grown [] method line depth = id := by
    funext chain
    exact List.append_nil chain
  simp [scanned, hgrown, next?]

theorem isSome_extendFirst_iff : (extendFirst caller id chains).isSome = true ↔
    ∃ chain ∈ chains, chain.getLast? = some caller := by
  induction chains with
  | nil => simp [extendFirst]
  | cons chain chains ih =>
    by_cases hl : chain.getLast? = some caller
    · simp [extendFirst, hl]
    · simp [extendFirst, hl, ih]

theorem extendFirst_append {before after : List (List UInt64)}
    (hbefore : ∀ other ∈ before, other.getLast? ≠ some caller)
    (hlast : chain.getLast? = some caller) :
    extendFirst caller id (before ++ chain :: after) =
      some (before ++ (chain ++ [id]) :: after) := by
  induction before with
  | nil => simp [extendFirst, hlast]
  | cons first before ih =>
    obtain ⟨hfirst, hbefore⟩ := List.forall_mem_cons.1 hbefore
    simp [extendFirst, hfirst, ih hbefore]

/-- As the last calls are distinct, the first chain that ends with the caller is the only one. -/
theorem extendFirst_eq (hd : (chains.map List.getLast?).Nodup) :
    extendFirst caller id chains =
      if some caller ∈ chains.map List.getLast? then
        some (chains.map fun chain => if chain.getLast? = some caller then chain ++ [id] else chain)
      else none := by
  induction chains with
  | nil => rfl
  | cons chain chains ih =>
    obtain ⟨hn, hd⟩ := List.nodup_cons.1 hd
    unfold extendFirst
    by_cases hc : chain.getLast? = some caller
    · have hrest : ∀ other ∈ chains, other.getLast? ≠ some caller := fun other ho he =>
        hn (List.mem_map.2 ⟨other, ho, he.trans hc.symm⟩)
      have hsame : (chains.map fun other =>
          if other.getLast? = some caller then other ++ [id] else other) = chains := by
        refine (List.map_congr_left fun other ho => ?_).trans (List.map_id chains)
        exact if_neg (hrest other ho)
      simp [hc, hsame]
    · rw [if_neg hc, ih hd]
      have hc' : some caller ≠ chain.getLast? := fun he => hc he.symm
      by_cases hm : some caller ∈ chains.map List.getLast?
      · simp [hm, hc]
      · simp [hm, hc']

theorem next?_spec (h : next? calls method line depth chain = some r) :
    r ∈ calls ∧ chain.getLast? = some r.callerId ∧ r.fits method line depth = true := by
  have := List.find?_some h
  exact ⟨List.mem_of_find?_eq_some h, by simpa using this⟩

theorem next?_eq_some_iff (hl : chain.getLast? = some r.callerId) :
    next? calls r.methodName line r.callDepth.toNat chain = some r ↔ r.IsFirst calls line := by
  have hcaller : ∀ c : CallRecord, chain.getLast? = some c.callerId ↔ c.callerId = r.callerId := by
    intro c
    rw [hl, Option.some_inj, eq_comm]
  simp only [next?, CallRecord.IsFirst, hcaller]

theorem next?_concat : next? (seen ++ [r]) method line depth chain =
    (next? seen method line depth chain).or
      (if chain.getLast? = some r.callerId ∧ r.fits method line depth then some r else none) := by
  unfold next?
  rw [List.find?_append, List.find?_singleton]
  simp

/-- A chain that has grown ends with a call of the depth scanned, which makes no other such call. -/
theorem getLast?_grown_iff (tree : IsCallTree calls) (hdepth : 1 < depth) (hs : seen ⊆ calls)
    (hr : r ∈ calls) (hf : r.fits method line depth = true) :
    (grown seen method line depth chain).getLast? = some r.callerId ↔
      next? seen method line depth chain = none ∧ chain.getLast? = some r.callerId := by
  unfold grown
  cases hn : next? seen method line depth chain with
  | none => simp
  | some r' =>
    obtain ⟨hr', -, hf'⟩ := next?_spec hn
    have hd := (CallRecord.fits_iff.1 hf).1
    have hd' := (CallRecord.fits_iff.1 hf').1
    have := tree.callerId_ne hr (hs hr') (by omega) (by omega)
    simp [this]

theorem grown_concat (tree : IsCallTree calls) (hdepth : 1 < depth) (hs : seen ⊆ calls)
    (hr : r ∈ calls) (hf : r.fits method line depth = true) :
    grown (seen ++ [r]) method line depth chain =
      if (grown seen method line depth chain).getLast? = some r.callerId then
        grown seen method line depth chain ++ [r.methodId]
      else grown seen method line depth chain := by
  simp only [getLast?_grown_iff tree hdepth hs hr hf]
  unfold grown
  rw [next?_concat]
  cases hn : next? seen method line depth chain with
  | some r' => simp
  | none =>
    by_cases hc : chain.getLast? = some r.callerId
    · simp [hc, hf]
    · simp [hc]

/-- The last calls stay distinct: what a chain grows by is new and has one caller. -/
theorem nodup_grown (tree : IsCallTree calls) (hs : seen ⊆ calls)
    (hd : (chains.map List.getLast?).Nodup)
    (fresh : ∀ chain ∈ chains, ∀ r ∈ calls, r.callDepth.toNat = depth →
      chain.getLast? ≠ some r.methodId) :
    ((chains.map (grown seen method line depth)).map List.getLast?).Nodup := by
  rw [List.map_map]
  refine List.Nodup.map_on (fun chain hc other ho he => ?_) (List.Nodup.of_map _ hd)
  -- Only two chains with the same last call before, or none, can have the same one now.
  have hinj := List.inj_on_of_nodup_map hd hc ho
  simp only [Function.comp_apply, grown] at he
  cases hn : next? seen method line depth chain with
  | none =>
    cases hn' : next? seen method line depth other with
    | none => exact hinj (by simpa [hn, hn'] using he)
    | some r' =>
      obtain ⟨hr', -, hf'⟩ := next?_spec hn'
      have := fresh chain hc r' (hs hr') (CallRecord.fits_iff.1 hf').1
      simp [hn, hn', this] at he
  | some r =>
    obtain ⟨hr, hl, hf⟩ := next?_spec hn
    cases hn' : next? seen method line depth other with
    | none =>
      have := fresh other ho r (hs hr) (CallRecord.fits_iff.1 hf).1
      simp [hn, hn', this.symm] at he
    | some r' =>
      obtain ⟨hr', hl', -⟩ := next?_spec hn'
      have hid : r.methodId = r'.methodId := by simpa [hn, hn'] using he
      obtain rfl := tree.eq_of_methodId (hs hr) (hs hr') hid
      exact hinj (hl.trans hl'.symm)

/-- A fitting record continues a chain just if it is the first one to do so. -/
theorem follow_scanned (tree : IsCallTree calls) (hdepth : 1 < depth) (hs : seen ⊆ calls)
    (hd : (chains.map List.getLast?).Nodup)
    (fresh : ∀ chain ∈ chains, ∀ r ∈ calls, r.callDepth.toNat = depth →
      chain.getLast? ≠ some r.methodId)
    (hr : r ∈ calls) (hf : r.fits method line depth = true) :
    scanned chains method line depth (seen ++ [r]) =
      match (scanned chains method line depth seen).1.follow r depth with
      | some next => (next, true)
      | none => scanned chains method line depth seen := by
  have hlast := fun chain =>
    @getLast?_grown_iff calls r method line depth chain seen tree hdepth hs hr hf
  have hfollow : (scanned chains method line depth seen).1.follow r depth =
      (extendFirst r.callerId r.methodId
        (chains.map (grown seen method line depth))).map (⟨·⟩) := by
    unfold follow
    rw [if_neg (by omega), if_pos (by omega)]
    rfl
  rw [hfollow, extendFirst_eq (nodup_grown tree hs hd fresh)]
  by_cases hm : some r.callerId ∈ (chains.map (grown seen method line depth)).map List.getLast?
  · have hany : (chains.any fun chain =>
        (next? (seen ++ [r]) method line depth chain).isSome) = true := by
      simp only [List.mem_map] at hm
      obtain ⟨_, ⟨chain, hc, rfl⟩, hl⟩ := hm
      refine List.any_eq_true.2 ⟨chain, hc, ?_⟩
      have := (hlast chain).1 hl
      simp [next?_concat, this, hf]
    rw [if_pos hm]
    simp [scanned, hany, grown_concat tree hdepth hs hr hf]
  · have hnext : ∀ chain ∈ chains, next? (seen ++ [r]) method line depth chain =
        next? seen method line depth chain := by
      intro chain hc
      rw [next?_concat]
      cases hn : next? seen method line depth chain with
      | some r' => rfl
      | none =>
        refine if_neg fun hl => hm ?_
        exact List.mem_map.2 ⟨_, List.mem_map_of_mem hc, (hlast chain).2 ⟨hn, hl.1⟩⟩
    have hmap : chains.map (grown (seen ++ [r]) method line depth) =
        chains.map (grown seen method line depth) :=
      List.map_congr_left fun chain hc => by rw [grown, hnext chain hc, grown]
    rw [if_neg hm]
    simp only [scanned, hmap, Option.map_none, Prod.mk.injEq, true_and]
    rw [Bool.eq_iff_iff, List.any_eq_true, List.any_eq_true]
    exact exists_congr fun chain => and_congr_right fun hc => by rw [hnext chain hc]

/-- A scan of all calls gives each chain the first call that fits and that its last call made. -/
theorem followAll_deeper (tree : IsCallTree calls) (hdepth : 1 < depth)
    (hd : (chains.map List.getLast?).Nodup)
    (fresh : ∀ chain ∈ chains, ∀ r ∈ calls, r.callDepth.toNat = depth →
      chain.getLast? ≠ some r.methodId) (hcalls : calls = seen ++ rest) :
    followAll method line depth (scanned chains method line depth seen) rest =
      scanned chains method line depth calls := by
  -- After the records `seen` the state is `scanned seen`; the induction is over those left.
  induction rest generalizing seen with
  | nil => rw [followAll, hcalls, List.append_nil]
  | cons r rest ih =>
    have hs : seen ⊆ calls := hcalls ▸ List.subset_append_left _ _
    have hr : r ∈ calls := hcalls ▸ List.mem_append_right _ List.mem_cons_self
    have ih := @ih (seen ++ [r]) (by rw [hcalls, List.append_assoc]; rfl)
    cases hf : r.fits method line depth with
    | false =>
      have hnext : next? (seen ++ [r]) method line depth = next? seen method line depth := by
        funext chain
        simp [next?_concat, hf]
      have hgrown : grown (seen ++ [r]) method line depth = grown seen method line depth := by
        funext chain
        rw [grown, hnext, grown]
      rw [← ih]
      simp [followAll, scanned, hf, hnext, hgrown]
    | true =>
      rw [← ih, follow_scanned tree hdepth hs hd fresh hr hf, followAll]
      simp only [hf, if_true]
      cases (scanned chains method line depth seen).1.follow r depth <;> rfl

/-- The fitting calls of the test. -/
def roots (calls : List CallRecord) (method : String) (line : UInt32) : List CallRecord :=
  calls.filter fun r => r.callerId = CallRecord.testId ∧ r.fits method line 1

/-- At depth one, each fitting call of the test begins a chain. -/
theorem followAll_root (found : Bool) :
    followAll method line 1 (⟨chains⟩, found) calls =
      (⟨chains ++ (roots calls method line).map fun r => [r.methodId]⟩,
        found || !(roots calls method line).isEmpty) := by
  induction calls generalizing chains found with
  | nil => simp [followAll, roots]
  | cons r calls ih =>
    unfold followAll roots
    cases hf : r.fits method line 1 with
    | false => simp [ih, hf, roots]
    | true =>
      by_cases hc : r.callerId = CallRecord.testId
      · simp [follow, hc, hf, ih, start, roots]
      · simp [follow, hc, hf, ih, roots]

end Chains

/-! ## The chains that are kept -/

/-- The chains kept after some frames: the ids of records that lead through these frames, or
through the outer ones of them. -/
structure ChainPool (p : Program) (calls : List CallRecord) (frames : List Frame)
    (chains : Chains) : Prop where
  sound : ∀ chain ∈ chains.toList, ∃ outer records, outer <+: frames ∧
    Leads p calls outer records ∧ records ≠ [] ∧ chain = records.map (·.methodId)
  complete : ∀ records, Leads p calls frames records → records ≠ [] →
    records.map (·.methodId) ∈ chains.toList
  distinct : (chains.toList.map List.getLast?).Nodup

namespace ChainPool

variable {chains next : Chains} {chain : List UInt64} {found : Bool}

theorem empty : ChainPool p calls [] .empty where
  sound := by simp [Chains.empty]
  complete records h hne := absurd (List.length_eq_zero_iff.1 h.length_eq) hne
  distinct := by simp [Chains.empty]

theorem eq_empty (h : ChainPool p calls [] chains) : chains = .empty := by
  rcases chains with ⟨_ | ⟨chain, rest⟩⟩
  · rfl
  · obtain ⟨outer, records, ho, hl, hne, -⟩ := h.sound chain List.mem_cons_self
    obtain rfl := List.prefix_nil.1 ho
    exact absurd (List.length_eq_zero_iff.1 hl.length_eq) hne

/-- A chain of the pool ends with a call that is no deeper than the frames. -/
theorem last_of_mem (h : ChainPool p calls frames chains) (hc : chain ∈ chains.toList) :
    ∃ r ∈ calls, chain.getLast? = some r.methodId ∧ r.callDepth.toNat ≤ frames.length := by
  obtain ⟨outer, records, ho, hl, hne, rfl⟩ := h.sound chain hc
  have hlast := List.getLast?_eq_some_getLast hne
  obtain ⟨hr, hd⟩ := hl.last hlast
  exact ⟨_, hr, by simp [hlast], hd ▸ ho.length_le⟩

theorem fresh (h : ChainPool p calls frames chains) (tree : IsCallTree calls) :
    ∀ chain ∈ chains.toList, ∀ r ∈ calls, r.callDepth.toNat = frames.length + 1 →
      chain.getLast? ≠ some r.methodId := by
  intro chain hc r hr hd he
  obtain ⟨r', hr', hl, hd'⟩ := h.last_of_mem hc
  obtain rfl := tree.eq_of_methodId hr' hr (Option.some.inj (hl.symm.trans he))
  omega

theorem mem_roots_iff (hm : p.methodAtLine? frame.className frame.line = some method) :
    r ∈ Chains.roots calls method frame.line ↔ Leads p calls [frame] [r] := by
  have hfits := @CallRecord.fits_iff r method frame.line 1
  constructor
  · intro hr
    obtain ⟨hmem, hc⟩ := List.mem_filter.1 hr
    obtain ⟨hcaller, hf⟩ := by simpa using hc
    obtain ⟨hd, hmethod, hl⟩ := hfits.1 hf
    exact .snoc .nil ⟨hmem, hcaller, hd, hmethod ▸ hm, hl⟩ fun hne => absurd rfl hne
  · intro h
    obtain ⟨before, r', he, -, hc, -⟩ := @Leads.concat _ _ _ [] _ h
    obtain ⟨rfl, hs⟩ := List.append_inj' (show [] ++ [r] = before ++ [r'] from he) rfl
    obtain rfl := List.singleton_inj.1 hs
    have hmethod : r.methodName = method := Option.some.inj (hc.method.symm.trans hm)
    have hf : r.fits method frame.line 1 = true := hfits.2 ⟨hc.depth, hmethod, hc.line⟩
    have hcaller : r.callerId = CallRecord.testId := hc.caller
    exact List.mem_filter.2 ⟨hc.mem, by simp [hcaller, hf]⟩

theorem next?_of_leads (hm : p.methodAtLine? frame.className frame.line = some method)
    (hne : records ≠ []) (hc : r.Continues p calls records frame)
    (hfirst : r.IsFirst calls frame.line) :
    Chains.next? calls method frame.line (records.length + 1 : Nat)
      (records.map (·.methodId)) = some r := by
  have hmethod : r.methodName = method := Option.some.inj (hc.method.symm.trans hm)
  have hlast := List.getLast?_eq_some_getLast hne
  have hcaller : r.callerId = (records.getLast hne).methodId := by
    rw [hc.caller, callerAfter, hlast]
    rfl
  rw [← hmethod, ← hc.depth]
  exact (Chains.next?_eq_some_iff (by simp [hlast, hcaller])).2 hfirst

/-- Only a chain of full length can go on, since its last call is one level less deep. -/
theorem leads_of_next? (h : ChainPool p calls frames chains) (tree : IsCallTree calls)
    (hm : p.methodAtLine? frame.className frame.line = some method) (hframes : frames ≠ [])
    (hc : chain ∈ chains.toList)
    (hn : Chains.next? calls method frame.line (frames.length + 1) chain = some r) :
    ∃ records, records ≠ [] ∧ chain = records.map (·.methodId) ∧
      Leads p calls (frames ++ [frame]) (records ++ [r]) := by
  obtain ⟨hr, hl, hf⟩ := Chains.next?_spec hn
  obtain ⟨hd, hmethod, hline⟩ := CallRecord.fits_iff.1 hf
  obtain ⟨outer, records, ho, hleads, hne, rfl⟩ := h.sound chain hc
  have hlast := List.getLast?_eq_some_getLast hne
  have hid : (records.getLast hne).methodId = r.callerId := by simpa [hlast] using hl
  obtain ⟨hmem, hdepth⟩ := hleads.last hlast
  have hlen := List.length_pos_of_ne_nil hframes
  -- The caller of `r` is both the last call of the chain and one level less deep than `r`.
  obtain ⟨c, hcm, hcid, hcd⟩ := tree.caller r hr (by omega)
  obtain rfl : c = records.getLast hne := tree.eq_of_methodId hcm hmem (hcid.trans hid.symm)
  obtain rfl : outer = frames := ho.eq_of_length (by omega)
  refine ⟨records, hne, rfl, hleads.snoc ⟨hr, ?_, ?_, hmethod ▸ hm, hline⟩ fun _ => ?_⟩
  · rw [callerAfter, hlast]
    exact hid.symm
  · rw [hd, hleads.length_eq]
  · rw [← hmethod, ← hd] at hn
    exact (Chains.next?_eq_some_iff hl).1 hn

theorem follow_root (hm : p.methodAtLine? frame.className frame.line = some method)
    (hf : Chains.followAll method frame.line 1 (.empty, false) calls = (next, found))
    (tree : IsCallTree calls) :
    ChainPool p calls [frame] next ∧
      (found = true ↔ ∃ records, Leads p calls [frame] records) := by
  rw [Chains.empty, Chains.followAll_root] at hf
  obtain ⟨rfl, rfl⟩ := Prod.mk.inj hf
  have hsingle : ∀ records, Leads p calls [frame] records →
      ∃ r ∈ Chains.roots calls method frame.line, records = [r] := by
    intro records hl
    obtain ⟨r, rfl⟩ := List.length_eq_one_iff.1 hl.length_eq
    exact ⟨r, (mem_roots_iff hm).2 hl, rfl⟩
  refine ⟨⟨?sound, ?complete, ?distinct⟩, ?found⟩
  case sound =>
    intro chain hc
    obtain ⟨r, hr, rfl⟩ := List.mem_map.1 hc
    exact ⟨[frame], [r], List.prefix_refl _, (mem_roots_iff hm).1 hr, by simp, rfl⟩
  case complete =>
    intro records hl _
    obtain ⟨r, hr, rfl⟩ := hsingle records hl
    exact List.mem_map.2 ⟨r, hr, rfl⟩
  case distinct =>
    have hnodup : ((Chains.roots calls method frame.line).map (·.methodId)).Nodup :=
      (List.filter_sublist.map _).nodup tree.distinct
    simpa [Function.comp_def] using hnodup.map fun _ _ => Option.some.inj
  case found =>
    constructor
    · intro hfound
      cases hroots : Chains.roots calls method frame.line with
      | nil => simp [hroots] at hfound
      | cons r rest => exact ⟨[r], (mem_roots_iff hm).1 (hroots ▸ List.mem_cons_self)⟩
    · rintro ⟨records, hl⟩
      obtain ⟨r, hr, -⟩ := hsingle records hl
      simpa using List.ne_nil_of_mem hr

theorem follow_deeper (h : ChainPool p calls frames chains) (tree : IsCallTree calls)
    (hm : p.methodAtLine? frame.className frame.line = some method) (hframes : frames ≠ [])
    (hf : Chains.followAll method frame.line (frames.length + 1 : Nat) (chains, false) calls =
      (next, found)) :
    ChainPool p calls (frames ++ [frame]) next ∧
      (found = true ↔ ∃ records, Leads p calls (frames ++ [frame]) records) := by
  have hlen := List.length_pos_of_ne_nil hframes
  have hscan := @Chains.followAll_deeper calls method frame.line _ chains.toList [] calls tree
    (by omega) h.distinct (h.fresh tree) rfl
  rw [Chains.scanned_nil, hf] at hscan
  obtain ⟨rfl, rfl⟩ := Prod.mk.inj hscan
  have hgrow : ∀ records, Leads p calls (frames ++ [frame]) records →
      ∃ before r, records = before ++ [r] ∧ before.map (·.methodId) ∈ chains.toList ∧
        Chains.next? calls method frame.line (frames.length + 1) (before.map (·.methodId)) =
          some r := by
    intro records hl
    obtain ⟨before, r, rfl, hbefore, hc, hfirst⟩ := hl.concat
    have hne : before ≠ [] := List.ne_nil_of_length_pos (hbefore.length_eq ▸ hlen)
    have hnext := next?_of_leads hm hne hc (hfirst hne)
    rw [hbefore.length_eq] at hnext
    exact ⟨before, r, rfl, h.complete before hbefore hne, hnext⟩
  refine ⟨⟨?sound, ?complete, ?distinct⟩, ?found⟩
  case sound =>
    intro _ hg
    obtain ⟨chain, hc, rfl⟩ := List.mem_map.1 hg
    unfold Chains.grown
    cases hn : Chains.next? calls method frame.line (frames.length + 1) chain with
    | none =>
      obtain ⟨outer, records, ho, hl, hne, rfl⟩ := h.sound chain hc
      exact ⟨outer, records, ho.trans (List.prefix_append _ _), hl, hne, by simp⟩
    | some r =>
      obtain ⟨records, hne, rfl, hl⟩ := h.leads_of_next? tree hm hframes hc hn
      exact ⟨_, _, List.prefix_refl _, hl, by simp, by simp⟩
  case complete =>
    intro records hl _
    obtain ⟨before, r, rfl, hc, hn⟩ := hgrow records hl
    exact List.mem_map.2 ⟨_, hc, by simp [Chains.grown, hn]⟩
  case distinct => exact Chains.nodup_grown tree (List.Subset.refl _) h.distinct (h.fresh tree)
  case found =>
    constructor
    · intro hfound
      obtain ⟨chain, hc, hsome⟩ := List.any_eq_true.1 hfound
      obtain ⟨r, hn⟩ := Option.isSome_iff_exists.1 hsome
      obtain ⟨records, -, -, hl⟩ := h.leads_of_next? tree hm hframes hc hn
      exact ⟨_, hl⟩
    · rintro ⟨records, hl⟩
      obtain ⟨before, r, -, hc, hn⟩ := hgrow records hl
      exact List.any_eq_true.2 ⟨_, hc, by simp [hn]⟩

/-- A scan for the next frame keeps the pool, and some chain grows just if some records lead
through that frame too. -/
theorem follow (h : ChainPool p calls frames chains) (tree : IsCallTree calls)
    (hm : p.methodAtLine? frame.className frame.line = some method)
    (hf : Chains.followAll method frame.line (frames.length + 1 : Nat) (chains, false) calls =
      (next, found)) :
    ChainPool p calls (frames ++ [frame]) next ∧
      (found = true ↔ ∃ records, Leads p calls (frames ++ [frame]) records) := by
  by_cases hframes : frames = []
  · subst hframes
    obtain rfl := h.eq_empty
    exact follow_root hm hf tree
  · exact h.follow_deeper tree hm hframes hf

end ChainPool

end CrashSearch
