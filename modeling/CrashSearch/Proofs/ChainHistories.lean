import CrashSearch.Proofs.Tracking
import Mathlib.Data.List.Chain
import Mathlib.Data.List.DropRight
import Mathlib.Data.List.Induction

/-!
# What the chains of calls consist of

Chains are started, extended and given up, and nothing else happens to them. So the ids they hold
are those that were put on them since they were given up last, each as often as it was put there,
and there is one chain for each start. A frame starts chains with calls of the test and extends
them by calls of the last call on them. So whatever frames were evaluated, and even if the records
form no tree, the ids of a chain are those of recorded calls that made one another.

## Main definitions

* `Chains.Op`, `Chains.run`: the operations on chains, and the chains after some of them.
* `Chains.sinceClear`: what happened since all chains were last given up.
* `Chains.ExtendsFirst`: an extension succeeds where it should, and the first chain grows.
* `Chains.Recorded`: a chain whose ids are those of recorded calls that made one another.
* `Target.stateAfter`: the state after some evaluations.

## Main statements

* `Chains.length_run`, `Chains.flatten_run`: how many chains there are, and what they hold.
* `Target.runsOn_stateAfter`: evaluations run operations that recorded calls bring about.
* `Target.chains_accounted`: every chain is recorded, and every id is accounted for.
-/

namespace CrashSearch

namespace Chains

/-! ## Operations -/

/-- An operation on the chains under way. -/
inductive Op
  | start (id : UInt64)
  | extend (caller id : UInt64)
  | clear
  deriving DecidableEq

/-- Whether an operation begins a chain. -/
def Op.isStart : Op → Bool
  | .start _ => true
  | _ => false

/-- The chains after an operation, and the id it put on one of them. An extension puts none if no
chain ends with the caller. -/
def perform (c : Chains) : Op → Chains × Option UInt64
  | .start id => (c.start id, some id)
  | .extend caller id =>
    match c.extend? caller id with
    | some next => (next, some id)
    | none => (c, none)
  | .clear => (c.clear, none)

/-- The chains after some operations. -/
def run (c : Chains) (ops : List Op) : Chains := ops.foldl (fun c op => (c.perform op).1) c

/-- Operations in turn, each with the id it put on a chain. -/
def history (c : Chains) : List Op → List (Op × Option UInt64)
  | [] => []
  | op :: ops => (op, (c.perform op).2) :: history (c.perform op).1 ops

/-- What some operations did since all chains were last given up. -/
def sinceClear (ops : List Op) : List (Op × Option UInt64) :=
  (history .empty ops).rtakeWhile (·.1 ≠ .clear)

variable {c : Chains} {ops : List Op} {op : Op} {caller id : UInt64}
  {chains chains' : List (List UInt64)} {chain : List UInt64} {calls : List CallRecord}
  {method : String} {line : UInt32} {depth : Int} {found : Bool}

theorem perform_extend : c.perform (.extend caller id) =
    match c.extend? caller id with
    | some next => (next, some id)
    | none => (c, none) := rfl

theorem run_append (first second : List Op) :
    c.run (first ++ second) = (c.run first).run second := List.foldl_append

theorem run_concat : c.run (ops ++ [op]) = ((c.run ops).perform op).1 := by
  simp [run]

theorem history_concat :
    c.history (ops ++ [op]) = c.history ops ++ [(op, ((c.run ops).perform op).2)] := by
  induction ops generalizing c with
  | nil => rfl
  | cons first ops ih => simp [history, ih, run]

theorem sinceClear_concat (hop : op ≠ .clear) : sinceClear (ops ++ [op]) =
    sinceClear ops ++ [(op, ((run .empty ops).perform op).2)] := by
  unfold sinceClear
  rw [history_concat, List.rtakeWhile_concat_pos]
  simpa using hop

theorem sinceClear_concat_clear : sinceClear (ops ++ [.clear]) = [] := by
  unfold sinceClear
  rw [history_concat, List.rtakeWhile_concat_neg]
  simp

/-- All that extending can do: of the chains that end with the caller the first grows. -/
theorem exists_of_extendFirst (h : extendFirst caller id chains = some chains') :
    ∃ before chain after, chains = before ++ chain :: after ∧
      (∀ other ∈ before, other.getLast? ≠ some caller) ∧ chain.getLast? = some caller ∧
      chains' = before ++ (chain ++ [id]) :: after := by
  induction chains generalizing chains' with
  | nil => cases h
  | cons first rest ih =>
    unfold extendFirst at h
    split at h
    · rename_i hfirst
      cases h
      exact ⟨[], first, rest, rfl, by simp, hfirst, rfl⟩
    · rename_i hfirst
      obtain ⟨rest', hrest, rfl⟩ := Option.map_eq_some_iff.1 h
      obtain ⟨before, chain, after, rfl, hbefore, hchain, rfl⟩ := ih hrest
      exact ⟨first :: before, chain, after, rfl, by simpa [hfirst] using hbefore, hchain, rfl⟩

/-- All that an operation can do other than giving up the chains. -/
theorem perform_cases (hop : op ≠ .clear) :
    (∃ id, op = .start id ∧ c.perform op = (c.start id, some id)) ∨
    ∃ caller id, op = .extend caller id ∧ (c.perform op = (c, none) ∨
      ∃ before chain after, c.toList = before ++ chain :: after ∧
        chain.getLast? = some caller ∧
        c.perform op = (⟨before ++ (chain ++ [id]) :: after⟩, some id)) := by
  cases op with
  | start id => exact .inl ⟨id, rfl, rfl⟩
  | clear => exact absurd rfl hop
  | extend caller id =>
    refine .inr ⟨caller, id, rfl, ?_⟩
    rw [perform_extend]
    cases hnext : c.extend? caller id with
    | none => exact .inl rfl
    | some next =>
      obtain ⟨chains, hchains, rfl⟩ := Option.map_eq_some_iff.1 hnext
      obtain ⟨before, chain, after, hsplit, -, hlast, rfl⟩ := exists_of_extendFirst hchains
      exact .inr ⟨before, chain, after, hsplit, hlast, rfl⟩

/-- What an extension does. It succeeds just if some chain ends with the caller, and then its id
goes behind the first such chain; otherwise the chains stay as they are. -/
structure ExtendsFirst (c : Chains) (caller id : UInt64) : Prop where
  put_iff : (c.perform (.extend caller id)).2 = some id ↔
    ∃ chain ∈ c.toList, chain.getLast? = some caller
  grows : ∀ before chain after, c.toList = before ++ chain :: after →
    (∀ other ∈ before, other.getLast? ≠ some caller) → chain.getLast? = some caller →
      c.perform (.extend caller id) = (⟨before ++ (chain ++ [id]) :: after⟩, some id)
  stays : (∀ chain ∈ c.toList, chain.getLast? ≠ some caller) →
    c.perform (.extend caller id) = (c, none)

theorem extendsFirst (c : Chains) (caller id : UInt64) : c.ExtendsFirst caller id where
  put_iff := by
    rw [← isSome_extendFirst_iff, perform_extend, extend?]
    cases extendFirst caller id c.toList <;> simp
  grows := by
    intro before chain after hsplit hbefore hlast
    rw [perform_extend, extend?, hsplit, extendFirst_append hbefore hlast]
    rfl
  stays := by
    intro hnone
    have hrefused : extendFirst caller id c.toList = none := by
      rw [← Option.not_isSome_iff_eq_none, isSome_extendFirst_iff]
      rintro ⟨chain, hchain, hlast⟩
      exact hnone chain hchain hlast
    rw [perform_extend, extend?, hrefused]
    rfl

/-! ## What the chains hold -/

theorem length_perform (hop : op ≠ .clear) :
    (c.perform op).1.toList.length = c.toList.length + if op.isStart then 1 else 0 := by
  rcases perform_cases (c := c) hop with ⟨id, rfl, h⟩ | ⟨caller, id, rfl, h | ⟨_, _, _, hc, -, h⟩⟩
  · simp [h, start, Op.isStart]
  · simp [h, Op.isStart]
  · simp [h, hc, Op.isStart]

theorem flatten_perform (hop : op ≠ .clear) :
    (c.perform op).1.toList.flatten.Perm (c.toList.flatten ++ (c.perform op).2.toList) := by
  rcases perform_cases (c := c) hop with
    ⟨id, rfl, h⟩ | ⟨caller, id, rfl, h | ⟨before, chain, after, hc, -, h⟩⟩
  · simp [h, start]
  · simp [h]
  · rw [h, hc]
    simpa using ((List.perm_append_singleton id after.flatten).symm.append_left chain).append_left
      before.flatten

/-- There are as many chains as were begun. -/
theorem length_run :
    (run .empty ops).toList.length = (sinceClear ops).countP (·.1.isStart) := by
  induction ops using List.reverseRecOn with
  | nil => rfl
  | append_singleton ops op ih =>
    rw [run_concat]
    by_cases hop : op = .clear
    · subst hop
      rw [sinceClear_concat_clear]
      rfl
    · rw [length_perform hop, sinceClear_concat hop, List.countP_append, ih,
        List.countP_singleton]

/-- They hold the ids that were put on them, and each as often as that was done. -/
theorem flatten_run :
    (run .empty ops).toList.flatten.Perm ((sinceClear ops).filterMap (·.2)) := by
  -- The induction is on the last operation, since giving up the chains undoes all before it.
  induction ops using List.reverseRecOn with
  | nil => exact .refl _
  | append_singleton ops op ih =>
    rw [run_concat]
    by_cases hop : op = .clear
    · subst hop
      rw [sinceClear_concat_clear]
      exact .refl _
    · rw [sinceClear_concat hop, List.filterMap_append]
      refine (flatten_perform hop).trans (ih.append ?_)
      cases ((run .empty ops).perform op).2 <;> simp

/-- Two chains end with the same call when it is extended, and one extension finds no chain. -/
def doubled : List Op :=
  [.start 9, .clear, .start 1, .start 5, .extend 5 6, .start 1, .extend 99 8, .extend 1 2]

/-! ## Chains of recorded calls -/

/-- The ids of recorded calls that made one another. The test made the first at depth one, and each
of the others was made by the one before it, at some greater depth. -/
structure Recorded (calls : List CallRecord) (chain : List UInt64) : Prop where
  nonempty : chain ≠ []
  root : ∀ id, chain.head? = some id → ∃ r ∈ calls, r.callDepth.toNat = 1 ∧
    r.callerId = CallRecord.testId ∧ r.methodId = id
  linked : chain.IsChain fun a b => ∃ r ∈ calls, 1 < r.callDepth.toNat ∧
    r.callerId = a ∧ r.methodId = b

/-- A recorded call brings the operation about. -/
def Op.StemsFrom (calls : List CallRecord) : Op → Prop
  | .start id => ∃ r ∈ calls, r.callDepth.toNat = 1 ∧
    r.callerId = CallRecord.testId ∧ r.methodId = id
  | .extend caller id => ∃ r ∈ calls, 1 < r.callDepth.toNat ∧
    r.callerId = caller ∧ r.methodId = id
  | .clear => True

theorem Recorded.concat (h : Recorded calls chain) (hlast : chain.getLast? = some caller)
    (hop : Op.StemsFrom calls (.extend caller id)) : Recorded calls (chain ++ [id]) where
  nonempty := by simp
  root := by
    intro first hfirst
    rw [List.head?_append_of_ne_nil _ h.nonempty] at hfirst
    exact h.root first hfirst
  linked := by
    refine List.isChain_append.2 ⟨h.linked, List.IsChain.singleton _, ?_⟩
    intro a ha b hb
    rw [hlast] at ha
    cases ha
    cases hb
    exact hop

theorem recorded_perform (hc : ∀ chain ∈ c.toList, Recorded calls chain)
    (hop : op.StemsFrom calls) : ∀ chain ∈ (c.perform op).1.toList, Recorded calls chain := by
  by_cases hclear : op = .clear
  · subst hclear
    intro chain hchain
    cases hchain
  rcases perform_cases (c := c) hclear with
    ⟨id, rfl, h⟩ | ⟨caller, id, rfl, h | ⟨before, chain, after, hsplit, hlast, h⟩⟩
  · rw [h]
    intro chain hchain
    rcases List.mem_append.1 hchain with hchain | hchain
    · exact hc chain hchain
    · obtain rfl := List.mem_singleton.1 hchain
      refine ⟨by simp, ?_, .singleton _⟩
      rintro _ ⟨⟩
      exact hop
  · rw [h]
    exact hc
  · rw [h]
    rw [hsplit] at hc
    -- Only the chain that grows is another one than before, and its last call is the caller.
    intro other hother
    rcases List.mem_append.1 hother with hother | hother
    · exact hc other (List.mem_append_left _ hother)
    · rcases List.mem_cons.1 hother with rfl | hother
      · exact (hc chain (by simp)).concat hlast hop
      · exact hc other (by simp [hother])

theorem recorded_run (hops : ∀ op ∈ ops, op.StemsFrom calls) :
    ∀ chain ∈ (run .empty ops).toList, Recorded calls chain := by
  induction ops using List.reverseRecOn with
  | nil => exact fun _ h => nomatch h
  | append_singleton ops op ih =>
    rw [run_concat]
    exact recorded_perform (ih fun op hop => hops op (by simp [hop])) (hops op (by simp))

/-! ## The operations of a frame -/

/-- What a fitting call does to the chains. -/
def op? (depth : Int) (call : CallRecord) : Option Op :=
  if depth = 1 then
    if call.callerId = CallRecord.testId then some (.start call.methodId) else none
  else if 1 < depth then some (.extend call.callerId call.methodId)
  else none

/-- What the calls do to the chains that fit a frame. -/
def frameOps (method : String) (line : UInt32) (depth : Int) (calls : List CallRecord) : List Op :=
  (calls.filter (·.fits method line depth)).filterMap (op? depth)

theorem follow_getD (call : CallRecord) : (c.follow call depth).getD c =
    c.run (op? depth call).toList := by
  unfold follow op?
  split
  · split <;> rfl
  · split
    · change _ = (c.perform (.extend call.callerId call.methodId)).1
      rw [perform_extend]
      cases c.extend? call.callerId call.methodId <;> rfl
    · rfl

theorem fst_followAll : (followAll method line depth (c, found) calls).1 =
    c.run (frameOps method line depth calls) := by
  induction calls generalizing c found with
  | nil => rfl
  | cons call calls ih =>
    unfold followAll frameOps
    cases hfits : call.fits method line depth with
    | false => simpa [hfits, frameOps] using ih
    | true =>
      have hops : ((call :: calls).filter (·.fits method line depth)).filterMap (op? depth) =
          (op? depth call).toList ++ frameOps method line depth calls := by
        rw [List.filter_cons, if_pos hfits, List.filterMap_cons]
        cases op? depth call <;> rfl
      rw [hops, run_append, ← follow_getD]
      -- A call that is not followed leaves the chains to the calls behind it.
      cases c.follow call depth <;> exact ih

theorem stemsFrom_of_mem_frameOps (hop : op ∈ frameOps method line depth calls) :
    op.StemsFrom calls := by
  obtain ⟨call, hcall, hop⟩ := List.mem_filterMap.1 hop
  obtain ⟨hmem, hfits⟩ := List.mem_filter.1 hcall
  obtain ⟨hdepth, -, -⟩ := of_decide_eq_true hfits
  unfold op? at hop
  split at hop
  · split at hop
    · rename_i hone hcaller
      cases hop
      exact ⟨call, hmem, by omega, hcaller, rfl⟩
    · cases hop
  · split at hop
    · cases hop
      exact ⟨call, hmem, by omega, rfl, rfl⟩
    · cases hop

end Chains

namespace Target

variable {R : Type} {t : Target} {e : Execution R} {s : FrameState} {frame : Frame}
  {level : UInt64}

/-- The operations that recorded calls bring about take some chains to others. -/
def RunsOn (e : Execution R) (before after : Chains) : Prop :=
  ∃ ops : List Chains.Op, (∀ op ∈ ops, op.StemsFrom e.methodCalls) ∧ after = before.run ops

namespace RunsOn

variable {a b c : Chains}

theorem refl : RunsOn e a a := ⟨[], by simp, rfl⟩

theorem clear : RunsOn e a .empty := ⟨[.clear], by simp [Chains.Op.StemsFrom], rfl⟩

theorem trans (hab : RunsOn e a b) (hbc : RunsOn e b c) : RunsOn e a c := by
  obtain ⟨first, hfirst, rfl⟩ := hab
  obtain ⟨second, hsecond, rfl⟩ := hbc
  refine ⟨first ++ second, fun op hop => ?_, (Chains.run_append _ _).symm⟩
  rcases List.mem_append.1 hop with hop | hop
  · exact hfirst op hop
  · exact hsecond op hop

theorem recorded (h : RunsOn e .empty a) :
    ∀ chain ∈ a.toList, Chains.Recorded e.methodCalls chain := by
  obtain ⟨ops, hops, rfl⟩ := h
  exact Chains.recorded_run hops

end RunsOn

theorem runsOn_matchFrame : RunsOn e s.chains (t.matchFrame s e frame level).1.chains := by
  unfold matchFrame
  split
  · exact .clear
  · rename_i method _
    split
    · rename_i chains hfollow
      refine ⟨Chains.frameOps method frame.line (t.depth s level) e.methodCalls,
        fun _ => Chains.stemsFrom_of_mem_frameOps, ?_⟩
      rw [← Chains.fst_followAll, hfollow]
    · exact .clear

variable [Scale R]

theorem runsOn_evaluateFrame :
    RunsOn e s.chains (t.evaluateFrame s e level).1.chains := by
  unfold evaluateFrame
  split
  · exact .refl
  · split
    · exact .refl
    · exact runsOn_matchFrame

/-- The state after the frames of some levels were evaluated, in any order. -/
def stateAfter (t : Target) (e : Execution R) (levels : List UInt64) : FrameState :=
  levels.foldl (fun s level => (t.evaluateFrame s e level).1) .initial

theorem stateAfter_concat (levels : List UInt64) : t.stateAfter e (levels ++ [level]) =
    (t.evaluateFrame (t.stateAfter e levels) e level).1 := by
  simp [stateAfter]

theorem runsOn_stateAfter (levels : List UInt64) :
    RunsOn e .empty (t.stateAfter e levels).chains := by
  induction levels using List.reverseRecOn with
  | nil => exact .refl
  | append_singleton levels level ih =>
    rw [stateAfter_concat]
    exact ih.trans runsOn_evaluateFrame

theorem nestedRun_stateAfter :
    nested.stateAfter (nestedRun [3, 2]) [3, 2, 1] = ⟨⟨[[1, 3, 4]]⟩, 0⟩ := by
  have hnext {s : FrameState} {level : UInt64} {frame : Frame} {chains : Chains}
      (hf : nested.crash.frame? level = some frame) (hm : frame ∈ nested.crash.trackedAbove 0)
      (hc : Chains.followAll frame.methodName frame.line (nested.depth s level) (s.chains, false)
        (nestedRun [3, 2]).methodCalls = (chains, true)) :
      (nested.evaluateFrame s (nestedRun [3, 2]) level).1 = { s with chains := chains } := by
    have hi : nested.crash.isIrrelevant level = false := rfl
    rw [evaluateFrame_of_pass hf (pass?_of_follow hi (nested_method frame hm) hc)
      fun _ => nested_goals frame hm]
  have houter : (nested.evaluateFrame .initial (nestedRun [3, 2]) 3).1 = ⟨⟨[[1]]⟩, 0⟩ :=
    hnext (show nested.crash.frame? 3 = some ⟨"A", "a", 10⟩ by decide) (by decide) (by decide)
  have hmiddle : (nested.evaluateFrame ⟨⟨[[1]]⟩, 0⟩ (nestedRun [3, 2]) 2).1 =
      ⟨⟨[[1, 3]]⟩, 0⟩ :=
    hnext (show nested.crash.frame? 2 = some ⟨"B", "b", 20⟩ by decide) (by decide) (by decide)
  have hinner : (nested.evaluateFrame ⟨⟨[[1, 3]]⟩, 0⟩ (nestedRun [3, 2]) 1).1 =
      ⟨⟨[[1, 3, 4]]⟩, 0⟩ :=
    hnext (show nested.crash.frame? 1 = some ⟨"C", "c", 30⟩ by decide) (by decide) (by decide)
  simp only [stateAfter, List.foldl_cons, List.foldl_nil, houter, hmiddle, hinner]

/-- Whatever frames were evaluated on an execution, each chain consists of recorded calls that made
one another. An extension succeeds just if some chain ends with its caller, and it is the first such
chain that grows. And after any operations on chains there is one chain for each start since they
were given up last, and together they hold the ids that were put on them since then. -/
theorem chains_accounted (t : Target) (e : Execution R) (levels : List UInt64) :
    (∀ chain ∈ (t.stateAfter e levels).chains.toList, Chains.Recorded e.methodCalls chain) ∧
    (∀ (c : Chains) (caller id : UInt64), c.ExtendsFirst caller id) ∧
    ∀ ops : List Chains.Op,
      (Chains.run .empty ops).toList.length = (Chains.sinceClear ops).countP (·.1.isStart) ∧
      (Chains.run .empty ops).toList.flatten.Perm ((Chains.sinceClear ops).filterMap (·.2)) :=
  ⟨(runsOn_stateAfter levels).recorded, Chains.extendsFirst,
    fun _ => ⟨Chains.length_run, Chains.flatten_run⟩⟩

/-- Of the two chains that end with the call 1 the first grows, and the calls that were given up or
refused are on none. In a run of the nested crash one chain holds a call of each frame. -/
theorem doubled_accounted :
    Chains.run .empty Chains.doubled = ⟨[[1, 2], [5, 6], [1]]⟩ ∧
      (Chains.sinceClear Chains.doubled).map (·.2) =
        [some 1, some 5, some 6, some 1, none, some 2] ∧
      [1, 2, 5, 6, 1].Perm ((Chains.sinceClear Chains.doubled).filterMap (·.2)) ∧
      (Chains.perform ⟨[[1], [5, 6], [1]]⟩ (.extend 1 2)).2 = some 2 ∧
      (nested.stateAfter (nestedRun [3, 2]) [3, 2, 1]).chains = ⟨[[1, 3, 4]]⟩ ∧
      Chains.Recorded (nestedRun [3, 2]).methodCalls [1, 3, 4] := by
  obtain ⟨hrecorded, hextends, hops⟩ := chains_accounted nested (nestedRun [3, 2]) [3, 2, 1]
  have hrun : Chains.run .empty Chains.doubled = ⟨[[1, 2], [5, 6], [1]]⟩ := by decide
  rw [nestedRun_stateAfter] at hrecorded
  refine ⟨hrun, by decide, ?_, (hextends _ 1 2).put_iff.2 ⟨[1], by decide, rfl⟩,
    by rw [nestedRun_stateAfter], hrecorded _ List.mem_cons_self⟩
  have hperm := (hops Chains.doubled).2
  rwa [hrun] at hperm

end Target

end CrashSearch
