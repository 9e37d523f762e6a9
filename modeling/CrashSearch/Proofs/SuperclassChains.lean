import CrashSearch.Classes.Hierarchy
import Mathlib.Data.List.Nodup

/-!
# Chains of superclasses

The superclasses of a class are followed until there is none recorded, the root is met, or a class
comes up again. The links may form a cycle, with the class on it or only leading into it; a class
that was visited is never visited again, so the chain ends after as many classes as are known.

## Main definitions

* `Hierarchy.IsChainAbove`: some classes lead upwards from a class as far as possible, past none
  that was visited.

## Main statements

* `Hierarchy.chain_eq_iff`: the chain above a class is the only such list.
* `Hierarchy.nodup_names`: a class and its superclasses are different classes.
* `Hierarchy.superclasses_exact`: which list the superclasses of a class are, and how long it is.
-/

namespace CrashSearch

namespace Hierarchy

/-- Each class is the recorded superclass of the one before it, the first that of `name`. The
classes are new, and they end where the next one would not be. -/
structure IsChainAbove (h : Hierarchy) (visited : List String) (name : String)
    (above : List String) : Prop where
  linked : (name :: above).IsChain fun s s' => h.superclass? s = some s'
  distinct : (name :: above).Nodup
  root_notMem : root ∉ above
  new : ∀ s ∈ above, s ∉ visited
  ends : ∀ s, h.superclass? (above.getLastD name) = some s →
    s = root ∨ s ∈ visited ∨ s ∈ name :: above

variable {h : Hierarchy} {visited above : List String} {name s : String}

theorem chain_eq_nil_of_stop (hs : h.superclass? name = some s)
    (hv : s = root ∨ s ∈ name :: visited) (new : name ∉ visited) :
    h.chain visited name new = [] := by
  rw [chain]
  split
  · rfl
  · rename_i s' hs'
    obtain rfl := Option.some.inj (hs.symm.trans hs')
    rw [dif_pos hv]

/-! ## Step by step -/

theorem chain_eq_nil_iff (new : name ∉ visited) : h.chain visited name new = [] ↔
    ∀ s, h.superclass? name = some s → s = root ∨ s ∈ name :: visited := by
  cases hs : h.superclass? name with
  | none => exact iff_of_true (chain_eq_nil hs new) (by simp)
  | some s =>
    by_cases hv : s = root ∨ s ∈ name :: visited
    · exact iff_of_true (chain_eq_nil_of_stop hs hv new) fun _ h => Option.some.inj h ▸ hv
    · rw [chain_eq_cons hs hv]
      exact iff_of_false (List.cons_ne_nil _ _) fun h => hv (h s rfl)

theorem chain_eq_cons_iff (new : name ∉ visited) : h.chain visited name new = s :: above ↔
    h.superclass? name = some s ∧ ∃ hv : ¬ (s = root ∨ s ∈ name :: visited),
      h.chain (name :: visited) s (fun hm => hv (.inr hm)) = above := by
  constructor
  · intro hchain
    cases hs : h.superclass? name with
    | none => simp [chain_eq_nil hs new] at hchain
    | some s' =>
      by_cases hv : s' = root ∨ s' ∈ name :: visited
      · simp [chain_eq_nil_of_stop hs hv new] at hchain
      · rw [chain_eq_cons hs hv] at hchain
        obtain ⟨rfl, rfl⟩ := List.cons.inj hchain
        exact ⟨rfl, hv, rfl⟩
  · rintro ⟨hs, hv, rfl⟩
    exact chain_eq_cons hs hv new

theorem isChainAbove_nil_iff : h.IsChainAbove visited name [] ↔
    ∀ s, h.superclass? name = some s → s = root ∨ s ∈ name :: visited := by
  constructor
  · intro hc s hs
    have := hc.ends s hs
    grind
  · intro hends
    refine ⟨.singleton _, List.nodup_singleton _, List.not_mem_nil, by simp, fun s hs => ?_⟩
    have := hends s hs
    grind

/-- To go up from a class is to visit it and to go on from its superclass. -/
theorem isChainAbove_cons_iff : h.IsChainAbove visited name (s :: above) ↔
    h.superclass? name = some s ∧ ¬ (s = root ∨ s ∈ name :: visited) ∧
      h.IsChainAbove (name :: visited) s above := by
  constructor
  · rintro ⟨hlinked, hdistinct, hroot, hnew, hends⟩
    obtain ⟨hs, hlinked⟩ := List.isChain_cons_cons.1 hlinked
    obtain ⟨hname, hdistinct⟩ := List.nodup_cons.1 hdistinct
    rw [List.getLastD_cons] at hends
    refine ⟨hs, by grind, hlinked, hdistinct, by grind, by grind, fun s' hs' => ?_⟩
    have := hends s' hs'
    grind
  · rintro ⟨hs, hstop, hlinked, hdistinct, hroot, hnew, hends⟩
    have hname : name ∉ s :: above := by grind
    refine ⟨List.isChain_cons_cons.2 ⟨hs, hlinked⟩, List.nodup_cons.2 ⟨hname, hdistinct⟩, by grind,
      by grind, fun s' hs' => ?_⟩
    rw [List.getLastD_cons] at hs'
    have := hends s' hs'
    grind

/-! ## The whole chain -/

/-- The chain has the properties, and no other list has: each class determines the next one, and
whether there is one. -/
theorem chain_eq_iff (new : name ∉ visited) :
    h.chain visited name new = above ↔ h.IsChainAbove visited name above := by
  induction above generalizing visited name with
  | nil => rw [chain_eq_nil_iff, isChainAbove_nil_iff]
  | cons s above ih =>
    rw [chain_eq_cons_iff, isChainAbove_cons_iff]
    exact and_congr_right fun _ => ⟨fun ⟨hv, hc⟩ => ⟨hv, (ih _).1 hc⟩,
      fun ⟨hv, hc⟩ => ⟨hv, (ih _).2 hc⟩⟩

theorem isChainAbove_chain (new : name ∉ visited) :
    h.IsChainAbove visited name (h.chain visited name new) := (chain_eq_iff new).1 rfl

theorem nodup_names : (name :: h.superclasses name).Nodup := (isChainAbove_chain _).distinct

/-- Only known classes have a recorded superclass. -/
theorem dropLast_subset_keys
    (hlinked : (name :: above).IsChain fun s s' => h.superclass? s = some s') :
    (name :: above).dropLast ⊆ h.classes.keys := by
  induction above generalizing name with
  | nil => exact List.nil_subset _
  | cons s above ih =>
    obtain ⟨hs, hlinked⟩ := List.isChain_cons_cons.1 hlinked
    exact List.cons_subset.2 ⟨mem_keys_of_superclass? hs, ih hlinked⟩

/-- Each step up is taken from another known class. -/
theorem length_superclasses_le : (h.superclasses name).length ≤ h.loaded.length := by
  have hchain : h.IsChainAbove [] name (h.superclasses name) := isChainAbove_chain _
  calc (h.superclasses name).length
      = (name :: h.superclasses name).dropLast.length := by simp
    _ ≤ h.classes.keys.length :=
        (hchain.distinct.sublist (List.dropLast_sublist _)).length_le_of_subset
          (dropLast_subset_keys hchain.linked)
    _ = h.loaded.length := (List.length_mergeSort _).symm

/-- The superclasses of a class are the one list of different classes other than the root in which
each is the recorded superclass of the one before it, beginning above the class itself, and which
ends where no superclass is recorded or the next one would be the root or one of them again. There
are no more of them than known classes. -/
theorem superclasses_exact (h : Hierarchy) (name : String) :
    (∀ above, h.superclasses name = above ↔
      (name :: above).IsChain (fun s s' => h.superclass? s = some s') ∧
        (name :: above).Nodup ∧ root ∉ above ∧
        ∀ s, h.superclass? (above.getLastD name) = some s → s = root ∨ s ∈ name :: above) ∧
      (h.superclasses name).length ≤ h.loaded.length := by
  refine ⟨fun above => ?_, length_superclasses_le⟩
  rw [superclasses, chain_eq_iff]
  constructor
  · rintro ⟨hlinked, hdistinct, hroot, -, hends⟩
    exact ⟨hlinked, hdistinct, hroot, by simpa using hends⟩
  · rintro ⟨hlinked, hdistinct, hroot, hends⟩
    exact ⟨hlinked, hdistinct, hroot, by simp, by simpa using hends⟩

/-- Above a class that leads into a cycle each class of the cycle is met once. -/
example : (ofClasses [(ClassInfo.named "A").withSuperclass "B",
    (ClassInfo.named "B").withSuperclass "A",
    (ClassInfo.named "C").withSuperclass "A"]).superclasses "C" = ["A", "B"] := by
  decide +kernel

end Hierarchy

end CrashSearch
