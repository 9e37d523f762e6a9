import Mathlib.Data.List.Nodup

/-!
# First occurrences

What is left of a list when each element stays where it stands first.

## Main statements

* `nodup_eraseDups`, `eraseDups_sublist`: nothing is left twice, and the order stays.
* `filter_eraseDups`, `map_eraseDups`: filtering and mapping may come before or after.
-/

namespace CrashSearch

variable {α : Type} [BEq α]

/-- Behind the first element only what differs from it is looked at. -/
theorem eraseDups_induction {motive : List α → Prop} (nil : motive [])
    (cons : ∀ a l, motive (l.filter (!· == a)) → motive (a :: l)) (l : List α) : motive l := by
  induction hn : l.length using Nat.strongRecOn generalizing l with
  | _ n ih =>
    cases l with
    | nil => exact nil
    | cons a l =>
      have hlt : (l.filter (!· == a)).length < n :=
        hn ▸ Nat.lt_succ_of_le (List.length_filter_le _ _)
      exact cons a l (ih _ hlt _ rfl)

theorem eraseDups_sublist (l : List α) : l.eraseDups.Sublist l := by
  induction l using eraseDups_induction with
  | nil => exact .slnil
  | cons a l ih =>
    rw [List.eraseDups_cons]
    exact (ih.trans List.filter_sublist).cons_cons a

variable [LawfulBEq α]

theorem nodup_eraseDups (l : List α) : l.eraseDups.Nodup := by
  induction l using eraseDups_induction with
  | nil => exact .nil
  | cons a l ih =>
    rw [List.eraseDups_cons, List.nodup_cons, List.mem_eraseDups]
    exact ⟨by simp, ih⟩

theorem filter_eraseDups (p : α → Bool) (l : List α) :
    (l.filter p).eraseDups = l.eraseDups.filter p := by
  induction l using eraseDups_induction with
  | nil => rfl
  | cons a l ih =>
    have hcomm : (l.filter p).filter (!· == a) = (l.filter (!· == a)).filter p :=
      List.filter_comm ..
    by_cases ha : p a = true
    · simp only [List.filter_cons_of_pos ha, List.eraseDups_cons, hcomm, ih]
    · have hkeep : ∀ x ∈ l.filter p, (!x == a) = true := by
        simp only [List.mem_filter, Bool.not_eq_true', beq_eq_false_iff_ne]
        rintro x ⟨-, hx⟩ rfl
        exact ha hx
      rw [List.filter_cons_of_neg ha, List.eraseDups_cons, List.filter_cons_of_neg ha, ← ih,
        ← hcomm, List.filter_eq_self.2 hkeep]

/-- Elements with different images are kept apart by their images too. -/
theorem map_eraseDups {β : Type} [BEq β] [LawfulBEq β] {f : α → β} (l : List α)
    (hf : ∀ a ∈ l, ∀ b ∈ l, f a = f b → a = b) :
    (l.map f).eraseDups = l.eraseDups.map f := by
  induction l using eraseDups_induction with
  | nil => rfl
  | cons a l ih =>
    have hfilter : (l.map f).filter (!· == f a) = (l.filter (!· == a)).map f := by
      rw [List.filter_map]
      refine congrArg _ (List.filter_congr fun b hb => ?_)
      have hab := hf b (List.mem_cons_of_mem a hb) a List.mem_cons_self
      simp only [Function.comp_apply]
      congr 1
      exact Bool.eq_iff_iff.2 (by simpa using ⟨hab, congrArg f⟩)
    have hrest : ∀ b ∈ l.filter (!· == a), b ∈ a :: l := fun b hb =>
      List.mem_cons_of_mem a (List.mem_of_mem_filter hb)
    rw [List.map_cons, List.eraseDups_cons, hfilter, List.eraseDups_cons, List.map_cons,
      ih fun b hb c hc => hf b (hrest b hb) c (hrest c hc)]

end CrashSearch
