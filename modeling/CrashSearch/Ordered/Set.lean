/-!
# Ordered sets

A finite set kept as the list of its elements in strictly ascending order. Each set has exactly
one such list, so equality of sets is equality of lists.

## Main definitions

* `OrderedSet`: the type; `OrderedSet.insert`, `OrderedSet.ofList` and `OrderedSet.union` build it.

## Main statements

* `OrderedSet.mem_insert`, `OrderedSet.mem_ofList`, `OrderedSet.mem_union`: what a set holds.
* `OrderedSet.ofList_toList`: listing a set and reading the list gives the set.
-/

namespace CrashSearch

/-- A finite set, as its elements in strictly ascending order. -/
structure OrderedSet (α : Type) [LT α] where
  toList : List α
  ascending : toList.Pairwise (· < ·)
  deriving DecidableEq

namespace OrderedSet

variable {α : Type} [LT α]

instance : Membership α (OrderedSet α) := ⟨fun s a => a ∈ s.toList⟩

theorem toList_inj {s t : OrderedSet α} : s.toList = t.toList ↔ s = t := by
  cases s; cases t; simp

theorem mem_toList {a : α} {s : OrderedSet α} : a ∈ s.toList ↔ a ∈ s := Iff.rfl

instance [DecidableEq α] (a : α) (s : OrderedSet α) : Decidable (a ∈ s) :=
  inferInstanceAs (Decidable (a ∈ s.toList))

/-- The set without elements. -/
def empty : OrderedSet α := ⟨[], .nil⟩

instance : Inhabited (OrderedSet α) := ⟨empty⟩

@[simp] theorem toList_empty : (empty : OrderedSet α).toList = [] := rfl

@[simp] theorem not_mem_empty {a : α} : a ∉ (empty : OrderedSet α) := by
  simp [← mem_toList]

variable [DecidableLT α]

/-- Puts an element at its place in an ascending list, unless it is there. -/
def place (a : α) : List α → List α
  | [] => [a]
  | b :: bs => if a < b then a :: b :: bs else if b < a then b :: place a bs else b :: bs

theorem place_of_lt {a : α} {l : List α} (h : ∀ x ∈ l, a < x) : place a l = a :: l := by
  cases l with
  | nil => rfl
  | cons b bs => simp [place, h b (by simp)]

variable [LE α] [Std.IsLinearOrder α] [Std.LawfulOrderLT α]

theorem mem_place {a x : α} {l : List α} : x ∈ place a l ↔ x = a ∨ x ∈ l := by
  induction l with
  | nil => simp [place]
  | cons b bs ih =>
    unfold place
    split
    · simp
    · split
      · simp only [List.mem_cons, ih]
        constructor <;> rintro (h | h | h) <;> simp [h]
      · rename_i hab hba
        have : a = b := Std.le_antisymm (Std.not_lt.1 hba) (Std.not_lt.1 hab)
        subst this
        simp

theorem pairwise_place {a : α} {l : List α} (h : l.Pairwise (· < ·)) :
    (place a l).Pairwise (· < ·) := by
  induction l with
  | nil => simp [place]
  | cons b bs ih =>
    obtain ⟨hb, hbs⟩ := List.pairwise_cons.1 h
    unfold place
    split
    · rename_i hab
      refine List.pairwise_cons.2 ⟨fun x hx => ?_, h⟩
      rcases List.mem_cons.1 hx with rfl | hx
      · exact hab
      · exact Std.lt_trans hab (hb x hx)
    · split
      · rename_i hba
        refine List.pairwise_cons.2 ⟨fun x hx => ?_, ih hbs⟩
        rcases mem_place.1 hx with rfl | hx
        · exact hba
        · exact hb x hx
      · exact h

/-- Adds an element. -/
def insert (a : α) (s : OrderedSet α) : OrderedSet α :=
  ⟨place a s.toList, pairwise_place s.ascending⟩

@[simp] theorem mem_insert {a x : α} {s : OrderedSet α} : x ∈ s.insert a ↔ x = a ∨ x ∈ s :=
  mem_place

/-- The elements of a list. -/
def ofList (l : List α) : OrderedSet α := l.foldr insert empty

@[simp] theorem ofList_nil : ofList ([] : List α) = empty := rfl

@[simp] theorem ofList_cons {a : α} {l : List α} : ofList (a :: l) = (ofList l).insert a := rfl

@[simp] theorem mem_ofList {x : α} {l : List α} : x ∈ ofList l ↔ x ∈ l := by
  induction l with
  | nil => simp
  | cons a l ih => simp [ih]

theorem toList_ofList {l : List α} (h : l.Pairwise (· < ·)) : (ofList l).toList = l := by
  induction l with
  | nil => rfl
  | cons a l ih =>
    obtain ⟨ha, hl⟩ := List.pairwise_cons.1 h
    simp [insert, ih hl, place_of_lt ha]

theorem ofList_toList (s : OrderedSet α) : ofList s.toList = s :=
  toList_inj.1 (toList_ofList s.ascending)

/-- The elements of either set. -/
def union (s t : OrderedSet α) : OrderedSet α := t.toList.foldr insert s

@[simp] theorem mem_union {x : α} {s t : OrderedSet α} : x ∈ s.union t ↔ x ∈ s ∨ x ∈ t := by
  have : ∀ l : List α, x ∈ l.foldr insert s ↔ x ∈ s ∨ x ∈ l := by
    intro l
    induction l with
    | nil => simp
    | cons a l ih =>
      simp only [List.foldr_cons, mem_insert, ih, List.mem_cons]
      exact or_left_comm
  exact this t.toList

end OrderedSet

end CrashSearch
