/-!
# Finite maps

A finite map kept as a list of keys with their values. Writing a key replaces its value.

## Main definitions

* `Assoc`: the type; `Assoc.get?`, `Assoc.insert` and `Assoc.keys`.

## Main statements

* `Assoc.get?_insert`: what a map answers after a write.
* `Assoc.mem_entries_iff`: an entry is what the map answers, if each key has one.
-/

namespace CrashSearch

/-- A finite map as a list of keys with their values. -/
structure Assoc (κ ν : Type) where
  entries : List (κ × ν)
  deriving DecidableEq

namespace Assoc

variable {κ ν : Type}

/-- The map without entries. -/
def empty : Assoc κ ν := ⟨[]⟩

instance : Inhabited (Assoc κ ν) := ⟨empty⟩

/-- The keys that have a value. -/
def keys (m : Assoc κ ν) : List κ := m.entries.map (·.1)

/-- How many keys have a value. -/
def size (m : Assoc κ ν) : Nat := m.entries.length

variable [DecidableEq κ]

/-- The value of a key. -/
def get? (m : Assoc κ ν) (k : κ) : Option ν := (m.entries.find? (·.1 = k)).map (·.2)

/-- Gives a key its value, in the place of an earlier one. -/
def insert (m : Assoc κ ν) (k : κ) (v : ν) : Assoc κ ν :=
  ⟨(k, v) :: m.entries.filter (·.1 ≠ k)⟩

/-- The map in which the last of several entries of a key counts. -/
def ofList (l : List (κ × ν)) : Assoc κ ν := l.foldl (fun m e => m.insert e.1 e.2) empty

@[simp] theorem get?_empty {k : κ} : (empty : Assoc κ ν).get? k = none := rfl

theorem get?_insert {m : Assoc κ ν} {k j : κ} {v : ν} :
    (m.insert k v).get? j = if j = k then some v else m.get? j := by
  by_cases h : j = k
  · simp [get?, insert, h]
  · have : ∀ l : List (κ × ν), (l.filter (·.1 ≠ k)).find? (·.1 = j) = l.find? (·.1 = j) := by
      intro l
      rw [List.find?_filter]
      congr 1
      funext e
      by_cases he : e.1 = j <;> simp [he, h]
    have hk : ¬ k = j := fun e => h e.symm
    simp [get?, insert, h, hk] at this ⊢
    rw [this]

theorem mem_keys_insert {m : Assoc κ ν} {k j : κ} {v : ν} :
    j ∈ (m.insert k v).keys ↔ j = k ∨ j ∈ m.keys := by
  simp only [keys, insert, List.map_cons, List.mem_cons, List.mem_map, List.mem_filter]
  constructor
  · rintro (h | ⟨e, ⟨he, -⟩, rfl⟩)
    · exact .inl h
    · exact .inr ⟨e, he, rfl⟩
  · rintro (h | ⟨e, he, rfl⟩)
    · exact .inl h
    · by_cases h : e.1 = k
      · exact .inl h
      · exact .inr ⟨e, ⟨he, by simpa using h⟩, rfl⟩

theorem insert_insert {m : Assoc κ ν} {k : κ} {v w : ν} :
    (m.insert k v).insert k w = m.insert k w := by
  simp [insert]

theorem nodup_keys_insert {m : Assoc κ ν} (h : m.keys.Nodup) {k : κ} {v : ν} :
    (m.insert k v).keys.Nodup := by
  simp only [keys, insert, List.map_cons, List.nodup_cons]
  refine ⟨?_, (List.filter_sublist.map _).nodup h⟩
  simp

theorem mem_entries_iff {m : Assoc κ ν} (h : m.keys.Nodup) {k : κ} {v : ν} :
    (k, v) ∈ m.entries ↔ m.get? k = some v := by
  obtain ⟨entries⟩ := m
  simp only [keys, get?] at *
  induction entries with
  | nil => simp
  | cons e rest ih =>
    obtain ⟨hn, hrest⟩ := List.nodup_cons.1 h
    rw [List.mem_cons, List.find?_cons, ih hrest]
    by_cases he : e.1 = k
    · have hnone : rest.find? (·.1 = k) = none := by
        simp only [List.find?_eq_none, decide_eq_true_eq]
        intro f hf hk
        exact hn (List.mem_map.2 ⟨f, hf, hk.trans he.symm⟩)
      simp [hnone, he, Prod.ext_iff]
      exact eq_comm
    · have hne : (k, v) ≠ e := fun h => he (h ▸ rfl)
      simp [he, hne]

end Assoc

end CrashSearch
