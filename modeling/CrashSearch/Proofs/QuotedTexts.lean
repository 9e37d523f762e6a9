import CrashSearch.Flow.Dot
import Mathlib.Data.List.Chain
import Mathlib.Data.List.Induction
import Mathlib.Tactic.SplitIfs

/-!
# Texts in quotes

What is read back from the quotes on a line: behind a backslash stand a quote, a backslash and, as
`n`, a line break, and any other backslash stands for itself. A label is escaped before it is put in
quotes and so is read as it was. A text that is put there as it is may be read as another one.

## Main definitions

* `Dot.texts?`: the texts in quotes on a line, unless the last of them is not closed.
* `Dot.Bare`: a text that need not be escaped.
* `Dot.Reads`: a text is one line, and these texts are read from it.

## Main statements

* `Dot.reads_escape_iff`: an escaped label is read as the label.
* `Dot.reads_quote_iff`: a text is read as itself just if it is bare.
-/

namespace CrashSearch

namespace Dot

mutual

/-- The texts that stand in quotes on a line. -/
def texts? : List Char → Option (List (List Char))
  | [] => some []
  | c :: rest => if c = '"' then inner? rest else texts? rest

/-- The texts in quotes on the rest of a line that begins inside the first of them. -/
def inner? : List Char → Option (List (List Char))
  | [] => none
  | '"' :: rest => (texts? rest).map ([] :: ·)
  | '\\' :: '"' :: rest => (inner? rest).map (·.modifyHead ('"' :: ·))
  | '\\' :: '\\' :: rest => (inner? rest).map (·.modifyHead ('\\' :: ·))
  | '\\' :: 'n' :: rest => (inner? rest).map (·.modifyHead ('\n' :: ·))
  | c :: rest => (inner? rest).map (·.modifyHead (c :: ·))

end

/-- The characters that mean something else behind a backslash. -/
def Escapable (c : Char) : Prop := c = '"' ∨ c = '\\' ∨ c = 'n'
  deriving Decidable

/-- A text that is read from between quotes as it is. -/
structure Verbatim (s : List Char) : Prop where
  noQuote : '"' ∉ s
  noEscape : s.IsChain fun a b => a = '\\' → ¬ Escapable b

variable {a s t rest : List Char} {c : Char} {more : List (List Char)}

/-! ## Reading -/

theorem texts?_append (ha : '"' ∉ a) (rest : List Char) : texts? (a ++ rest) = texts? rest := by
  induction a with
  | nil => rfl
  | cons c a ih => grind [texts?]

theorem texts?_eq_nil (ha : '"' ∉ a) : texts? a = some [] := by
  rw [← List.append_nil a, texts?_append ha, texts?]

theorem texts?_quote (rest : List Char) : texts? ('"' :: rest) = inner? rest := by
  rw [texts?, if_pos rfl]

theorem inner?_quote (rest : List Char) : inner? ('"' :: rest) = (texts? rest).map ([] :: ·) := by
  rw [inner?]

theorem inner?_cons (hc : c ≠ '"') (hb : c = '\\' → ∀ d ∈ rest.head?, ¬ Escapable d) :
    inner? (c :: rest) = (inner? rest).map (·.modifyHead (c :: ·)) := by
  rw [inner?.eq_6]
  · exact hc
  all_goals
    rintro tail rfl rfl
    simp [Escapable] at hb

theorem inner?_escaped (hc : Escapable c) (rest : List Char) :
    ∃ d, inner? ('\\' :: c :: rest) = (inner? rest).map (·.modifyHead (d :: ·)) := by
  obtain rfl | rfl | rfl := hc <;> exact ⟨_, rfl⟩

theorem map_modifyHead_cons (o : Option (List (List Char))) :
    (o.map (·.modifyHead (s ++ ·))).map (·.modifyHead (c :: ·)) =
      o.map (·.modifyHead (c :: s ++ ·)) := by
  rw [Option.map_map]
  congr 1
  funext l
  cases l <;> rfl

theorem map_modifyHead_nil (o : Option (List (List Char))) :
    o.map (·.modifyHead ([] ++ ·)) = o := by
  rcases o with - | - | - <;> rfl

theorem map_modifyHead_quote (s rest : List Char) :
    (inner? ('"' :: rest)).map (·.modifyHead (s ++ ·)) = (texts? rest).map (s :: ·) := by
  rw [inner?_quote, Option.map_map]
  congr 1
  funext l
  simp

/-- The label in quotes is read as what it was before it was put there. -/
theorem inner?_escape (label : String) (rest : List Char) :
    inner? ((escape label).toList ++ rest) =
      (inner? rest).map (·.modifyHead (label.toList ++ ·)) := by
  rw [escape, String.toList_ofList]
  induction label.toList with
  | nil => exact (map_modifyHead_nil _).symm
  | cons c s ih =>
    rw [List.flatMap_cons, List.append_assoc, ← map_modifyHead_cons, ← ih]
    split_ifs with hback hquote hnewline
    · subst hback
      rfl
    · subst hquote
      rfl
    · subst hnewline
      rfl
    · exact inner?_cons hquote fun h => absurd h hback

theorem inner?_escape_quote (label : String) (rest : List Char) :
    inner? ((escape label).toList ++ '"' :: rest) = (texts? rest).map (label.toList :: ·) := by
  rw [inner?_escape, map_modifyHead_quote]

theorem newline_notMem_escape (label : String) : '\n' ∉ (escape label).toList := by
  rw [escape, String.toList_ofList, List.mem_flatMap]
  grind

theorem inner?_verbatim (hs : Verbatim s) (hlast : '\\' ∉ s.getLast?) (rest : List Char) :
    inner? (s ++ rest) = (inner? rest).map (·.modifyHead (s ++ ·)) := by
  induction s with
  | nil => exact (map_modifyHead_nil _).symm
  | cons c s ih =>
    obtain ⟨hquote, hchain⟩ := hs
    obtain ⟨hhead, hchain⟩ := List.isChain_cons.1 hchain
    have hverbatim : Verbatim s := ⟨by grind, hchain⟩
    have hlast' : '\\' ∉ s.getLast? := by cases s <;> grind
    rw [List.cons_append, inner?_cons, ih hverbatim hlast', map_modifyHead_cons]
    · grind
    · cases s <;> grind

/-! ## What is read as it is -/

theorem modifyHead_eq_some_iff {o : Option (List (List Char))} :
    o.map (·.modifyHead (c :: ·)) = some (t :: more) ↔ ∃ s, t = c :: s ∧ o = some (s :: more) := by
  rcases o with - | - | ⟨s, l⟩ <;> grind [List.modifyHead_cons, List.modifyHead_nil]

theorem inner?_quote_eq_some_iff :
    inner? ('"' :: rest) = some (t :: more) ↔ t = [] ∧ texts? rest = some more := by
  rw [inner?_quote]
  cases texts? rest <;> grind

/-- Reading takes a character for itself or two for one, so nothing but a verbatim text is read at
its full length. -/
theorem length_le_of_inner? (hlast : '\\' ∉ s.getLast?)
    (h : inner? (s ++ '"' :: rest) = some (t :: more)) :
    t.length ≤ s.length ∧ (t.length = s.length → Verbatim s) := by
  induction s using List.twoStepInduction generalizing t with
  | nil =>
    obtain ⟨rfl, -⟩ := inner?_quote_eq_some_iff.1 h
    exact ⟨Nat.le_refl 0, fun _ => ⟨by simp, .nil⟩⟩
  | singleton c =>
    by_cases hquote : c = '"'
    · subst hquote
      obtain ⟨rfl, -⟩ := inner?_quote_eq_some_iff.1 h
      simp
    · rw [List.singleton_append, inner?_cons hquote (by grind), modifyHead_eq_some_iff] at h
      obtain ⟨t, rfl, h⟩ := h
      obtain ⟨rfl, -⟩ := inner?_quote_eq_some_iff.1 h
      exact ⟨Nat.le_refl 1, fun _ => ⟨by grind, .singleton c⟩⟩
  | cons_cons c d s ihs ihd =>
    by_cases hquote : c = '"'
    · subst hquote
      obtain ⟨rfl, -⟩ := inner?_quote_eq_some_iff.1 h
      simp
    by_cases hescape : c = '\\' ∧ Escapable d
    · obtain ⟨rfl, hd⟩ := hescape
      obtain ⟨x, hx⟩ := inner?_escaped hd (s ++ '"' :: rest)
      rw [List.cons_append, List.cons_append, hx, modifyHead_eq_some_iff] at h
      obtain ⟨t, rfl, h⟩ := h
      have hlast' : '\\' ∉ s.getLast? := by cases s <;> grind
      have := ihs hlast' h
      grind
    · rw [List.cons_append, inner?_cons hquote (by grind), modifyHead_eq_some_iff] at h
      obtain ⟨t, rfl, h⟩ := h
      obtain ⟨hle, hverbatim⟩ := ihd d (by grind) h
      refine ⟨by grind, fun heq => ?_⟩
      obtain ⟨hnoQuote, hnoEscape⟩ := hverbatim (by grind)
      exact ⟨by grind, List.isChain_cons_cons.2 ⟨by grind, hnoEscape⟩⟩

theorem inner?_eq_cons_iff (hlast : '\\' ∉ s.getLast?) :
    inner? (s ++ '"' :: rest) = some (s :: more) ↔ Verbatim s ∧ texts? rest = some more := by
  have hread (hs : Verbatim s) : inner? (s ++ '"' :: rest) = (texts? rest).map (s :: ·) := by
    rw [inner?_verbatim hs hlast, map_modifyHead_quote]
  constructor
  · intro h
    have hs := (length_le_of_inner? hlast h).2 rfl
    rw [hread hs, Option.map_eq_some_iff] at h
    grind
  · rintro ⟨hs, hrest⟩
    rw [hread hs, hrest]
    rfl

/-! ## Names -/

/-- A text that stands in quotes, and on one line, as it is. -/
structure Bare (s : List Char) : Prop where
  verbatim : Verbatim s
  oneLine : '\n' ∉ s

theorem verbatim_of_notMem (hquote : '"' ∉ s) (hback : '\\' ∉ s) : Verbatim s := by
  refine ⟨hquote, ?_⟩
  induction s with
  | nil => exact .nil
  | cons c s ih => exact List.isChain_cons.2 ⟨by grind, ih (by grind) (by grind)⟩

/-- What follows a text behind a harmless character decides nothing about the text. -/
theorem bare_append_cons_iff (hc : c ≠ '"' ∧ c ≠ '\n' ∧ ¬ Escapable c) :
    Bare (s ++ c :: t) ↔ Bare s ∧ Bare t := by
  have hchain : (s ++ c :: t).IsChain (fun a b => a = '\\' → ¬ Escapable b) ↔
      s.IsChain (fun a b => a = '\\' → ¬ Escapable b) ∧
        t.IsChain (fun a b => a = '\\' → ¬ Escapable b) := by
    rw [List.isChain_append, List.isChain_cons]
    grind [Escapable]
  constructor
  · rintro ⟨⟨hquote, h⟩, hline⟩
    obtain ⟨hs, ht⟩ := hchain.1 h
    exact ⟨⟨⟨by grind, hs⟩, by grind⟩, ⟨by grind, ht⟩, by grind⟩
  · rintro ⟨⟨⟨hsquote, hs⟩, hsline⟩, ⟨htquote, ht⟩, htline⟩
    exact ⟨⟨by grind, hchain.2 ⟨hs, ht⟩⟩, by grind⟩

theorem notMem_digits (hc : c.isDigit = false) (n : Nat) : c ∉ (toString n).toList := by
  intro h
  have hdigit : c.isDigit = true :=
    Nat.isDigit_of_mem_toDigits (b := 10) (by decide) (by decide) (by simpa using h)
  simp [hc] at hdigit

theorem bare_digits (n : Nat) : Bare (toString n).toList :=
  ⟨verbatim_of_notMem (notMem_digits rfl n) (notMem_digits rfl n), notMem_digits rfl n⟩

/-! ## Lines -/

/-- The text is one line and these texts are read from it. -/
structure Reads (line : List Char) (texts : List (List Char)) : Prop where
  oneLine : '\n' ∉ line
  texts?_eq : texts? line = some texts

/-- The text neither quotes anything nor ends a line. -/
def Plain (a : List Char) : Prop := '"' ∉ a ∧ '\n' ∉ a
  deriving Decidable

variable {line : List Char} {texts : List (List Char)}

theorem reads_of_plain (ha : Plain a) : Reads a [] := ⟨ha.2, texts?_eq_nil ha.1⟩

theorem reads_append_iff (ha : Plain a) : Reads (a ++ line) texts ↔ Reads line texts := by
  obtain ⟨hquote, hnewline⟩ := ha
  constructor
  · rintro ⟨hline, htexts⟩
    exact ⟨by grind, by rwa [texts?_append hquote] at htexts⟩
  · rintro ⟨hline, htexts⟩
    exact ⟨by grind, by rwa [texts?_append hquote]⟩

/-- A text in quotes as it is stands for itself just if it is bare. -/
theorem reads_quote_iff (hlast : '\\' ∉ s.getLast?) :
    Reads ('"' :: (s ++ '"' :: line)) (s :: texts) ↔ Bare s ∧ Reads line texts := by
  constructor
  · rintro ⟨hline, htexts⟩
    rw [texts?_quote, inner?_eq_cons_iff hlast] at htexts
    exact ⟨⟨htexts.1, by grind⟩, by grind, htexts.2⟩
  · rintro ⟨⟨hverbatim, hs⟩, hline, htexts⟩
    exact ⟨by grind, by rw [texts?_quote, inner?_eq_cons_iff hlast]; exact ⟨hverbatim, htexts⟩⟩

/-- A label in quotes stands for itself whatever its characters are. -/
theorem reads_escape_iff {label : String} :
    Reads ('"' :: ((escape label).toList ++ '"' :: line)) (label.toList :: texts) ↔
      Reads line texts := by
  have hlabel := newline_notMem_escape label
  constructor
  · rintro ⟨hline, htexts⟩
    rw [texts?_quote, inner?_escape_quote, Option.map_eq_some_iff] at htexts
    exact ⟨by grind, by grind⟩
  · rintro ⟨hline, htexts⟩
    exact ⟨by grind, by rw [texts?_quote, inner?_escape_quote, htexts]; rfl⟩

end Dot

end CrashSearch
