import CrashSearch.Text.Blank

/-!
# Cutting text

## Main definitions

* `Text.lines`: the lines of a text.
* `Text.trim`: a text without the white space around it, which `Text.Trims` describes.
* `Text.cut`, `Text.cutLast`: the parts before and behind the first, or the last, of a character.
* `Text.behind?`: what follows a given beginning.
* `Text.occursIn`: whether one text stands somewhere in another.

## Main statements

* `Text.lines_append`: a text without line breaks goes before the first line of what follows.
* `Text.lines_intercalate`: what stands between line breaks is cut into lines part by part.
* `Text.trim_append_cons`: trimming finds the text between white space.
* `Text.cut_append`, `Text.cutLast_append`, `Text.behind?_append`: cutting undoes appending.
* `Text.lines_eq_iff`, `Text.trim_eq_iff`, `Text.cut_eq_some_iff`, `Text.cutLast_eq_some_iff`: what
  cutting leaves, by how it is put together again.
-/

namespace CrashSearch.Text

variable {a b text : List Char} {c : Char} {p : Char → Bool}

/-- The lines of a text. A carriage return stays at the end of its line. -/
def lines (text : List Char) : List (List Char) :=
  text.foldr (fun c found =>
    if c = '\n' then [] :: found
    else match found with
      | [] => [[c]]
      | line :: rest => (c :: line) :: rest) [[]]

@[simp] theorem lines_nil : lines [] = [[]] := rfl

@[simp] theorem lines_newline (text : List Char) : lines ('\n' :: text) = [] :: lines text := rfl

theorem lines_ne_nil (text : List Char) : lines text ≠ [] := by
  induction text with
  | nil => simp
  | cons c cs ih => grind [lines]

/-- A text without line breaks goes before the first line of what follows it. -/
theorem lines_append (ha : '\n' ∉ a) (b : List Char) :
    ∃ first rest, lines b = first :: rest ∧ lines (a ++ b) = (a ++ first) :: rest := by
  induction a with
  | nil => exact ⟨_, _, (List.cons_head_tail (lines_ne_nil b)).symm, by simp⟩
  | cons c cs ih =>
    obtain ⟨first, rest, hb, hab⟩ := ih (by simp_all)
    have hc : c ≠ '\n' := by rintro rfl; simp at ha
    exact ⟨first, rest, hb, by simp [lines] at hab ⊢; simp [hab, hc]⟩

theorem not_mem_of_mem_lines {line : List Char} (h : line ∈ lines text) : '\n' ∉ line := by
  induction text generalizing line with
  | nil => simp_all
  | cons c cs ih => grind [lines]

theorem intercalate_lines (text : List Char) : ['\n'].intercalate (lines text) = text := by
  induction text with
  | nil => rfl
  | cons c cs ih =>
    obtain ⟨first, rest, hl⟩ := List.exists_cons_of_ne_nil (lines_ne_nil cs)
    by_cases hc : c = '\n'
    · rw [hc, lines_newline, List.intercalate_cons_of_ne_nil (lines_ne_nil cs), ih]
      rfl
    · have hcons : lines (c :: cs) = (c :: first) :: rest := by
        simp [lines] at hl ⊢
        simp [hl, hc]
      rw [hl] at ih
      rw [hcons, ← ih]
      cases rest <;> simp

/-- The lines are the only parts without line breaks that a text has between line breaks. -/
theorem lines_eq_iff {parts : List (List Char)} : lines text = parts ↔
    parts ≠ [] ∧ (∀ part ∈ parts, '\n' ∉ part) ∧ text = ['\n'].intercalate parts := by
  constructor
  · rintro rfl
    exact ⟨lines_ne_nil text, fun _ => not_mem_of_mem_lines, (intercalate_lines text).symm⟩
  · rintro ⟨hne, hparts, rfl⟩
    have hlines := List.splitOn_intercalate '\n' (fun _ => not_mem_of_mem_lines)
      (lines_ne_nil (['\n'].intercalate parts))
    rw [intercalate_lines, List.splitOn_intercalate '\n' hparts hne] at hlines
    exact hlines.symm

theorem lines_append_newline (a b : List Char) : lines (a ++ '\n' :: b) = lines a ++ lines b := by
  induction a with
  | nil => rfl
  | cons c cs ih =>
    by_cases hc : c = '\n'
    · rw [hc, List.cons_append, lines_newline, lines_newline, ih, List.cons_append]
    · have ha : '\n' ∉ [c] := by simpa using Ne.symm hc
      obtain ⟨first, rest, hfirst, hline⟩ := lines_append ha cs
      obtain ⟨first', rest', hfirst', hline'⟩ := lines_append ha (cs ++ '\n' :: b)
      rw [hfirst', hfirst, List.cons_append] at ih
      obtain ⟨rfl, rfl⟩ := List.cons_eq_cons.1 ih
      exact hline'.trans (congrArg (· ++ lines b) hline).symm

/-- What stands between line breaks is cut into lines part by part. -/
theorem lines_intercalate {parts : List (List Char)} (h : parts ≠ []) :
    lines (['\n'].intercalate parts) = parts.flatMap lines := by
  induction parts with
  | nil => exact absurd rfl h
  | cons part parts ih =>
    by_cases hp : parts = []
    · simp [hp]
    · rw [List.intercalate_cons_of_ne_nil hp, List.append_assoc, List.singleton_append,
        lines_append_newline, ih hp, List.flatMap_cons]

theorem lines_eq_singleton (h : '\n' ∉ text) : lines text = [text] :=
  lines_eq_iff.2 ⟨by simp, by simpa using h, by simp⟩

theorem length_lines_eq_one_iff : (lines text).length = 1 ↔ '\n' ∉ text := by
  constructor
  · intro h
    obtain ⟨line, hline⟩ := List.length_eq_one_iff.1 h
    have hi := intercalate_lines text
    rw [hline, List.intercalate_singleton] at hi
    exact hi ▸ not_mem_of_mem_lines (hline ▸ List.mem_singleton_self line)
  · intro h
    rw [lines_eq_singleton h, List.length_singleton]

/-- No part has a line break if there are no more lines than parts. -/
theorem not_mem_of_length_flatMap_lines {parts : List (List Char)}
    (h : (parts.flatMap lines).length = parts.length) : ∀ part ∈ parts, '\n' ∉ part := by
  have hpos (part : List Char) : 1 ≤ (lines part).length :=
    List.length_pos_iff.2 (lines_ne_nil part)
  have hle (parts : List (List Char)) : parts.length ≤ (parts.flatMap lines).length := by
    induction parts with
    | nil => exact Nat.le_refl 0
    | cons part parts ih => grind
  induction parts with
  | nil => simp
  | cons part parts ih =>
    have := hle parts
    have := hpos part
    have := @length_lines_eq_one_iff part
    grind

/-- A text without the white space before it. -/
def trimLeft (text : List Char) : List Char := text.dropWhile isBlank

/-- A text without its last characters as long as they pass a test. -/
def dropEndWhile (p : Char → Bool) (text : List Char) : List Char :=
  (text.reverse.dropWhile p).reverse

theorem dropEndWhile_append (a : List Char) (h : ∀ c ∈ b, p c) :
    dropEndWhile p (a ++ b) = dropEndWhile p a := by
  have hr : ∀ c ∈ b.reverse, p c := by simpa using h
  simp only [dropEndWhile, List.reverse_append, List.dropWhile_append_of_pos hr]

theorem dropEndWhile_append_cons (h : ¬ p c) (a b : List Char) :
    dropEndWhile p (a ++ c :: b) = a ++ c :: dropEndWhile p b := by
  simp [dropEndWhile, List.dropWhile_append, h]

theorem dropEndWhile_eq_self (h : ∀ c ∈ a.getLast?, ¬ p c) : dropEndWhile p a = a := by
  rcases List.eq_nil_or_concat a with rfl | ⟨as, c, rfl⟩
  · rfl
  · simpa [dropEndWhile] using dropEndWhile_append_cons (h c (by simp)) as []

theorem dropEndWhile_eq_iff : dropEndWhile p text = a ↔
    ∃ b, text = a ++ b ∧ (∀ c ∈ b, p c) ∧ ∀ c ∈ a.getLast?, ¬ p c := by
  constructor
  · rintro rfl
    refine ⟨(text.reverse.takeWhile p).reverse, ?_, ?_, ?_⟩
    · rw [dropEndWhile, ← List.reverse_append, List.takeWhile_append_dropWhile,
        List.reverse_reverse]
    · intro c hc
      exact List.all_eq_true.1 List.all_takeWhile c (List.mem_reverse.1 hc)
    · intro c hc
      have hfirst := List.head?_dropWhile_not p text.reverse
      rw [dropEndWhile, List.getLast?_reverse] at hc
      simp_all
  · rintro ⟨b, rfl, hb, ha⟩
    rw [dropEndWhile_append a hb, dropEndWhile_eq_self ha]

/-- A text without the white space around it. -/
def trim (text : List Char) : List Char := dropEndWhile isBlank (trimLeft text)

/-- White space in front goes, and so does what stands at the end. -/
theorem trim_append_cons (ha : ∀ x ∈ a, isBlank x) (hc : ¬ isBlank c) (b : List Char) :
    trim (a ++ c :: b) = c :: dropEndWhile isBlank b := by
  have hl : trimLeft (a ++ c :: b) = c :: b := by
    simp [trimLeft, List.dropWhile_append_of_pos ha, hc]
  rw [trim, hl]
  exact dropEndWhile_append_cons hc [] b

theorem trim_eq_self (hh : ∀ c ∈ text.head?, ¬ isBlank c)
    (hl : ∀ c ∈ text.getLast?, ¬ isBlank c) : trim text = text := by
  have ht : trimLeft text = text := by
    cases text with
    | nil => rfl
    | cons c cs => simp [trimLeft, hh c (by simp)]
  rw [trim, ht, dropEndWhile_eq_self hl]

theorem trim_append (a : List Char) (h : ∀ c ∈ b, isBlank c) : trim (a ++ b) = trim a := by
  have hb : trimLeft (b ++ []) = trimLeft [] := List.dropWhile_append_of_pos h
  have hab : trimLeft (a ++ b) =
      if (trimLeft a).isEmpty then trimLeft b else trimLeft a ++ b := List.dropWhile_append
  rw [List.append_nil] at hb
  by_cases hl : trimLeft a = []
  · rw [trim, hab, hl, hb, trim, hl]
    rfl
  · rw [trim, hab, if_neg (by simpa using hl), dropEndWhile_append _ h, ← trim]

/-- A text is a core with white space around it, and the core begins and ends with none. -/
def Trims (text core : List Char) : Prop :=
  ∃ before behind, text = before ++ core ++ behind ∧ (∀ c ∈ before, isBlank c) ∧
    (∀ c ∈ behind, isBlank c) ∧ (∀ c ∈ core.head?, ¬ isBlank c) ∧ ∀ c ∈ core.getLast?, ¬ isBlank c

theorem trim_eq_iff {core : List Char} : trim text = core ↔ Trims text core := by
  constructor
  · intro h
    obtain ⟨behind, hl, hb, hlast⟩ := dropEndWhile_eq_iff.1 h
    refine ⟨text.takeWhile isBlank, behind, ?_, ?_, hb, ?_, hlast⟩
    · rw [List.append_assoc, ← hl, trimLeft, List.takeWhile_append_dropWhile]
    · exact List.all_eq_true.1 List.all_takeWhile
    · intro c hc
      have hfirst := List.head?_dropWhile_not isBlank text
      have hhead : (text.dropWhile isBlank).head? = some c := by
        rw [← trimLeft, hl, List.head?_append, Option.mem_def.1 hc]
        rfl
      simp_all
  · rintro ⟨before, behind, rfl, hbefore, hbehind, hhead, hlast⟩
    have hleft : trim (before ++ core) = trim core := by
      rw [trim, trimLeft, List.dropWhile_append_of_pos hbefore, ← trimLeft, ← trim]
    rw [trim_append _ hbehind, hleft, trim_eq_self hhead hlast]

/-- What stands before and behind the first `c`. -/
def cut (c : Char) : List Char → Option (List Char × List Char)
  | [] => none
  | x :: xs => if x = c then some ([], xs) else (cut c xs).map fun (a, b) => (x :: a, b)

theorem cut_append (h : c ∉ a) (b : List Char) : cut c (a ++ c :: b) = some (a, b) := by
  induction a with
  | nil => simp [cut]
  | cons x xs ih =>
    have hx : x ≠ c := by rintro rfl; simp at h
    simp [cut, hx, ih (by simp_all)]

theorem cut_eq_none (h : c ∉ a) : cut c a = none := by
  induction a with
  | nil => rfl
  | cons x xs ih =>
    have hx : x ≠ c := by rintro rfl; simp at h
    simp [cut, hx, ih (by simp_all)]

theorem cut_eq_some_iff : cut c text = some (a, b) ↔ text = a ++ c :: b ∧ c ∉ a := by
  constructor
  · intro h
    by_cases hc : c ∈ text
    · obtain ⟨before, behind, rfl, hbefore⟩ := List.eq_append_cons_of_mem hc
      rw [cut_append hbefore] at h
      cases h
      exact ⟨rfl, hbefore⟩
    · rw [cut_eq_none hc] at h
      cases h
  · rintro ⟨rfl, h⟩
    exact cut_append h b

/-- What stands before and behind the last `c`. -/
def cutLast (c : Char) : List Char → Option (List Char × List Char)
  | [] => none
  | x :: xs =>
    match cutLast c xs with
    | some (a, b) => some (x :: a, b)
    | none => if x = c then some ([], xs) else none

theorem cutLast_eq_none (h : c ∉ a) : cutLast c a = none := by
  induction a with
  | nil => rfl
  | cons x xs ih => grind [cutLast]

theorem cutLast_append (a : List Char) (h : c ∉ b) :
    cutLast c (a ++ c :: b) = some (a, b) := by
  induction a with
  | nil => simp [cutLast, cutLast_eq_none h]
  | cons x xs ih => simp [cutLast, ih]

theorem cutLast_eq_some_iff : cutLast c text = some (a, b) ↔ text = a ++ c :: b ∧ c ∉ b := by
  constructor
  · intro h
    by_cases hc : c ∈ text
    · obtain ⟨behind, before, hr, hbehind⟩ := List.eq_append_cons_of_mem (List.mem_reverse.2 hc)
      have htext : text = before.reverse ++ c :: behind.reverse := by
        simpa using congrArg List.reverse hr
      have hbehind : c ∉ behind.reverse := by simpa using hbehind
      rw [htext, cutLast_append _ hbehind] at h
      cases h
      exact ⟨htext, hbehind⟩
    · rw [cutLast_eq_none hc] at h
      cases h
  · rintro ⟨rfl, h⟩
    exact cutLast_append a h

/-- What follows a given beginning. -/
def behind? : List Char → List Char → Option (List Char)
  | [], text => some text
  | _ :: _, [] => none
  | a :: as, c :: cs => if a = c then behind? as cs else none

theorem behind?_append (a b : List Char) : behind? a (a ++ b) = some b := by
  induction a with
  | nil => rfl
  | cons x xs ih => simp [behind?, ih]

theorem behind?_eq_some (h : behind? a text = some b) : text = a ++ b := by
  induction a generalizing text with
  | nil => simp_all [behind?]
  | cons x xs ih =>
    cases text <;> grind [behind?]

/-- Whether a text begins in a given way. -/
def startsWith (text start : List Char) : Bool := (behind? start text).isSome

theorem startsWith_iff : startsWith text a = true ↔ a <+: text := by
  constructor
  · intro h
    obtain ⟨b, hb⟩ := Option.isSome_iff_exists.1 h
    exact ⟨b, (behind?_eq_some hb).symm⟩
  · rintro ⟨b, rfl⟩
    simp [startsWith, behind?_append]

/-- No more of a text matters than the beginning is long. -/
theorem startsWith_append {start : List Char} (h : start.length ≤ a.length) (b : List Char) :
    startsWith (a ++ b) start = startsWith a start := by
  rw [Bool.eq_iff_iff, startsWith_iff, startsWith_iff]
  constructor
  · exact fun hp => List.prefix_of_prefix_length_le hp (List.prefix_append a b) h
  · exact fun hp => hp.trans (List.prefix_append a b)

theorem behind?_eq_none_iff : behind? a text = none ↔ ¬ a <+: text := by
  rw [← startsWith_iff, startsWith, Option.not_isSome_iff_eq_none]

/-- Whether a part stands somewhere in a text. -/
def occursIn (part : List Char) : List Char → Bool
  | [] => part.isEmpty
  | c :: cs => startsWith (c :: cs) part || occursIn part cs

end CrashSearch.Text
