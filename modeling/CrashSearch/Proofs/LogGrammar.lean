import CrashSearch.Trace.Log
import Mathlib.Data.List.Forall2

/-!
# The grammar of crash logs

What a crash log has to look like, said by how its parts are put together and not by how a reader
takes them apart: the lines by the breaks between them, a frame by its class, its method, its file
and its line. A log is read just if it has this form, and then no frame line is left out. A log that
does not have it is refused for the first reason that applies.

## Main definitions

* `Log.ShowsLines`: the lines of a log that are not blank.
* `Log.Describes`: a text describes a frame.
* `Log.frameTexts`: what the frame lines of the outermost exception show.
* `Log.Outcome`: what reading a log has to give.

## Main statements

* `Log.frame?_eq_some_iff`: a frame is read from just the texts that describe it.
* `Log.frames_eq_ok_iff`, `Log.frames_eq_error_iff`: the frames are read if all frame lines describe
  one, and otherwise the first that does not is reported.
* `StackTrace.ofLog_eq_iff`: reading a log gives what the grammar says.
-/

namespace CrashSearch

namespace Log

/-! ## Lines and header -/

/-- The log consists of lines with breaks between them, and the given ones remain when the white
space around each line goes, and with it the blank lines. -/
def ShowsLines (log : String) (lines : List (List Char)) : Prop :=
  ∃ raw trimmed, raw ≠ [] ∧ (∀ line ∈ raw, '\n' ∉ line) ∧ log.toList = ['\n'].intercalate raw ∧
    List.Forall₂ Text.Trims raw trimmed ∧ lines = trimmed.filter (· ≠ [])

/-- The type of the exception stands before the first colon, if the header has one. -/
def NamesType (header type : List Char) : Prop :=
  (':' ∉ header ∧ Text.Trims header type) ∨
    ∃ before behind, header = before ++ ':' :: behind ∧ ':' ∉ before ∧ Text.Trims before type

theorem forall₂_trims_iff {raw trimmed : List (List Char)} :
    List.Forall₂ Text.Trims raw trimmed ↔ raw.map Text.trim = trimmed := by
  rw [← List.forall₂_eq_eq_eq, List.forall₂_map_left_iff]
  simp only [Text.trim_eq_iff]

theorem lines_eq_iff {log : String} {lines : List (List Char)} :
    Log.lines log = lines ↔ ShowsLines log lines := by
  constructor
  · rintro rfl
    obtain ⟨hne, hone, htext⟩ := Text.lines_eq_iff.1 (Eq.refl (Text.lines log.toList))
    exact ⟨_, _, hne, hone, htext, forall₂_trims_iff.2 rfl, rfl⟩
  · rintro ⟨raw, trimmed, hne, hone, htext, htrims, rfl⟩
    rw [Log.lines, Text.lines_eq_iff.2 ⟨hne, hone, htext⟩, forall₂_trims_iff.1 htrims]

theorem exceptionType_eq_iff {header type : List Char} :
    exceptionType header = type ↔ NamesType header type := by
  unfold exceptionType NamesType
  by_cases hc : ':' ∈ header
  · obtain ⟨before, behind, rfl, hbefore⟩ := List.eq_append_cons_of_mem hc
    rw [Text.cut_append hbefore]
    constructor
    · intro h
      exact .inr ⟨before, behind, rfl, hbefore, Text.trim_eq_iff.1 h⟩
    · rintro (⟨hnot, -⟩ | ⟨before', behind', heq, hbefore', h⟩)
      · exact absurd hc hnot
      · have hcut := Text.cut_append hbefore behind
        rw [heq, Text.cut_append hbefore'] at hcut
        cases hcut
        exact Text.trim_eq_iff.2 h
  · rw [Text.cut_eq_none hc]
    constructor
    · intro h
      exact .inl ⟨hc, Text.trim_eq_iff.1 h⟩
    · rintro (⟨-, h⟩ | ⟨before, behind, rfl, -, -⟩)
      · exact Text.trim_eq_iff.2 h
      · simp at hc

/-! ## Frames -/

/-- Decimal digits that write the number, behind a plus sign or not. -/
def Numeral (text : List Char) (n : UInt32) : Prop :=
  ∃ sign digits, text = sign ++ digits ∧ (sign = [] ∨ sign = ['+']) ∧ digits ≠ [] ∧
    (∀ c ∈ digits, c.isDigit) ∧ Nat.ofDigitChars 10 digits 0 = n.toNat

/-- A text describes a frame as `class.method(file:line)`. Every separator may also stand in one of
the parts, as long as it is clear which of them separates: the first opening bracket, the last
point before it and the last colon. Closing brackets may be missing or stand there repeatedly. -/
inductive Describes : List Char → Frame → Prop where
  | intro {className methodName file number numeral closing : List Char} {line : UInt32}
      (className_open : '(' ∉ className) (methodName_open : '(' ∉ methodName)
      (methodName_point : '.' ∉ methodName) (number_colon : ':' ∉ number)
      (closing_close : ∀ c ∈ closing, c = ')')
      (number_close : ∀ c ∈ (file ++ ':' :: number).getLast?, c ≠ ')')
      (trims : Text.Trims number numeral) (writes : Numeral numeral line) :
      Describes
        ((className ++ '.' :: methodName) ++ '(' :: ((file ++ ':' :: number) ++ closing))
        ⟨String.ofList className, String.ofList methodName, line⟩

theorem lineNumber?_eq_some_iff {text : List Char} {n : UInt32} :
    lineNumber? text = some n ↔ Numeral text n := by
  have hvalue : ∀ value : Nat, value < UInt32.size ∧ UInt32.ofNat value = n ↔ value = n.toNat := by
    intro value
    constructor
    · rintro ⟨hlt, rfl⟩
      exact (UInt32.toNat_ofNat_of_lt hlt).symm
    · rintro rfl
      exact ⟨n.toNat_lt_size, UInt32.ofNat_toNat⟩
  unfold lineNumber? Numeral
  simp only [Option.ite_none_right_eq_some, Option.some.injEq, hvalue, List.all_eq_true, and_assoc]
  split
  · next rest =>
    constructor
    · intro h
      exact ⟨['+'], rest, rfl, .inr rfl, h⟩
    · rintro ⟨sign, digits, htext, rfl | rfl, hne, hall, hval⟩
      · rw [List.nil_append] at htext
        exact absurd (hall '+' (by simp [← htext])) (by decide)
      · cases htext
        exact ⟨hne, hall, hval⟩
  · next hsign =>
    constructor
    · intro h
      exact ⟨[], text, rfl, .inl rfl, h⟩
    · rintro ⟨sign, digits, rfl, rfl | rfl, h⟩
      · exact h
      · exact absurd rfl (hsign digits)

theorem frame?_eq_some_iff {text : List Char} {frame : Frame} :
    frame? text = some frame ↔ Describes text frame := by
  constructor
  · intro h
    simp only [frame?, Option.bind_eq_bind, Option.bind_eq_some_iff, Option.pure_def,
      Option.some.injEq, Prod.exists] at h
    obtain ⟨qualified, location, hfirst, className, methodName, hsecond, file, number, hthird,
      line, hline, rfl⟩ := h
    obtain ⟨rfl, hopen⟩ := Text.cut_eq_some_iff.1 hfirst
    obtain ⟨rfl, hpoint⟩ := Text.cutLast_eq_some_iff.1 hsecond
    obtain ⟨hshown, hcolon⟩ := Text.cutLast_eq_some_iff.1 hthird
    obtain ⟨closing, rfl, hclosing, hlast⟩ := Text.dropEndWhile_eq_iff.1 hshown
    simp only [List.mem_append, List.mem_cons, not_or] at hopen
    exact .intro hopen.1 hopen.2.2 hpoint hcolon (by simpa using hclosing) (by simpa using hlast)
      (Text.trim_eq_iff.1 rfl) (lineNumber?_eq_some_iff.1 hline)
  · rintro (@⟨className, methodName, file, number, numeral, closing, line, hclass, hmethod, hpoint,
      hcolon, hclosing, hlast, htrims, hwrites⟩)
    have hopen : '(' ∉ className ++ '.' :: methodName := by simp [hclass, hmethod]
    have hshown : Text.dropEndWhile (· = ')') ((file ++ ':' :: number) ++ closing) =
        file ++ ':' :: number :=
      Text.dropEndWhile_eq_iff.2 ⟨closing, rfl, by simpa using hclosing, by simpa using hlast⟩
    simp only [frame?, Text.cut_append hopen, Text.cutLast_append _ hpoint, hshown,
      Text.cutLast_append _ hcolon, Text.trim_eq_iff.2 htrims, lineNumber?_eq_some_iff.2 hwrites,
      Option.bind_eq_bind, Option.bind_some]
    rfl

/-- Some separators also stand in the parts, and one closing bracket is too many. -/
example : Describes "acme.B.run(F(1).x: +042 ))".toList ⟨"acme.B", "run", 42⟩ :=
  frame?_eq_some_iff.1 (by decide)

/-! ## Frame lines -/

/-- What stands behind the word `at` in the lines that begin with it, up to the line that names the
cause of the exception. -/
def frameTexts (lines : List (List Char)) : List (List Char) :=
  ((lines.takeWhile (¬ causeMark <+: ·)).filter (frameMark <+: ·)).map (·.drop frameMark.length)

/-- A text describes no frame, and all those in front of it do. -/
inductive FirstUnreadable : List (List Char) → List Char → Prop where
  | here {text : List Char} {rest : List (List Char)}
      (unreadable : ∀ frame, ¬ Describes text frame) :
      FirstUnreadable (text :: rest) text
  | later {first text : List Char} {rest : List (List Char)} {frame : Frame}
      (describes : Describes first frame) (unreadable : FirstUnreadable rest text) :
      FirstUnreadable (first :: rest) text

/-- The frame of a text, or the report that it describes none. -/
def readFrame (text : List Char) : Except Error Frame :=
  match frame? text with
  | none => .error (.malformedTrace (.unreadableFrame (String.ofList text)))
  | some frame => .ok frame

variable {text : List Char} {texts lines : List (List Char)} {frames : List Frame} {error : Error}

theorem frames_eq_mapM (lines : List (List Char)) :
    Log.frames lines = (frameTexts lines).mapM readFrame := by
  induction lines with
  | nil => rfl
  | cons line rest ih =>
    -- A line that names the cause ends both, and one without a frame is passed over by both.
    by_cases hcause : causeMark <+: line
    · have hnone : frameTexts (line :: rest) = [] := by simp [frameTexts, hcause]
      rw [Log.frames, if_pos (Text.startsWith_iff.2 hcause), hnone]
      rfl
    · rw [Log.frames, if_neg (mt Text.startsWith_iff.1 hcause)]
      cases hbehind : Text.behind? frameMark line with
      | none =>
        have hmark : ¬ frameMark <+: line := Text.behind?_eq_none_iff.1 hbehind
        have hskip : frameTexts (line :: rest) = frameTexts rest := by
          simp [frameTexts, hcause, hmark]
        rw [hskip, ← ih]
      | some text =>
        have hline : line = frameMark ++ text := Text.behind?_eq_some hbehind
        have htake : frameTexts (line :: rest) = text :: frameTexts rest := by
          rw [hline] at hcause ⊢
          simp [frameTexts, hcause]
        rw [htake, List.mapM_cons, ← ih, readFrame]
        dsimp only
        cases frame? text with
        | none => rfl
        | some frame => cases Log.frames rest <;> rfl

theorem readFrame_eq_ok_iff {frame : Frame} :
    readFrame text = .ok frame ↔ Describes text frame := by
  rw [← frame?_eq_some_iff, readFrame]
  cases frame? text <;> simp

theorem readFrame_eq_error_iff : readFrame text = .error error ↔
    (∀ frame, ¬ Describes text frame) ∧
      error = .malformedTrace (.unreadableFrame (String.ofList text)) := by
  simp only [← frame?_eq_some_iff, readFrame]
  cases frame? text <;> simp [eq_comm]

theorem mapM_readFrame_eq_ok_iff :
    texts.mapM readFrame = .ok frames ↔ List.Forall₂ Describes texts frames := by
  induction texts generalizing frames with
  | nil => simp [pure, Except.pure, eq_comm]
  | cons text texts ih =>
    rw [List.mapM_cons, List.forall₂_cons_left_iff]
    simp only [← ih, ← readFrame_eq_ok_iff]
    cases readFrame text <;> cases texts.mapM readFrame <;>
      simp [bind, Except.bind, pure, Except.pure, eq_comm]

theorem mapM_readFrame_eq_error_iff : texts.mapM readFrame = .error error ↔
    ∃ text, FirstUnreadable texts text ∧
      error = .malformedTrace (.unreadableFrame (String.ofList text)) := by
  induction texts with
  | nil =>
    constructor
    · rintro ⟨⟩
    · rintro ⟨text, ⟨⟩, -⟩
  | cons text texts ih =>
    rw [List.mapM_cons]
    cases hread : readFrame text with
    | error found =>
      obtain ⟨hnot, rfl⟩ := readFrame_eq_error_iff.1 hread
      constructor
      · rintro ⟨⟩
        exact ⟨text, .here hnot, rfl⟩
      · rintro ⟨_, ⟨⟩ | ⟨hframe, -⟩, rfl⟩
        · rfl
        · exact absurd hframe (hnot _)
    | ok frame =>
      have hframe := readFrame_eq_ok_iff.1 hread
      have hrest : (do let found ← Except.ok frame; let rest ← texts.mapM readFrame
                       pure (found :: rest)) = .error error ↔
          texts.mapM readFrame = .error error := by
        cases texts.mapM readFrame <;> simp [bind, Except.bind, pure, Except.pure]
      rw [hrest, ih]
      constructor
      · rintro ⟨text, hfirst, rfl⟩
        exact ⟨text, .later hframe hfirst, rfl⟩
      · rintro ⟨_, hnot | ⟨-, hfirst⟩, rfl⟩
        · exact absurd hframe (hnot _)
        · exact ⟨_, hfirst, rfl⟩

theorem frames_eq_ok_iff :
    Log.frames lines = .ok frames ↔ List.Forall₂ Describes (frameTexts lines) frames := by
  rw [frames_eq_mapM, mapM_readFrame_eq_ok_iff]

theorem frames_eq_error_iff : Log.frames lines = .error error ↔
    ∃ text, FirstUnreadable (frameTexts lines) text ∧
      error = .malformedTrace (.unreadableFrame (String.ofList text)) := by
  rw [frames_eq_mapM, mapM_readFrame_eq_error_iff]

/-! ## Logs -/

/-- What reading a log gives: the crash with all its frames, or the first of the reasons not to
read it that applies. -/
inductive Outcome (log : String) (level : UInt64) : Except Error StackTrace → Prop where
  | empty (shows : ShowsLines log []) : Outcome log level (.error (.malformedTrace .empty))
  | unreadable {header text : List Char} {rest : List (List Char)}
      (shows : ShowsLines log (header :: rest))
      (first : FirstUnreadable (frameTexts rest) text) :
      Outcome log level (.error (.malformedTrace (.unreadableFrame (String.ofList text))))
  | noFrames {header type : List Char} {rest : List (List Char)}
      (shows : ShowsLines log (header :: rest)) (no_frames : frameTexts rest = [])
      (names : NamesType header type) :
      Outcome log level (.error (.malformedTrace (.noFrames (String.ofList type))))
  | invalidLevel {header : List Char} {rest : List (List Char)} {frames : List Frame}
      (shows : ShowsLines log (header :: rest))
      (describe : List.Forall₂ Describes (frameTexts rest) frames)
      (some_frames : frameTexts rest ≠ [])
      (outside : level = 0 ∨ (frameTexts rest).length < level.toNat) :
      Outcome log level (.error (.invalidTargetFrame level (frameTexts rest).length))
  | crash {header : List Char} {rest : List (List Char)} {trace : StackTrace}
      (shows : ShowsLines log (header :: rest))
      (names : NamesType header trace.exceptionType.toList)
      (describe : List.Forall₂ Describes (frameTexts rest) trace.frames)
      (level_eq : trace.targetLevel = level) (irrelevant_eq : trace.irrelevant = .empty) :
      Outcome log level (.ok trace)

theorem ofLog_of_lines {log : String} {header : List Char} {rest : List (List Char)}
    (hlines : Log.lines log = header :: rest) (level : UInt64) :
    StackTrace.ofLog log level = Log.frames rest >>= fun frames =>
      if frames = [] then
        .error (.malformedTrace (.noFrames (String.ofList (exceptionType header))))
      else StackTrace.make? (String.ofList (exceptionType header)) frames level := by
  rw [StackTrace.ofLog, hlines]
  rfl

/-- Whatever a log is read as, the grammar allows it. -/
theorem outcome_ofLog (log : String) (level : UInt64) :
    Outcome log level (StackTrace.ofLog log level) := by
  cases hlines : Log.lines log with
  | nil =>
    rw [StackTrace.ofLog, hlines]
    exact .empty (lines_eq_iff.1 hlines)
  | cons header rest =>
    have hshows := lines_eq_iff.1 hlines
    have hnames := exceptionType_eq_iff.1 (Eq.refl (exceptionType header))
    rw [ofLog_of_lines hlines]
    cases hframes : Log.frames rest with
    | error error =>
      obtain ⟨text, hfirst, rfl⟩ := frames_eq_error_iff.1 hframes
      exact .unreadable hshows hfirst
    | ok frames =>
      have hdescribe := frames_eq_ok_iff.1 hframes
      dsimp only [bind, Except.bind]
      split
      · rename_i hnil
        subst hnil
        exact .noFrames hshows (List.forall₂_nil_right_iff.1 hdescribe) hnames
      · rename_i hne
        cases hmake : StackTrace.make? (String.ofList (exceptionType header)) frames level with
        | error error =>
          obtain ⟨hlevel, rfl⟩ := StackTrace.make?_eq_error_iff.1 hmake
          rw [← hdescribe.length_eq] at hlevel ⊢
          refine .invalidLevel hshows hdescribe (fun hnil => hne ?_) hlevel
          rwa [hnil, List.forall₂_nil_left_iff] at hdescribe
        | ok trace =>
          obtain ⟨-, htype, rfl, hlevel, hirrelevant⟩ := StackTrace.make?_eq_ok_iff.1 hmake
          exact .crash hshows (by simpa [htype] using hnames) hdescribe hlevel hirrelevant

/-- A log is read as just what the grammar says. -/
theorem Outcome.ofLog_eq {log : String} {level : UInt64} {result : Except Error StackTrace}
    (h : Outcome log level result) : StackTrace.ofLog log level = result := by
  cases h with
  | empty shows => rw [StackTrace.ofLog, lines_eq_iff.2 shows]
  | unreadable shows first =>
    rw [ofLog_of_lines (lines_eq_iff.2 shows), frames_eq_error_iff.2 ⟨_, first, rfl⟩]
    rfl
  | noFrames shows no_frames names =>
    have hframes := frames_eq_ok_iff.2 (List.forall₂_nil_right_iff.2 no_frames)
    rw [ofLog_of_lines (lines_eq_iff.2 shows), hframes, exceptionType_eq_iff.2 names]
    rfl
  | @invalidLevel header rest frames shows describe some_frames outside =>
    have hne : frames ≠ [] := by
      rintro rfl
      exact some_frames (List.forall₂_nil_right_iff.1 describe)
    rw [ofLog_of_lines (lines_eq_iff.2 shows), frames_eq_ok_iff.2 describe]
    rw [describe.length_eq] at outside ⊢
    exact (if_neg hne).trans (StackTrace.make?_eq_error_iff.2 ⟨outside, rfl⟩)
  | @crash header rest trace shows names describe level_eq irrelevant_eq =>
    have hlevel := level_eq ▸ And.intro trace.one_le_targetLevel trace.targetLevel_le
    have hne : trace.frames ≠ [] := List.ne_nil_of_length_pos (by omega)
    rw [ofLog_of_lines (lines_eq_iff.2 shows), frames_eq_ok_iff.2 describe,
      exceptionType_eq_iff.2 names, String.ofList_toList]
    exact (if_neg hne).trans
      (StackTrace.make?_eq_ok_iff.2 ⟨hlevel, rfl, rfl, level_eq, irrelevant_eq⟩)

end Log

/-- A log is read as the crash that it shows, with a frame for each of the frame lines of the
outermost exception. If it is not read, it has no line that is not blank; or else the first frame
line that describes no frame is reported; or else there is no frame line; or else the level is none
of the levels. -/
theorem StackTrace.ofLog_eq_iff (log : String) (level : UInt64)
    (result : Except Error StackTrace) :
    StackTrace.ofLog log level = result ↔ Log.Outcome log level result := by
  constructor
  · rintro rfl
    exact Log.outcome_ofLog log level
  · exact Log.Outcome.ofLog_eq

end CrashSearch
