import CrashSearch.Trace.Log

/-!
# Written crash logs

A crash log in its parts: a header, the lines with the frames, remarks between them and the cause
at the end, each line with its own way to end. Reading what the parts write gives back the crash
with exactly their frames.

## Main definitions

* `Log.FrameLine`, `Log.Remark`, `Log.Cause`: the lines behind the header.
* `Log.Written`: a log in its parts.
* `Log.Written.text`: the log that the parts write.

## Main statements

* `Log.frame?_description`: a frame can be read from its description.
* `Log.frames_lines_body`: of the lines behind the header, those with frames are read.
* `StackTrace.ofLog_text`: reading a written log gives back its crash.
-/

namespace CrashSearch

namespace Log

/-- How a line ends: with a newline, which a carriage return may precede. -/
inductive LineEnd where
  | newline
  | returnAndNewline

/-- The characters that end the line. -/
def LineEnd.text : LineEnd → List Char
  | .newline => ['\n']
  | .returnAndNewline => ['\r', '\n']

/-- White space within a line. -/
structure Space where
  text : List Char
  blank : text.all Text.isBlank := by decide
  oneLine : '\n' ∉ text := by decide

/-- A line with a frame and the file that holds its class. -/
structure FrameLine where
  frame : Frame
  file : List Char
  before : Space
  after : Space
  className_oneLine : '\n' ∉ frame.className.toList := by decide
  className_closed : '(' ∉ frame.className.toList := by decide
  methodName_oneLine : '\n' ∉ frame.methodName.toList := by decide
  methodName_closed : '(' ∉ frame.methodName.toList := by decide
  methodName_unqualified : '.' ∉ frame.methodName.toList := by decide
  file_oneLine : '\n' ∉ file := by decide

/-- A line that shows neither a frame nor a cause, such as a blank line. -/
structure Remark where
  text : List Char
  oneLine : '\n' ∉ text := by decide
  noFrame : ¬ "at ".toList <+: Text.trim text := by decide
  noCause : ¬ "Caused by".toList <+: Text.trim text := by decide

/-- A line behind the header that belongs to the outermost exception. -/
inductive Entry where
  | frame (line : FrameLine)
  | remark (line : Remark)

/-- The end of a log: the line that names the cause, and whatever follows. -/
structure Cause where
  before : Space
  rest : List Char

/-- A log in its parts. Each line behind the header comes with the end of the line before it. -/
structure Written where
  type : String
  message : Option (List Char)
  entries : List (LineEnd × Entry)
  cause : Option (LineEnd × Cause)
  type_ne : type ≠ "" := by decide
  type_oneLine : '\n' ∉ type.toList := by decide
  type_closed : ':' ∉ type.toList := by decide
  type_head : type.toList.head?.all (!Text.isBlank ·) := by decide
  type_last : type.toList.getLast?.all (!Text.isBlank ·) := by decide
  message_oneLine : ∀ text ∈ message, '\n' ∉ text := by decide

/-- The description `class.method(file:line)` of a frame. -/
def FrameLine.description (l : FrameLine) : List Char :=
  (l.frame.className.toList ++ '.' :: l.frame.methodName.toList) ++
    '(' :: (l.file ++ ':' :: (Nat.toDigits 10 l.frame.line.toNat ++ [')']))

/-- The line with the white space around it. -/
def FrameLine.text (l : FrameLine) : List Char :=
  l.before.text ++ ("at ".toList ++ l.description ++ l.after.text)

/-- What the line and those that follow it say. -/
def Cause.text (c : Cause) : List Char :=
  c.before.text ++ "Caused by".toList ++ c.rest

/-- What the line says. -/
def Entry.text : Entry → List Char
  | .frame l => l.text
  | .remark r => r.text

/-- The frame of a line that shows one. -/
def Entry.frame? : Entry → Option Frame
  | .frame l => some l.frame
  | .remark _ => none

/-- The text behind the header. -/
def body : List (LineEnd × Entry) → Option (LineEnd × Cause) → List Char
  | [], none => []
  | [], some (ending, cause) => ending.text ++ cause.text
  | (ending, entry) :: rest, cause => ending.text ++ (entry.text ++ body rest cause)

namespace Written

/-- The first line: the type, and the message behind a colon and a space. -/
def header (log : Written) : List Char :=
  log.type.toList ++ match log.message with
    | none => []
    | some text => ':' :: ' ' :: text

/-- The log that the parts write. -/
def text (log : Written) : String := String.ofList (log.header ++ body log.entries log.cause)

/-- The frames of the lines that show one, in their order. -/
def frames (log : Written) : List Frame := log.entries.filterMap (·.2.frame?)

end Written

/-! ## Lines -/

theorem Space.isBlank (s : Space) : ∀ c ∈ s.text, Text.isBlank c := List.all_eq_true.1 s.blank

/-- A line is read without the carriage return at its end. -/
theorem map_trim_lines_append {a : List Char} (ha : '\n' ∉ a) (ending : LineEnd) (b : List Char) :
    (Text.lines (a ++ (ending.text ++ b))).map Text.trim =
      Text.trim a :: (Text.lines b).map Text.trim := by
  cases ending with
  | newline =>
    obtain ⟨_, _, hb, hl⟩ := Text.lines_append ha ('\n' :: b)
    simp_all [LineEnd.text]
  | returnAndNewline =>
    have hr : '\n' ∉ a ++ ['\r'] := by simp [ha]
    have ht : Text.trim (a ++ ['\r']) = Text.trim a := Text.trim_append a (by simp [Text.isBlank])
    obtain ⟨_, _, hb, hl⟩ := Text.lines_append hr ('\n' :: b)
    simp_all [LineEnd.text]

/-! ## Frames -/

theorem not_isBlank_of_isDigit {c : Char} (h : c.isDigit) : ¬ Text.isBlank c := by
  have hc : 48 ≤ c.toNat ∧ c.toNat ≤ 57 := by
    simpa [Char.isDigit, UInt32.le_iff_toNat_le] using h
  simp [Text.isBlank]
  omega

theorem isDigit_of_mem_toDigits {n : Nat} {c : Char} (h : c ∈ Nat.toDigits 10 n) : c.isDigit :=
  Nat.isDigit_of_mem_toDigits (by decide) (by decide) h

theorem not_mem_toDigits {c : Char} (hc : ¬ c.isDigit) (n : Nat) : c ∉ Nat.toDigits 10 n :=
  fun h => hc (isDigit_of_mem_toDigits h)

theorem trim_toDigits (n : Nat) : Text.trim (Nat.toDigits 10 n) = Nat.toDigits 10 n := by
  apply Text.trim_eq_self
  · intro c hc
    exact not_isBlank_of_isDigit (isDigit_of_mem_toDigits (List.mem_of_mem_head? hc))
  · intro c hc
    exact not_isBlank_of_isDigit (isDigit_of_mem_toDigits (List.mem_of_mem_getLast? hc))

/-- The decimal digits of a number are read as that number. -/
theorem lineNumber?_toDigits (n : UInt32) : lineNumber? (Nat.toDigits 10 n.toNat) = some n := by
  have hsign : ∀ rest, Nat.toDigits 10 n.toNat ≠ '+' :: rest := by
    intro rest h
    exact not_mem_toDigits (by decide) n.toNat (h ▸ List.mem_cons_self)
  have hall : (Nat.toDigits 10 n.toNat).all Char.isDigit := by
    simpa using fun c hc => isDigit_of_mem_toDigits hc
  have hn : n.toNat < UInt32.size := n.toNat_lt_size
  unfold lineNumber?
  split
  · next rest h => exact absurd h (hsign rest)
  · simp [hall, Nat.ofDigitChars_ten_toDigits, hn]

/-- A frame can be read from its description. -/
theorem frame?_description (l : FrameLine) : frame? l.description = some l.frame := by
  have hopen : '(' ∉ l.frame.className.toList ++ '.' :: l.frame.methodName.toList := by
    simp [l.className_closed, l.methodName_closed]
  have hclose : ')' ∉ Nat.toDigits 10 l.frame.line.toNat := not_mem_toDigits (by decide) _
  have hcolon : ':' ∉ Nat.toDigits 10 l.frame.line.toNat := not_mem_toDigits (by decide) _
  have hlocation : Text.dropEndWhile (· = ')')
      (l.file ++ ':' :: (Nat.toDigits 10 l.frame.line.toNat ++ [')'])) =
        l.file ++ ':' :: Nat.toDigits 10 l.frame.line.toNat := by
    rw [Text.dropEndWhile_append_cons (by decide), Text.dropEndWhile_append _ (by simp),
      Text.dropEndWhile_eq_self]
    intro c hc
    have := List.mem_of_mem_getLast? hc
    grind
  simp only [frame?, FrameLine.description, Text.cut_append hopen, hlocation,
    Text.cutLast_append _ l.methodName_unqualified, Text.cutLast_append _ hcolon,
    trim_toDigits, lineNumber?_toDigits, Option.bind_eq_bind, Option.bind_some]
  simp

theorem FrameLine.description_closed (l : FrameLine) : ∃ shown, l.description = shown ++ [')'] :=
  ⟨(l.frame.className.toList ++ '.' :: l.frame.methodName.toList) ++
    '(' :: (l.file ++ ':' :: Nat.toDigits 10 l.frame.line.toNat), by simp [description]⟩

theorem FrameLine.oneLine (l : FrameLine) : '\n' ∉ l.text := by
  have hn : '\n' ∉ Nat.toDigits 10 l.frame.line.toNat := not_mem_toDigits (by decide) _
  simp [FrameLine.text, description, l.before.oneLine, l.after.oneLine, l.className_oneLine,
    l.methodName_oneLine, l.file_oneLine, hn]

theorem Entry.oneLine (e : Entry) : '\n' ∉ e.text := by
  cases e with
  | frame l => exact l.oneLine
  | remark r => exact r.oneLine

/-- Trimming leaves the word `at` and the description. -/
theorem FrameLine.trim_text (l : FrameLine) : Text.trim l.text = frameMark ++ l.description := by
  obtain ⟨shown, hs⟩ := l.description_closed
  have hd : Text.dropEndWhile Text.isBlank ('t' :: ' ' :: l.description) =
      't' :: ' ' :: l.description := by
    rw [hs]
    exact Text.dropEndWhile_append_cons (by decide) ('t' :: ' ' :: shown) []
  have ht : l.text = l.before.text ++ 'a' :: ('t' :: ' ' :: l.description ++ l.after.text) := rfl
  rw [ht, Text.trim_append_cons l.before.isBlank (by decide),
    Text.dropEndWhile_append _ l.after.isBlank, hd]
  rfl

/-- Trimming keeps the beginning of the line with the cause. -/
theorem prefix_trim_cause (before : Space) (more : List Char) :
    causeMark <+: Text.trim (before.text ++ "Caused by".toList ++ more) := by
  have ht : before.text ++ "Caused by".toList ++ more =
      before.text ++ 'C' :: ("aused b".toList ++ 'y' :: more) := by simp
  rw [ht, Text.trim_append_cons before.isBlank (by decide),
    Text.dropEndWhile_append_cons (by decide)]
  exact List.prefix_append causeMark _

/-- Nothing is read from the line with the cause on. -/
theorem frames_cause (c : Cause) :
    frames (((Text.lines c.text).map Text.trim).filter (· ≠ [])) = .ok [] := by
  have hone : '\n' ∉ c.before.text ++ "Caused by".toList := by simp [c.before.oneLine]
  obtain ⟨first, rest, -, hl⟩ := Text.lines_append hone c.rest
  have hc := prefix_trim_cause c.before first
  have hne : Text.trim (c.before.text ++ "Caused by".toList ++ first) ≠ [] := by
    intro h
    rw [h] at hc
    simp [causeMark] at hc
  rw [Cause.text, hl, List.map_cons, List.filter_cons_of_pos (by simpa using hne), frames,
    if_pos (Text.startsWith_iff.2 hc)]

/-- An entry adds the frame that it shows. -/
theorem frames_entry (e : Entry) {rest : List (List Char)} {fs : List Frame}
    (h : frames (rest.filter (· ≠ [])) = .ok fs) :
    frames ((Text.trim e.text :: rest).filter (· ≠ [])) = .ok (e.frame?.toList ++ fs) := by
  cases e with
  | frame l =>
    have hc : Text.startsWith (frameMark ++ l.description) causeMark = false := rfl
    rw [Entry.text, l.trim_text, List.filter_cons_of_pos (by simp [frameMark])]
    simp only [frames, hc, Text.behind?_append, frame?_description, h]
    rfl
  | remark r =>
    have hc : Text.startsWith (Text.trim r.text) causeMark = false := by
      rw [← Bool.not_eq_true, Text.startsWith_iff]
      exact r.noCause
    have hf : Text.behind? frameMark (Text.trim r.text) = none :=
      Text.behind?_eq_none_iff.2 r.noFrame
    by_cases hb : Text.trim r.text = []
    · rw [Entry.text, hb, List.filter_cons_of_neg (by simp)]
      exact h
    · rw [Entry.text, List.filter_cons_of_pos (by simpa using hb)]
      simp only [frames, hc, hf, h]
      rfl

/-- Of the lines behind the header exactly the frames are read that the entries show. -/
theorem frames_lines_body (entries : List (LineEnd × Entry)) (cause : Option (LineEnd × Cause))
    {a : List Char} (ha : '\n' ∉ a) :
    ∃ rest, (Text.lines (a ++ body entries cause)).map Text.trim = Text.trim a :: rest ∧
      frames (rest.filter (· ≠ [])) = .ok (entries.filterMap (·.2.frame?)) := by
  -- An entry begins with the end of the line before it, so any line may stand in front.
  induction entries generalizing a with
  | nil =>
    cases cause with
    | none =>
      obtain ⟨_, _, hn, hl⟩ := Text.lines_append ha []
      exact ⟨[], by simp_all [body], rfl⟩
    | some c => exact ⟨_, map_trim_lines_append ha c.1 c.2.text, frames_cause c.2⟩
  | cons entry entries ih =>
    obtain ⟨rest, hl, hf⟩ := ih entry.2.oneLine
    refine ⟨_, map_trim_lines_append ha entry.1 _, ?_⟩
    rw [hl, frames_entry entry.2 hf]
    cases h : entry.2.frame? <;> simp [h]

/-! ## Headers -/

namespace Written

theorem header_oneLine (log : Written) : '\n' ∉ log.header := by
  cases h : log.message with
  | none => simp [header, h, log.type_oneLine]
  | some text => simp [header, h, log.type_oneLine, log.message_oneLine text h]

theorem not_isBlank_head (log : Written) : ∀ c ∈ log.type.toList.head?, ¬ Text.isBlank c := by
  simpa [Option.all_eq_true] using log.type_head

theorem trim_type (log : Written) : Text.trim log.type.toList = log.type.toList :=
  Text.trim_eq_self log.not_isBlank_head (by simpa [Option.all_eq_true] using log.type_last)

/-- Trimming a header changes at most the message. -/
theorem trim_header (log : Written) : Text.trim log.header = log.type.toList ∨
    ∃ message, Text.trim log.header = log.type.toList ++ ':' :: message := by
  cases h : log.message with
  | none => exact .inl (by simp [header, h, log.trim_type])
  | some text =>
    right
    obtain ⟨c, cs, ht⟩ := List.exists_cons_of_ne_nil (mt String.toList_eq_nil_iff.1 log.type_ne)
    have hc : ¬ Text.isBlank c := log.not_isBlank_head c (by simp [ht])
    refine ⟨Text.dropEndWhile Text.isBlank (' ' :: text), ?_⟩
    have hh : log.header = [] ++ c :: (cs ++ ':' :: ' ' :: text) := by simp [header, h, ht]
    rw [hh, Text.trim_append_cons (by simp) hc, Text.dropEndWhile_append_cons (by decide), ht,
      List.cons_append]

/-- The type of the exception is read from the header. -/
theorem exceptionType_header (log : Written) :
    Text.trim log.header ≠ [] ∧ exceptionType (Text.trim log.header) = log.type.toList := by
  have hne : log.type.toList ≠ [] := mt String.toList_eq_nil_iff.1 log.type_ne
  rcases log.trim_header with h | ⟨message, h⟩
  · simp [h, hne, exceptionType, Text.cut_eq_none log.type_closed, log.trim_type]
  · simp [h, exceptionType, Text.cut_append log.type_closed, log.trim_type]

end Written

end Log

/-- Reading a log that shows at least one frame gives the crash with its type and its frames: the
message, the remarks, the ends of the lines and all that follows a cause have no effect. -/
theorem StackTrace.ofLog_text (log : Log.Written) (targetLevel : UInt64) (h : log.frames ≠ []) :
    StackTrace.ofLog log.text targetLevel =
      StackTrace.make? log.type log.frames targetLevel := by
  obtain ⟨rest, hl, hf⟩ := Log.frames_lines_body log.entries log.cause log.header_oneLine
  obtain ⟨hne, htype⟩ := log.exceptionType_header
  have hlines : Log.lines log.text =
      Text.trim log.header :: rest.filter (· ≠ []) := by
    rw [Log.lines, Log.Written.text, String.toList_ofList, hl,
      List.filter_cons_of_pos (by simpa using hne)]
  have hframes : Log.frames (rest.filter (· ≠ [])) = .ok log.frames := hf
  simp only [StackTrace.ofLog, hlines, htype, hframes, String.ofList_toList]
  simp [bind, Except.bind, h]

/-- A log with a colon in its message, brackets in the name of a file, lines that begin almost like
a frame, both ways to end a line and a cause with frames of its own. -/
def Log.tangled : Log.Written where
  type := "at acme.Failure"
  message := some "index: 7 (of 3) ".toList
  entries := [
    (.returnAndNewline, .remark { text := "\tatop (x:1)".toList }),
    (.newline, .frame {
      frame := ⟨"acme.Parser$1", "check", 42⟩
      file := "P:1) (2)".toList
      before := { text := ['\t', ' '] }
      after := { text := [' '] } }),
    (.newline, .remark { text := [] }),
    (.returnAndNewline, .frame {
      frame := ⟨"", "run", 4294967295⟩
      file := []
      before := { text := [] }
      after := { text := [] } })]
  cause := some (.returnAndNewline,
    { before := { text := [' '] }, rest := ": none\n at acme.B.go(B:1)\n".toList })

/-- Reading it gives the two frames in front of the cause. -/
theorem StackTrace.ofLog_tangled :
    Log.tangled.text = "at acme.Failure: index: 7 (of 3) \r\n\tatop (x:1)\n" ++
      "\t at acme.Parser$1.check(P:1) (2):42) \n\r\nat .run(:4294967295)\r\n" ++
      " Caused by: none\n at acme.B.go(B:1)\n" ∧
    Log.tangled.frames ≠ [] ∧
    StackTrace.ofLog Log.tangled.text 2 = StackTrace.make? "at acme.Failure"
      [⟨"acme.Parser$1", "check", 42⟩, ⟨"", "run", 4294967295⟩] 2 :=
  ⟨by decide +kernel, by decide, StackTrace.ofLog_text Log.tangled 2 (by decide)⟩

end CrashSearch
