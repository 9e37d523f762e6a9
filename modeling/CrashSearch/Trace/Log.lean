import CrashSearch.Text.Cut
import CrashSearch.Trace.Basic

/-!
# Crash logs

A crash log opens with the type of the exception and its message, followed by the frames, one on
a line and each behind the word `at`. Only the outermost exception is read: a line that begins
with `Caused by` ends it. All other lines are passed over.

## Main definitions

* `Log.frame?`: the frame that the text behind `at` describes.
* `Log.frames`: the frames of the lines behind the header.
* `StackTrace.ofLog`: the crash of a log.
-/

namespace CrashSearch

namespace Log

/-- The lines of a log that are not blank, each without the white space around it. -/
def lines (log : String) : List (List Char) :=
  ((Text.lines log.toList).map Text.trim).filter (· ≠ [])

/-- The type of the exception: what stands before the first colon of the header. -/
def exceptionType (header : List Char) : List Char :=
  match Text.cut ':' header with
  | some (type, _) => Text.trim type
  | none => Text.trim header

/-- The number of a line: decimal digits, which a plus sign may precede. -/
def lineNumber? (text : List Char) : Option UInt32 :=
  let digits := match text with
    | '+' :: rest => rest
    | _ => text
  if digits ≠ [] ∧ digits.all Char.isDigit then
    let n := Nat.ofDigitChars 10 digits 0
    if n < UInt32.size then some (UInt32.ofNat n) else none
  else none

/-- The frame described by `class.method(file:line)`. -/
def frame? (text : List Char) : Option Frame := do
  let (qualified, location) ← Text.cut '(' text
  let (className, methodName) ← Text.cutLast '.' qualified
  let (_, number) ← Text.cutLast ':' (Text.dropEndWhile (· = ')') location)
  let line ← lineNumber? (Text.trim number)
  return ⟨String.ofList className, String.ofList methodName, line⟩

/-- What a line with a frame begins with. -/
def frameMark : List Char := ['a', 't', ' ']

/-- What the line that ends the outermost exception begins with. -/
def causeMark : List Char := ['C', 'a', 'u', 's', 'e', 'd', ' ', 'b', 'y']

/-- The frames of the lines behind the header, up to the cause of the exception. -/
def frames : List (List Char) → Except Error (List Frame)
  | [] => .ok []
  | line :: rest =>
    if Text.startsWith line causeMark then .ok []
    else match Text.behind? frameMark line with
      | none => frames rest
      | some text =>
        match frame? text with
        | none => .error (.malformedTrace (.unreadableFrame (String.ofList text)))
        | some frame => (frame :: ·) <$> frames rest

end Log

/-- The crash that a log records. -/
def StackTrace.ofLog (log : String) (targetLevel : UInt64) : Except Error StackTrace :=
  match Log.lines log with
  | [] => .error (.malformedTrace .empty)
  | header :: rest => do
    let type := String.ofList (Log.exceptionType header)
    let frames ← Log.frames rest
    if frames = [] then throw (.malformedTrace (.noFrames type))
    StackTrace.make? type frames targetLevel

end CrashSearch
