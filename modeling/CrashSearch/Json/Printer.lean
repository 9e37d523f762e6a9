import CrashSearch.Json.Number
import CrashSearch.Json.Quoted

/-!
# Writing documents

## Main definitions

* `Json.text`, `Json.nat`, `Json.int`: leaves for values.
* `Json.render`: a document on one line without blanks.
* `Json.renderTexts`: a list of texts, one on a line.
-/

namespace CrashSearch.Json

/-- The document of a text. -/
def text (s : String) : Json := .string (Quoted.encode s)

/-- The document of a natural number. -/
def nat (n : Nat) : Json := .number (Nat.toDigits 10 n)

/-- The document of a whole number. -/
def int : Int → Json
  | .ofNat n => nat n
  | .negSucc n => .number ('-' :: Nat.toDigits 10 (n + 1))

/-- An object whose names are given as texts. -/
def record (members : List (String × Json)) : Json :=
  .object (members.map fun (name, value) => (Quoted.encode name, value))

/-- A spelling between its quotes. -/
def quote (spelling : Spelling) : String := "\"" ++ String.ofList spelling ++ "\""

mutual

/-- Writes a document behind `out`. -/
def renderTo (out : String) : Json → String
  | .null | .buried | .broken => out ++ "null"
  | .bool true => out ++ "true"
  | .bool false => out ++ "false"
  | .number spelling => out ++ String.ofList spelling
  | .string spelling => out ++ quote spelling
  | .array items => renderItems (out ++ "[") "" items ++ "]"
  | .object members => renderMembers (out ++ "\x7b") "" members ++ "\x7d"

def renderItems (out separator : String) : List Json → String
  | [] => out
  | item :: rest => renderItems (renderTo (out ++ separator) item) "," rest

def renderMembers (out separator : String) : List (Spelling × Json) → String
  | [] => out
  | (name, value) :: rest =>
    renderMembers (renderTo (out ++ separator ++ quote name ++ ":") value) "," rest

end

/-- A document on one line without blanks. -/
def render (j : Json) : String := renderTo "" j

/-- A list of texts, one on a line, set in by two blanks. -/
def renderTexts : List String → String
  | [] => "[]"
  | texts =>
    "[\n" ++ ",\n".intercalate (texts.map fun t => "  " ++ quote (Quoted.encode t)) ++ "\n]"

end CrashSearch.Json
