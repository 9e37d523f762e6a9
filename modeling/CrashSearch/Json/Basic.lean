/-!
# JSON documents

A document keeps its numbers and texts as they are spelled; what a spelling means is decided by
whoever reads it. Two leaves stand for what a reader met on the way: a part that may be passed
over but not read, and the place where the text stopped being JSON.

## Main definitions

* `Json`: documents.
* `Json.whole`: the document was read to its end.
-/

namespace CrashSearch

/-- How a number or a text is written down; of a text, what stands between its quotes. -/
abbrev Spelling := List Char

/-- A document. -/
inductive Json where
  | null
  | bool (value : Bool)
  | number (spelling : Spelling)
  | string (spelling : Spelling)
  | array (items : List Json)
  | object (members : List (Spelling × Json))
  /-- Brackets nested too deeply to be read. -/
  | buried
  /-- The text broke off here. -/
  | broken

namespace Json

instance : Inhabited Json := ⟨null⟩

mutual

/-- Nothing in the document is broken off. -/
def whole : Json → Bool
  | .array items => wholeItems items
  | .object members => wholeMembers members
  | .broken => false
  | _ => true

def wholeItems : List Json → Bool
  | [] => true
  | j :: rest => whole j && wholeItems rest

def wholeMembers : List (Spelling × Json) → Bool
  | [] => true
  | (_, j) :: rest => whole j && wholeMembers rest

end

end Json

end CrashSearch
