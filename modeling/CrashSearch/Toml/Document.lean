import CrashSearch.Toml.Number

/-!
# Settings documents

## Main definitions

* `value`: a value of any kind.
* `Document.ofText?`: the entries of a document.
-/

namespace CrashSearch.Toml

/-- A value that holds no others. -/
def simpleValue : Parser Item := do
  match ← peek with
  | some '"' | some '\'' => return .string (← string)
  | some 't' =>
    expect ['t', 'r', 'u', 'e']
    return .boolean true
  | some 'f' =>
    expect ['f', 'a', 'l', 's', 'e']
    return .boolean false
  | _ => moment <|> number

/-- The items of an array up to its end; a comma may follow the last one. -/
def arrayRest (item : Parser Item) : Nat → Parser (List Item)
  | 0 => failure
  | fuel + 1 => do
    gap
    if ← accept [']'] then return []
    let first ← item
    gap
    if ← accept [','] then return first :: (← arrayRest item fuel)
    expect [']']
    return [first]

/-- A key with its value in a table in braces. -/
def pair (item : Parser Item) : Parser (List String × String × Item) := do
  let (path, key) ← dottedKey
  expect ['=']
  blanks
  let v ← item
  blanks
  return (path, key, v)

/-- The pairs of a table in braces up to its end, added to those before. -/
def bracesRest (item : Parser Item) (entries : Entries) : Nat → Parser Entries
  | 0 => failure
  | fuel + 1 => do
    let (path, key, v) ← pair item
    match entries.addValue path key v with
    | none => failure
    | some entries =>
      if ← accept [','] then bracesRest item entries fuel
      else
        expect ['\x7d']
        return entries

/-- A value of any kind, with so many brackets inside one another at most. -/
def value : Nat → Parser Item
  | 0 => simpleValue
  | room + 1 => do
    if ← accept ['['] then return .array (← arrayRest (value room) ((← get).length + 1))
    else if ← accept ['\x7b'] then
      blanks
      if ← accept ['\x7d'] then return .table .closed []
      else return .table .closed (← bracesRest (value room) [] (← get).length)
    else simpleValue

/-- A document while it is read: its entries, and the path of the table that keys belong to. -/
structure Document where
  entries : Entries
  current : List String

namespace Document

/-- A header of a table or of an element of an array of tables. -/
def header (d : Document) : Parser Document := do
  expect ['[']
  let element ← accept ['[']
  let (path, key) ← dottedKey
  expect (if element then [']', ']'] else [']'])
  restOfLine
  let entries := if element then d.entries.openElement path key else d.entries.openTable path key
  match entries with
  | some entries => return ⟨entries, path ++ [key]⟩
  | none => failure

/-- A key with its value. -/
def keyValue (d : Document) : Parser Document := do
  let (path, key) ← dottedKey
  expect ['=']
  blanks
  let v ← value (nestingLimit - 1)
  restOfLine
  match d.entries.extendHeaded (fun _ entries => entries.addValue path key v) d.current with
  | some entries => return { d with entries := entries }
  | none => failure

/-- Reads line by line; every round reads at least one character. -/
def lines (d : Document) : Nat → Parser Document
  | 0 => return d
  | fuel + 1 => do
    blanks
    match ← peek with
    | none => return d
    | some '\n' =>
      expect ['\n']
      lines d fuel
    | some '#' =>
      comment
      lineEnd
      lines d fuel
    | some '[' => lines (← d.header) fuel
    | some _ => lines (← d.keyValue) fuel

/-- A text in which every line ends with one character. -/
def joinLineEnds : List Char → List Char
  | '\r' :: '\n' :: rest => '\n' :: joinLineEnds rest
  | c :: rest => c :: joinLineEnds rest
  | [] => []

/-- The entries of a document; a mark of the byte order may stand before it. -/
def ofText? (text : String) : Option Entries := do
  let cs := match text.toList with
    | '\ufeff' :: rest => rest
    | cs => cs
  let cs := joinLineEnds cs
  let (d, rest) ← (lines ⟨[], []⟩ (cs.length + 1)).run cs
  if rest = [] then return d.entries else none

end Document

end CrashSearch.Toml
