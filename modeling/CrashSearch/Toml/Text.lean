import CrashSearch.Json.Quoted

/-!
# Text in settings

Blanks, comments, the four kinds of strings, and keys.

## Main definitions

* `Parser`: reads from a list of characters.
* `blanks`, `comment`, `lineEnd`, `gap`: what stands between values.
* `string`: a string of any kind.
* `dottedKey`: a key with the path before it.
-/

namespace CrashSearch.Toml

/-- Reads from the characters that are left. -/
abbrev Parser (α : Type) := StateT (List Char) Option α

/-- Whether nothing is left. -/
def atEnd : Parser Bool := return (← get).isEmpty

/-- The next character, which stays. -/
def peek : Parser (Option Char) := return (← get).head?

/-- Reads a given text. -/
def expect (s : List Char) : Parser Unit := do
  let cs ← get
  if s.isPrefixOf cs then set (cs.drop s.length) else failure

/-- Reads a given text if it comes next, and tells whether it did. -/
def accept (s : List Char) : Parser Bool := do
  let cs ← get
  if s.isPrefixOf cs then
    set (cs.drop s.length)
    return true
  else return false

/-- Reads one character that passes a test if it comes next, and tells whether it did. -/
def acceptOne (p : Char → Bool) : Parser Bool := do
  match ← get with
  | [] => return false
  | c :: rest =>
    if p c then
      set rest
      return true
    else return false

/-- Reads the characters up to the first that fails a test. -/
def takeWhile (p : Char → Bool) : Parser (List Char) := do
  let cs ← get
  set (cs.dropWhile p)
  return cs.takeWhile p

/-- A blank inside a line. -/
def isBlank (c : Char) : Bool := c = ' ' ∨ c = '\t'

/-- What may stand in a line: everything but control characters, of which the tab is allowed. -/
def isInline (c : Char) : Bool := c = '\t' ∨ (0x20 ≤ c.toNat ∧ c.toNat ≤ 0x7e) ∨ 0x80 ≤ c.toNat

/-- Blanks, if there are any. -/
def blanks : Parser Unit := do
  let _ ← takeWhile isBlank

/-- A comment, if there is one. -/
def comment : Parser Unit := do
  if (← peek) = some '#' then
    let _ ← takeWhile isInline

/-- The end of a line or of the text. -/
def lineEnd : Parser Unit := do
  if !(← atEnd) then expect ['\n']

/-- What may follow a value or a header in its line. -/
def restOfLine : Parser Unit := do
  blanks
  comment
  lineEnd

/-- Blanks, ends of lines, and comments that end with their line. Every round reads a line. -/
def gapWithin : Nat → Parser Unit
  | 0 => blanks
  | fuel + 1 => do
    blanks
    let before ← get
    comment
    if ← accept ['\n'] then gapWithin fuel
    else if (← get).length ≠ before.length then failure

/-- What may stand around the items of an array. -/
def gap : Parser Unit := do gapWithin (← get).length

/-- The number of hexadecimal digits, if it is that of a character. -/
def charOfHex? (digits : List Char) : Option Char := do
  let n ← digits.foldlM (fun n c => (Quoted.hexValue? c).map (16 * n + ·)) 0
  if n < 0xd800 ∨ (0xe000 ≤ n ∧ n < 0x110000) then some (Char.ofNat n) else none

/-- The character of a one-letter escape. -/
def letter? : Char → Option Char
  | 'b' => some '\x08'
  | 't' => some '\t'
  | 'n' => some '\n'
  | 'f' => some '\x0c'
  | 'r' => some '\r'
  | '"' => some '"'
  | '\\' => some '\\'
  | _ => none

/-- The rest of a string in quotes, behind what was `read`, last character first. -/
def quotedRest (read : List Char) : List Char → Option (String × List Char)
  | [] => none
  | '"' :: rest => some (String.ofList read.reverse, rest)
  | '\\' :: 'u' :: a :: b :: c :: d :: rest =>
    match charOfHex? [a, b, c, d] with
    | some x => quotedRest (x :: read) rest
    | none => none
  | '\\' :: 'U' :: a :: b :: c :: d :: e :: f :: g :: h :: rest =>
    match charOfHex? [a, b, c, d, e, f, g, h] with
    | some x => quotedRest (x :: read) rest
    | none => none
  | '\\' :: c :: rest =>
    match letter? c with
    | some x => quotedRest (x :: read) rest
    | none => none
  | c :: rest => if isInline c ∧ c ≠ '\\' then quotedRest (c :: read) rest else none

/-- Where in a string over several lines the reading is. -/
inductive Fold where
  | text
  /-- Behind a backslash, with only blanks up to the end of the line. -/
  | lineEnd
  /-- In the blanks that follow an escaped end of line. -/
  | blanks
  deriving DecidableEq

/-- The rest of a string in triple quotes. Up to two quotes may stand before the closing ones, and
an escaped end of line is left out together with all blanks behind it. -/
def foldedRest (mode : Fold) (read : List Char) : List Char → Option (String × List Char)
  | [] => none
  | c :: rest =>
    if mode = .lineEnd then
      if isBlank c then foldedRest .lineEnd read rest
      else if c = '\n' then foldedRest .blanks read rest
      else none
    else if mode = .blanks ∧ (isBlank c ∨ c = '\n') then foldedRest .blanks read rest
    else if c = '"' then
      match rest with
      | '"' :: '"' :: '"' :: '"' :: after =>
        some (String.ofList ('"' :: '"' :: read).reverse, after)
      | '"' :: '"' :: '"' :: after => some (String.ofList ('"' :: read).reverse, after)
      | '"' :: '"' :: after => some (String.ofList read.reverse, after)
      | _ => foldedRest .text ('"' :: read) rest
    else if c = '\\' then
      match rest with
      | 'u' :: h₁ :: h₂ :: h₃ :: h₄ :: after =>
        match charOfHex? [h₁, h₂, h₃, h₄] with
        | some x => foldedRest .text (x :: read) after
        | none => none
      | 'U' :: h₁ :: h₂ :: h₃ :: h₄ :: h₅ :: h₆ :: h₇ :: h₈ :: after =>
        match charOfHex? [h₁, h₂, h₃, h₄, h₅, h₆, h₇, h₈] with
        | some x => foldedRest .text (x :: read) after
        | none => none
      | e :: after =>
        if e = '\n' then foldedRest .blanks read after
        else if isBlank e then foldedRest .lineEnd read after
        else
          match letter? e with
          | some x => foldedRest .text (x :: read) after
          | none => none
      | [] => none
    else if isInline c ∨ c = '\n' then foldedRest .text (c :: read) rest
    else none

/-- The rest of a string in single quotes, in which nothing is escaped. -/
def literalRest (read : List Char) : List Char → Option (String × List Char)
  | [] => none
  | c :: rest =>
    if c = '\'' then some (String.ofList read.reverse, rest)
    else if isInline c then literalRest (c :: read) rest
    else none

/-- The rest of a string in triple single quotes. -/
def verbatimRest (read : List Char) : List Char → Option (String × List Char)
  | [] => none
  | c :: rest =>
    if c = '\'' then
      match rest with
      | '\'' :: '\'' :: '\'' :: '\'' :: after =>
        some (String.ofList ('\'' :: '\'' :: read).reverse, after)
      | '\'' :: '\'' :: '\'' :: after => some (String.ofList ('\'' :: read).reverse, after)
      | '\'' :: '\'' :: after => some (String.ofList read.reverse, after)
      | _ => verbatimRest ('\'' :: read) rest
    else if isInline c ∨ c = '\n' then verbatimRest (c :: read) rest
    else none

/-- A string on one line. -/
def shortString : Parser String := fun cs =>
  match cs with
  | '"' :: rest => quotedRest [] rest
  | '\'' :: rest => literalRest [] rest
  | _ => none

/-- A text without the end of line it may begin with. -/
def withoutNewline : List Char → List Char
  | '\n' :: rest => rest
  | cs => cs

/-- A string of any kind. -/
def string : Parser String := fun cs =>
  match cs with
  | '"' :: '"' :: '"' :: rest => foldedRest .text [] (withoutNewline rest)
  | '\'' :: '\'' :: '\'' :: rest => verbatimRest [] (withoutNewline rest)
  | _ => shortString cs

/-- What may stand in a key without quotes. -/
def isBare (c : Char) : Bool := c.isAlphanum ∨ c = '-' ∨ c = '_'

/-- One part of a key. -/
def keyPart : Parser String := do
  blanks
  let part ← match ← peek with
    | some '"' | some '\'' => shortString
    | _ => do
      let cs ← takeWhile isBare
      if cs = [] then failure else pure (String.ofList cs)
  blanks
  return part

/-- The parts of a key from the second on. -/
def moreParts : Nat → Parser (List String)
  | 0 => return []
  | fuel + 1 => do
    if ← accept ['.'] then
      let part ← keyPart
      return part :: (← moreParts fuel)
    else return []

/-- How many parts a key may not have, and how many brackets may not lie inside one another. -/
def nestingLimit : Nat := 80

/-- A key with the path before it. -/
def dottedKey : Parser (List String × String) := do
  let first ← keyPart
  let rest ← moreParts (← get).length
  let parts := first :: rest
  if nestingLimit ≤ parts.length then failure
  else return (parts.dropLast, parts.getLastD first)

end CrashSearch.Toml
